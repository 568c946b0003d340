/- # Long sums

The operators of a chain are parsed one after the other, but the tree leans to the left and is as
high as the chain is long.  So the text "1+1+...+1" is parsed within an allowance of six, however
long it is (`Tree.parse_plusOnes`), while there is no value within an allowance below the number of
its terms (`Tree.evaluate_plusOnes_ne_ok`). -/
import Abacus.Proofs.EvaluationRules

namespace Abacus
set_option autoImplicit false

open Token (Lexeme lexemes)

/-- "+1" so many times. -/
def Text.plusOnes : Nat → Text
  | 0 => []
  | n + 1 => '+' :: '1' :: plusOnes n

def Token.Lexeme.plusOnes : Nat → List Lexeme
  | 0 => []
  | n + 1 => .symbol .plus :: .integer 1 :: plusOnes n

def Tree.plusOnes : Nat → Tree → Tree
  | 0, t => t
  | n + 1, t => plusOnes n (.binary (.symbol .plus) t (.literal (.int 1)))

theorem Text.length_plusOnes (n : Nat) : (plusOnes n).length = 2 * n := by
  induction n with
  | zero => rfl
  | succ n ih =>
      rw [plusOnes, List.length_cons, List.length_cons, ih]
      omega

theorem Text.le_length_plusOnes (n : Nat) : n ≤ (Text.plusOnes n).length := by
  rw [length_plusOnes]
  omega

theorem Text.mem_plusOnes {n : Nat} {c : Char} (member : c ∈ '1' :: plusOnes n) :
    c = '1' ∨ c = '+' := by
  induction n with
  | zero => exact .inl (List.mem_singleton.mp member)
  | succ n ih =>
      simp only [plusOnes, List.mem_cons] at member ih
      tauto

theorem Text.plusOnes_apart (n : Nat) : (Text.plusOnes n).Apart := by
  cases n with
  | zero => exact .nil
  | succ n => exact .symbol .plus _

theorem Spells.one_plusOnes (n : Nat) :
    Spells ('1' :: Text.plusOnes n) (.integer 1 :: Lexeme.plusOnes n) := by
  have one : (Lexeme.integer 1).Valid := Nat.one_lt_pow (by decide) (by decide)
  refine @Spells.word (.integer 1) _ _ one ((Text.plusOnes_apart n).carries _) ?_
  induction n with
  | zero => exact .done
  | succ n ih =>
      exact .symbol .plus (@Spells.word (.integer 1) _ _ one ((Text.plusOnes_apart n).carries _) ih)

theorem Tree.height_plusOnes (n : Nat) (t : Tree) : (plusOnes n t).height = t.height + n := by
  induction n generalizing t with
  | zero => rfl
  | succ n ih =>
      have taller : max t.height 1 = t.height := Nat.max_eq_left t.height_pos
      rw [plusOnes, ih]
      simp only [height, taller]
      omega

/-! ## Parsing -/

namespace Cursor

/-- The lexemes are ahead of the cursor, and behind them is the end of the text. -/
def Faces (c : Cursor) (u : List Lexeme) : Prop :=
  ∃ found stop, c.ahead = (found ++ [stop], none) ∧ stop.kind = .endOfText ∧ lexemes found = u

namespace Faces

variable {c : Cursor} {l : Lexeme} {u : List Lexeme}

theorem last (faces : c.Faces []) : c.current.kind = .endOfText := by
  obtain ⟨found, stop, ahead, last, same⟩ := faces
  obtain rfl : found = [] := List.map_eq_nil_iff.mp same
  obtain ⟨later, head⟩ := c.ahead_head
  rw [ahead] at head
  rw [← (List.cons.inj head).1, last]

theorem current (faces : c.Faces (l :: u)) : c.current.lexeme = l := by
  obtain ⟨found, stop, ahead, -, same⟩ := faces
  obtain ⟨first, found, rfl, lexeme, -⟩ := List.map_eq_cons_iff.mp same
  obtain ⟨later, head⟩ := c.ahead_head
  rw [ahead] at head
  rw [← (List.cons.inj head).1, lexeme]

theorem kind (faces : c.Faces (l :: u)) : c.current.kind = l.kind := by
  rw [Token.kind, faces.current]

theorem advance (faces : c.Faces (l :: u)) (going : l.kind ≠ .endOfText) :
    ∃ after, Cursor.advance c = .ok () after ∧ after.scanner.text = c.scanner.text ∧
      after.Faces u := by
  have onward : c.current.kind ≠ .endOfText := by rwa [faces.kind]
  obtain ⟨found, stop, ahead, last, same⟩ := faces
  obtain ⟨first, found, rfl, -, behind⟩ := List.map_eq_cons_iff.mp same
  rcases c.advance_cases onward with ⟨after, advanced, text, tokens⟩ | ⟨d, after, -, tokens⟩
  · rw [ahead] at tokens
    obtain ⟨split, refusal⟩ := Prod.mk.inj tokens
    have rest : after.ahead = (found ++ [stop], none) :=
      Prod.ext (List.cons.inj split).2.symm refusal.symm
    exact ⟨after, advanced, text, found, stop, rest, last, behind⟩
  · rw [ahead] at tokens
    cases (Prod.mk.inj tokens).2

end Faces
end Cursor

namespace Rule

theorem run_one (depth : Nat) {n : Nat} {c : Cursor}
    (faces : c.Faces (.integer 1 :: Lexeme.plusOnes n)) :
    ∃ after, run (depth + 3) .multiplicative c = .ok (.literal (.int 1)) after ∧
      after.scanner.text = c.scanner.text ∧ after.Faces (Lexeme.plusOnes n) := by
  obtain ⟨after, advanced, text, behind⟩ := faces.advance nofun
  have unary : run (depth + 2) .unary c = .ok (.literal (.int 1)) after := by
    rw [run_unary, faces.kind, if_neg (by decide), run_atom, faces.current]
    dsimp only
    rw [bind_apply, advanced]
    rfl
  have single : isScale after.current.kind = false := by
    cases n with
    | zero => rw [behind.last]; rfl
    | succ n => rw [behind.kind]; rfl
  refine ⟨after, ?_, text, behind⟩
  rw [run, operators, bind_apply, unary]
  show chain isScale _ (_ + 1) _ after = _
  rw [chain_succ, single]
  rfl

/-- The loop over the operators stays at one depth. -/
theorem chain_plusOnes (depth n : Nat) {allowance : Nat} (enough : n < allowance) (t : Tree)
    {c : Cursor} (faces : c.Faces (Lexeme.plusOnes n)) :
    ∃ after, chain isSign (run (depth + 3) .multiplicative) allowance t c =
      .ok (Tree.plusOnes n t) after ∧ after.current.kind = .endOfText := by
  induction n generalizing allowance t c with
  | zero =>
      obtain ⟨allowance, rfl⟩ := Nat.exists_eq_add_one.mpr enough
      refine ⟨c, ?_, faces.last⟩
      rw [chain_succ, faces.last]
      rfl
  | succ n ih =>
      obtain ⟨allowance, rfl⟩ := Nat.exists_eq_add_one.mpr (Nat.zero_lt_of_lt enough)
      obtain ⟨between, advanced, -, one⟩ := faces.advance nofun
      obtain ⟨after, operand, -, behind⟩ := run_one depth one
      have plus : c.current.kind = .symbol .plus := faces.kind
      rw [chain_succ, plus, if_pos (by decide), bind_apply, advanced]
      dsimp only
      rw [bind_apply, operand]
      exact ih (Nat.lt_of_succ_lt_succ enough) _ behind

theorem run_plusOnes (depth : Nat) {n : Nat} {c : Cursor}
    (faces : c.Faces (.integer 1 :: Lexeme.plusOnes n)) (long : n ≤ c.scanner.text.length) :
    ∃ after, run (depth + 6) .expression c = .ok (Tree.plusOnes n (.literal (.int 1))) after ∧
      after.current.kind = .endOfText := by
  obtain ⟨between, one, text, behind⟩ := run_one depth faces
  rw [← text] at long
  obtain ⟨after, ones, last⟩ := chain_plusOnes depth n (Nat.lt_succ_of_le long) _ behind
  refine ⟨after, ?_, last⟩
  rw [run, run_assignment, faces.current]
  dsimp only
  rw [run, operators, bind_apply, one]
  exact ones

end Rule

namespace Tree

/-- The length of a sum does not count for parsing. -/
theorem parse_plusOnes (depth n : Nat) :
    parse (depth + 6) ('1' :: Text.plusOnes n) = .ok (plusOnes n (.literal (.int 1))) := by
  obtain ⟨found, stop, tokens, last, same⟩ := (Spells.one_plusOnes n).tokens
  have long : n ≤ ('1' :: Text.plusOnes n).length :=
    Nat.le_trans (Text.le_length_plusOnes n) (Nat.le_succ _)
  generalize '1' :: Text.plusOnes n = text at tokens long
  rw [parse]
  cases started : Cursor.start text with
  | error e =>
      obtain ⟨d, -, refused⟩ := Cursor.start_error started
      rw [tokens] at refused
      cases (Prod.mk.inj refused).2
  | ok c =>
      obtain ⟨rfl, ahead⟩ := Cursor.start_ok started
      have faces : c.Faces (.integer 1 :: Lexeme.plusOnes n) :=
        ⟨found, stop, ahead.trans tokens, last, same⟩
      obtain ⟨after, ran, ends⟩ := Rule.run_plusOnes depth faces long
      dsimp only
      rw [Rule.whole_eq, ran]
      dsimp only
      rw [if_pos ends]

/-! ## Evaluation -/

/-- The length of a sum counts for evaluation. -/
theorem evaluate_plusOnes_ne_ok {depth n : Nat} (long : depth ≤ n) (t : Tree) (env : Environment)
    (value : Number) (after : Environment) :
    evaluate depth (plusOnes n t) env ≠ .ok value after := by
  intro evaluated
  have fits := (yields_iff.mpr evaluated).height_le rfl
  have pos := t.height_pos
  rw [height_plusOnes] at fits
  omega

end Tree
end Abacus
