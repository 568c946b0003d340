/- # Layout

Blanks are there to keep words apart, and for nothing else: texts with the same words are parsed to
the same tree, with every allowance (`Tree.parse_of_words`).  That the grammar derives the same from
both would not do, since an allowance that is used up shows in no derivation; so the parser is
followed on both texts at once.  Cursors with the same lexemes ahead are twins (`Cursor.Twin`), and
whatever a rule makes of a cursor it makes of its twin (`Rule.run_kept`).

A text that is parsed closes all parentheses that it opens (`Tree.parse_closed`), as its characters
are counted and not only its tokens. -/
import Abacus.Proofs.Parentheses
import Abacus.Proofs.Recognition
import Abacus.Proofs.Words

namespace Abacus
set_option autoImplicit false

open Token (Lexeme lexemes)

/-! ## Twins -/

namespace Cursor

/-- Cursors with the same lexemes ahead, whose texts have room for them. -/
structure Twin (c c' : Cursor) : Prop where
  same : lexemes c.ahead.1 = lexemes c'.ahead.1
  fits : c.Fits
  fits' : c'.Fits

namespace Twin

variable {c c' : Cursor}

theorem length (twin : Twin c c') : c.ahead.1.length = c'.ahead.1.length := by
  simpa using congrArg List.length twin.same

theorem lexeme (twin : Twin c c') : c.current.lexeme = c'.current.lexeme := by
  obtain ⟨later, head⟩ := c.ahead_head
  obtain ⟨later', head'⟩ := c'.ahead_head
  have same := twin.same
  rw [head, head'] at same
  exact (List.cons.inj same).1

theorem kind (twin : Twin c c') : c.current.kind = c'.current.kind :=
  congrArg Lexeme.kind twin.lexeme

/-- Where moving on succeeds, it succeeds for the twin. -/
theorem advance (twin : Twin c c') (going : c.current.kind ≠ .endOfText) {after : Cursor}
    (moved : Cursor.advance c = .ok () after) :
    ∃ after', Cursor.advance c' = .ok () after' ∧ Twin after after' ∧
      after.ahead.1.length < c.ahead.1.length := by
  have going' : c'.current.kind ≠ .endOfText := twin.kind ▸ going
  rcases c.advance_cases going with ⟨next, ok, text, ahead⟩ | ⟨d, next, failed, -⟩
  · rw [moved] at ok
    cases ok
    obtain ⟨later, head⟩ := after.ahead_head
    have same := twin.same
    rcases c'.advance_cases going' with ⟨after', moved', text', ahead'⟩ | ⟨d, after', -, ahead'⟩
    · rw [ahead, ahead'] at same
      have shorter : after.ahead.1.length < c.ahead.1.length := by rw [ahead]; simp
      have shorter' : after'.ahead.1.length < c'.ahead.1.length := by rw [ahead']; simp
      exact ⟨after', moved', ⟨(List.cons.inj same).2, twin.fits.of_shorter text shorter.le,
        twin.fits'.of_shorter text' shorter'.le⟩, shorter⟩
    · -- nothing would be left of the twin's tokens
      rw [ahead, ahead', head] at same
      cases (List.cons.inj same).2
  · rw [moved] at failed
    cases failed

/-- Where looking ahead succeeds, it succeeds for the twin and shows the same lexeme. -/
theorem peek (twin : Twin c c') (going : c.current.kind ≠ .endOfText) {token : Token}
    {after : Cursor} (looked : Cursor.peek c = .ok token after) :
    ∃ token' after', Cursor.peek c' = .ok token' after' ∧ token.lexeme = token'.lexeme ∧
      Twin after after' ∧ after.ahead.1.length = c.ahead.1.length := by
  have going' : c'.current.kind ≠ .endOfText := twin.kind ▸ going
  have same := twin.same
  rcases c.peek_cases going with
    ⟨seen, later, next, ok, -, text, ahead, tokens⟩ | ⟨d, next, failed, -⟩
  · rw [looked] at ok
    cases ok
    rcases c'.peek_cases going' with
      ⟨token', later', after', looked', -, text', ahead', tokens'⟩ | ⟨d, after', -, ahead'⟩
    · refine ⟨token', after', looked', ?_, ⟨?_, ?_, ?_⟩, by rw [ahead]⟩
      · rw [tokens, tokens'] at same
        exact (List.cons.inj (List.cons.inj same).2).1
      · rw [ahead, ahead', same]
      · exact twin.fits.of_shorter text (by rw [ahead])
      · exact twin.fits'.of_shorter text' (by rw [ahead'])
    · rw [tokens, ahead'] at same
      cases (List.cons.inj same).2
  · rw [looked] at failed
    cases failed

end Twin
end Cursor

/-! ## The rules on twins -/

open Cursor (Twin)

/-- Where the first result is a tree, the second is the same tree; the cursors that are left are
twins, with at most so many tokens ahead. -/
def Kept (most : Nat) (r r' : EStateM.Result Failure Cursor Tree) : Prop :=
  ∀ t after, r = .ok t after →
    ∃ after', r' = .ok t after' ∧ Twin after after' ∧ after.ahead.1.length ≤ most

namespace Kept

variable {most : Nat} {c c' : Cursor}

theorem refl (twin : Twin c c') (few : c.ahead.1.length ≤ most) (t : Tree) :
    Kept most (.ok t c) (.ok t c') := by
  rintro t after ⟨⟩
  exact ⟨c', rfl, twin, few⟩

theorem failed (e : Failure) (c : Cursor) (r' : EStateM.Result Failure Cursor Tree) :
    Kept most (.error e c) r' := by
  rintro t after ⟨⟩

theorem mono {less : Nat} {r r' : EStateM.Result Failure Cursor Tree} (kept : Kept less r r')
    (fewer : less ≤ most) : Kept most r r' := by
  intro t after ok
  obtain ⟨after', ok', twin, few⟩ := kept t after ok
  exact ⟨after', ok', twin, few.trans fewer⟩

theorem bind {first first' : Cursor.Action Tree} {next next' : Tree → Cursor.Action Tree}
    (kept : Kept most (first c) (first' c'))
    (later : ∀ t after after', Twin after after' → after.ahead.1.length ≤ most →
      Kept most (next t after) (next' t after')) :
    Kept most ((first >>= next) c) ((first' >>= next') c') := by
  rw [bind_apply, bind_apply]
  cases ran : first c with
  | error e after => exact failed e after _
  | ok t after =>
      obtain ⟨after', ran', twin, few⟩ := kept t after ran
      rw [ran']
      exact later t after after' twin few

/-- Moves on by a token on both sides. -/
theorem step {next next' : Cursor.Action Tree} (twin : Twin c c')
    (going : c.current.kind ≠ .endOfText)
    (later : ∀ after after', Twin after after' → after.ahead.1.length < c.ahead.1.length →
      Kept most (next after) (next' after')) :
    Kept most ((Cursor.advance >>= fun _ => next) c) ((Cursor.advance >>= fun _ => next') c') := by
  rw [bind_apply, bind_apply]
  cases moved : Cursor.advance c with
  | error e after => exact failed e after _
  | ok _ after =>
      obtain ⟨after', moved', twin', shorter⟩ := twin.advance going moved
      rw [moved']
      exact later after after' twin' shorter

theorem expect {next next' : Cursor.Action Tree} (twin : Twin c c') {kind : Token.Kind}
    (going : kind ≠ .endOfText)
    (later : ∀ after after', Twin after after' → after.ahead.1.length < c.ahead.1.length →
      Kept most (next after) (next' after')) :
    Kept most ((Cursor.expect kind >>= fun _ => next) c)
      ((Cursor.expect kind >>= fun _ => next') c') := by
  by_cases fits : c.current.kind = kind
  · rw [Rule.expect_fits fits, Rule.expect_fits (twin.kind ▸ fits)]
    exact step twin (fits ▸ going) later
  · rw [Rule.expect_rejects fits]
    exact failed _ _ _

end Kept

namespace Rule

/-- The chain goes on as long as the twin's does, if there are operators enough for both. -/
theorem chain_kept (level : Level) {operand : Cursor.Action Tree}
    (kept : ∀ c c', Twin c c' → Kept c.ahead.1.length (operand c) (operand c')) :
    ∀ (n n' : Nat) (t : Tree) (c c' : Cursor), Twin c c' → c.ahead.1.length ≤ n →
      c'.ahead.1.length ≤ n' → Kept c.ahead.1.length (chain level.isOperator operand n t c)
        (chain level.isOperator operand n' t c') := by
  have positive : ∀ c : Cursor, 0 < c.ahead.1.length := by
    intro c
    obtain ⟨later, head⟩ := c.ahead_head
    rw [head]
    exact Nat.succ_pos _
  intro n
  induction n with
  | zero =>
      intro n' t c c' twin enough
      have := positive c
      omega
  | succ n ih =>
      intro n' t c c' twin enough enough'
      have here := positive c'
      obtain ⟨n', rfl⟩ := Nat.exists_eq_succ_of_ne_zero (show n' ≠ 0 by omega)
      rw [chain_succ, chain_succ, ← twin.kind]
      by_cases operator : level.isOperator c.current.kind
      · rw [if_pos operator, if_pos operator]
        refine .step twin (Level.going operator) fun after after' twin' shorter => ?_
        refine .mono (.bind (kept after after' twin') fun right behind behind' twin'' few => ?_)
          shorter.le
        have same := twin''.length
        have same' := twin.length
        exact (ih n' _ behind behind' twin'' (by omega) (by omega)).mono few
      · rw [if_neg operator, if_neg operator]
        exact .refl twin (Nat.le_refl _) t

theorem operators_kept (level : Level) {operand : Cursor.Action Tree}
    (kept : ∀ c c', Twin c c' → Kept c.ahead.1.length (operand c) (operand c')) {c c' : Cursor}
    (twin : Twin c c') :
    Kept c.ahead.1.length (operators level.isOperator operand c)
      (operators level.isOperator operand c') := by
  refine .bind (kept c c' twin) fun first after after' twin' few => ?_
  exact (chain_kept level kept _ _ first after after' twin' twin'.fits twin'.fits').mono few

theorem assignment_kept {depth : Nat}
    (expression : ∀ c c', Twin c c' →
      Kept c.ahead.1.length (run depth .expression c) (run depth .expression c'))
    (additive : ∀ c c', Twin c c' →
      Kept c.ahead.1.length (run depth .additive c) (run depth .additive c'))
    {c c' : Cursor} (twin : Twin c c') :
    Kept c.ahead.1.length (run (depth + 1) .assignment c) (run (depth + 1) .assignment c') := by
  rw [run_assignment, run_assignment, ← twin.lexeme]
  split
  · rename_i name here
    have going : c.current.kind ≠ .endOfText := by
      rw [Token.kind, here]
      simp [Lexeme.kind]
    rw [bind_apply, bind_apply]
    cases looked : Cursor.peek c with
    | error e after => exact .failed e after _
    | ok token after =>
        obtain ⟨token', after', looked', seen, twin', same⟩ := twin.peek going looked
        rw [looked', ← same]
        dsimp only
        rw [Token.kind, Token.kind, ← seen]
        split
        · refine .expect twin' (by simp) fun second second' twin'' shorter => ?_
          refine .expect twin'' (by simp) fun third third' twin''' shorter' => ?_
          have value := expression third third' twin'''
          exact .mono (.bind value fun t last last' final few => .refl final few _) (by omega)
        · exact additive after after' twin'
  · exact additive c c' twin

theorem unary_kept {depth : Nat}
    (unary : ∀ c c', Twin c c' → Kept c.ahead.1.length (run depth .unary c) (run depth .unary c'))
    (atom : ∀ c c', Twin c c' → Kept c.ahead.1.length (run depth .atom c) (run depth .atom c'))
    {c c' : Cursor} (twin : Twin c c') :
    Kept c.ahead.1.length (run (depth + 1) .unary c) (run (depth + 1) .unary c') := by
  rw [run_unary, run_unary, ← twin.kind]
  by_cases sign : isSign c.current.kind
  · rw [if_pos sign, if_pos sign]
    refine .step twin (@Level.going .additive _ sign) fun after after' twin' shorter => ?_
    have operand := unary after after' twin'
    exact .mono (.bind operand fun t last last' final few => .refl final few _) shorter.le
  · rw [if_neg sign, if_neg sign]
    exact atom c c' twin

theorem atom_kept {depth : Nat}
    (expression : ∀ c c', Twin c c' →
      Kept c.ahead.1.length (run depth .expression c) (run depth .expression c'))
    {c c' : Cursor} (twin : Twin c c') :
    Kept c.ahead.1.length (run (depth + 1) .atom c) (run (depth + 1) .atom c') := by
  have single : c.current.kind ≠ .endOfText → ∀ t, Kept c.ahead.1.length
      ((Cursor.advance >>= fun _ => pure t) c) ((Cursor.advance >>= fun _ => pure t) c') :=
    fun going t => .step twin going fun after after' twin' shorter => .refl twin' shorter.le t
  rw [run_atom, run_atom, ← twin.lexeme]
  split
  · rename_i here
    exact single (by rw [Token.kind, here]; simp [Lexeme.kind]) _
  · rename_i here
    exact single (by rw [Token.kind, here]; simp [Lexeme.kind]) _
  · rename_i here
    refine .step twin (by rw [Token.kind, here]; simp [Lexeme.kind])
      fun after after' twin' shorter => ?_
    refine .mono (.bind (expression after after' twin') fun t inner inner' twin'' few => ?_)
      shorter.le
    exact .expect twin'' (by simp) fun last last' final shorter' => .refl final (by omega) t
  · exact .failed _ _ _

/-- What a rule makes of a cursor it makes of its twin. -/
theorem run_kept (depth : Nat) (rule : Rule) (c c' : Cursor) (twin : Twin c c') :
    Kept c.ahead.1.length (run depth rule c) (run depth rule c') := by
  induction depth generalizing rule c c' with
  | zero =>
      rw [run]
      exact .failed _ _ _
  | succ depth ih =>
      cases rule with
      | expression => exact ih .assignment c c' twin
      | assignment => exact assignment_kept (ih .expression) (ih .additive) twin
      | additive => exact operators_kept .additive (ih .multiplicative) twin
      | multiplicative => exact operators_kept .multiplicative (ih .unary) twin
      | unary => exact unary_kept (ih .unary) (ih .atom) twin
      | atom => exact atom_kept (ih .expression) twin

theorem whole_kept (depth : Nat) {c c' : Cursor} (twin : Twin c c') :
    Kept c.ahead.1.length (whole depth c) (whole depth c') := by
  rw [whole_eq, whole_eq]
  cases ran : run depth .expression c with
  | error e after => exact .failed e after _
  | ok t after =>
      obtain ⟨after', ran', final, few⟩ := run_kept depth .expression c c' twin t after ran
      rw [ran']
      dsimp only
      rw [← final.kind]
      split
      · exact .refl final few t
      · exact .failed _ _ _

end Rule

/-! ## Whole texts -/

/-- Texts with the same words start with twins, if either starts. -/
theorem Cursor.start_of_words {text text' : Text} (same : text.words = text'.words) {c : Cursor}
    (started : start text = .ok c) : ∃ c', start text' = .ok c' ∧ Twin c c' := by
  have tokens : lexemes (Scanner.tokens text).1 = lexemes (Scanner.tokens text').1 :=
    @Scanner.lexemes_of_words ⟨text, 0⟩ ⟨text', 0⟩ same
  obtain ⟨here, ahead⟩ := start_ok started
  cases started' : start text' with
  | error e =>
      obtain ⟨d, -, outcome⟩ := start_error started'
      obtain ⟨later, head⟩ := c.ahead_head
      rw [← ahead, head, outcome] at tokens
      cases tokens
  | ok c' =>
      obtain ⟨here', ahead'⟩ := start_ok started'
      refine ⟨c', rfl, by rw [ahead, ahead', tokens], ?_, ?_⟩
      · rw [Fits, ahead, here]
        exact Scanner.length_tokens_le text
      · rw [Fits, ahead', here']
        exact Scanner.length_tokens_le text'

namespace Tree

theorem parse_ok_iff {depth : Nat} {text : Text} {t : Tree} :
    parse depth text = .ok t ↔
      ∃ c after, Cursor.start text = .ok c ∧ Rule.whole depth c = .ok t after := by
  unfold parse
  cases Cursor.start text with
  | error e => simp
  | ok c => cases ran : Rule.whole depth c <;> simp [ran]

/-- A text with the same words is parsed to the same tree. -/
theorem parse_of_words {depth : Nat} {text text' : Text} {t : Tree}
    (same : text.words = text'.words) (parsed : parse depth text = .ok t) :
    parse depth text' = .ok t := by
  obtain ⟨c, after, started, ran⟩ := parse_ok_iff.mp parsed
  obtain ⟨c', started', twin⟩ := Cursor.start_of_words same started
  obtain ⟨after', ran', -⟩ := Rule.whole_kept depth twin t after ran
  exact parse_ok_iff.mpr ⟨c', after', started', ran'⟩

end Tree

/-! ## Parentheses of a text -/

/-- How many more opening than closing parentheses stand in a text. -/
def Text.excess (t : Text) : Int := t.count '(' - t.count ')'

theorem Text.excess_append (first second : Text) :
    (first ++ second).excess = first.excess + second.excess := by
  simp only [excess, List.count_append]
  omega

/-- Characters of a class without parentheses leave all as it is. -/
theorem Text.excess_class {inClass : Char → Bool} (opens : inClass '(' = false)
    (closes : inClass ')' = false) {t : Text} (all : ∀ c ∈ t, inClass c) : t.excess = 0 := by
  have absent : ∀ c, inClass c = false → t.count c = 0 := by
    intro c outside
    refine List.count_eq_zero_of_not_mem fun member => ?_
    rw [all c member] at outside
    cases outside
  rw [excess, absent _ opens, absent _ closes]
  rfl

theorem Symbol.excess_char {c : Char} {s : Symbol} (char : ofChar? c = some s) :
    Text.excess [c] = (Lexeme.symbol s).opens := by
  unfold ofChar? at char
  split at char
  all_goals cases char
  all_goals decide

namespace Scanner

/-- A run of characters without parentheses leaves all as it is. -/
theorem excess_run (text : Text) (start : Nat) {inClass : Char → Bool}
    (opens : inClass '(' = false) (closes : inClass ')' = false) :
    (rest ⟨text, start⟩).excess =
      (rest ⟨text, start + ((text.drop start).takeWhile inClass).length⟩).excess := by
  have whole : rest ⟨text, start⟩ =
      (text.drop start).takeWhile inClass ++ (text.drop start).dropWhile inClass :=
    List.takeWhile_append_dropWhile.symm
  have plain : Text.excess ((text.drop start).takeWhile inClass) = 0 :=
    Text.excess_class opens closes fun c member => List.mem_takeWhile_imp member
  rw [@rest_behind ⟨text, start⟩ _ _ whole, whole, Text.excess_append, plain, Int.zero_add]

/-- The characters of a token open what the token opens. -/
theorem read_excess {text : Text} {start : Nat} {token : Token} {after : Scanner}
    (found : read text start = .ok token after) :
    (rest ⟨text, start⟩).excess = token.lexeme.opens + after.rest.excess := by
  unfold read at found
  split at found
  · cases found
    exact (Int.zero_add _).symm
  · rename_i c more here
    split at found
    · dsimp only at found
      rw [← here] at found
      split at found
      · cases found
        exact (excess_run text start rfl rfl).trans (Int.zero_add _).symm
      · cases found
    · split at found
      · rw [← here] at found
        cases found
        exact (excess_run text start rfl rfl).trans (Int.zero_add _).symm
      · split at found
        · rename_i s char
          cases found
          have whole : rest ⟨text, start⟩ = [c] ++ more := here
          rw [← Symbol.excess_char char, whole, Text.excess_append]
          exact congrArg _ (congrArg Text.excess (@rest_behind ⟨text, start⟩ _ _ whole)).symm
        · cases found

/-- As long as no part of a text is refused, its tokens open what its characters open. -/
theorem nesting_ahead {s : Scanner} (complete : s.ahead.2 = none) :
    nesting (lexemes s.ahead.1) = s.rest.excess := by
  induction s using reading_induction with
  | step s ih =>
      have front : s.rest.excess = (rest ⟨s.text, s.tokenStart⟩).excess :=
        excess_run s.text s.pos rfl rfl
      cases found : s.next with
      | error d after =>
          rw [ahead_refused found] at complete
          cases complete
      | ok token after =>
          rw [front, read_excess found]
          rw [ahead_read found] at complete ⊢
          by_cases going : token.kind = .endOfText
          · have step := s.next_step
            rw [found] at step
            cases step with
            | stop last =>
                have empty : rest ⟨s.text, s.tokenStart⟩ = [] := List.drop_eq_nil_of_le last
                rw [empty]
                rfl
            | word valid => exact absurd going valid.kind_ne
          · rw [hold_going going] at complete ⊢
            rw [Token.lexemes_cons, nesting_cons, ih token after found going complete]

end Scanner

/-- A text that is parsed closes all parentheses that it opens. -/
theorem Tree.parse_closed {depth : Nat} {text : Text} {t : Tree}
    (parsed : parse depth text = .ok t) : Script.unclosed text = false := by
  have verdict := parse_verdict depth text
  rw [parsed] at verdict
  cases verdict with
  | @accepted found stop _ tokens last derived =>
      have ahead : Scanner.ahead ⟨text, 0⟩ = (found ++ [stop], none) := tokens
      have counted := Scanner.nesting_ahead (congrArg Prod.snd ahead)
      have ends : stop.lexeme.opens = 0 := by
        cases kind : stop.lexeme <;> simp_all [Token.kind, Lexeme.kind, Lexeme.opens]
      rw [ahead, Token.lexemes_append, nesting_append, derived.balanced.level, Token.lexemes_cons,
        nesting_cons, ends] at counted
      have level : (0 : Int) = text.count '(' - text.count ')' := counted
      rw [Script.unclosed, decide_eq_false_iff_not]
      omega

end Abacus
