/- # Lines that go on

Whether a line goes on is decided by counting its parentheses, and whether it is an expression by
the grammar.  What is parsed closes as many parentheses as it opens, and no part at its start closes
more than it opens (`Tree.parse_excess`); so a line that waits for the next one is never an
expression already.  `Script.continuing_unparsed` says this for the lines of a file and for those
that are typed into a shell.

The characters are counted along the tokens.  Every part at the start of a text opens what some
tokens at its start open (`Scanner.excess_part`), because a token of more than one character has no
parenthesis in it; and the tokens of an expression are balanced. -/
import Abacus.Proofs.Conversation
import Abacus.Proofs.Layout

namespace Abacus
set_option autoImplicit false

open Token (Lexeme lexemes)

/-! ## Parts at the start of a text -/

/-- Characters of a class without parentheses can be left out at the start. -/
theorem Text.excess_part_class {inClass : Char → Bool} (opens : inClass '(' = false)
    (closes : inClass ')' = false) {first second part : Text} (all : ∀ c ∈ first, inClass c)
    (within : part <+: first ++ second) :
    ∃ later : Text, later <+: second ∧ part.excess = later.excess := by
  rcases List.prefix_or_prefix_of_prefix within (List.prefix_append first second) with
    inside | ⟨later, rfl⟩
  · refine ⟨[], List.nil_prefix, ?_⟩
    exact excess_class opens closes fun c member => all c (inside.subset member)
  · refine ⟨later, (List.prefix_append_right_inj first).mp within, ?_⟩
    rw [excess_append, excess_class opens closes all, Int.zero_add]

namespace Scanner

variable {text : Text} {start : Nat} {part : Text}

/-- A run of characters without parentheses can be left out at the start. -/
theorem excess_part_run (inClass : Char → Bool) (opens : inClass '(' = false)
    (closes : inClass ')' = false) (within : part <+: rest ⟨text, start⟩) :
    ∃ later : Text,
      later <+: rest ⟨text, start + ((text.drop start).takeWhile inClass).length⟩ ∧
      part.excess = later.excess := by
  have whole : rest ⟨text, start⟩ =
      (text.drop start).takeWhile inClass ++ (text.drop start).dropWhile inClass :=
    List.takeWhile_append_dropWhile.symm
  rw [@rest_behind ⟨text, start⟩ _ _ whole]
  rw [whole] at within
  exact Text.excess_part_class opens closes (fun c member => List.mem_takeWhile_imp member) within

/-- A part that starts where a token does opens nothing, or it holds all that the token opens. -/
theorem read_excess_part {token : Token} {after : Scanner}
    (found : read text start = .ok token after) (within : part <+: rest ⟨text, start⟩) :
    part.excess = 0 ∨
      ∃ later : Text, later <+: after.rest ∧
        part.excess = token.lexeme.opens + later.excess := by
  unfold read at found
  split at found
  · rename_i ended
    have empty : part = [] := List.prefix_nil.mp (ended ▸ within)
    rw [empty]
    exact .inl rfl
  · rename_i c more here
    split at found
    · dsimp only at found
      rw [← here] at found
      split at found
      · cases found
        obtain ⟨later, within, same⟩ := excess_part_run Char.isDigit rfl rfl within
        exact .inr ⟨later, within, same.trans (Int.zero_add _).symm⟩
      · cases found
    · split at found
      · rw [← here] at found
        cases found
        obtain ⟨later, within, same⟩ := excess_part_run Char.isAlpha rfl rfl within
        exact .inr ⟨later, within, same.trans (Int.zero_add _).symm⟩
      · split at found
        · rename_i s char
          cases found
          have whole : rest ⟨text, start⟩ = [c] ++ more := here
          have behind : rest ⟨text, start + 1⟩ = more := @rest_behind ⟨text, start⟩ [c] more whole
          rw [whole] at within
          rw [behind]
          rcases List.prefix_cons_iff.mp within with rfl | ⟨later, rfl, inside⟩
          · exact .inl rfl
          · refine .inr ⟨later, inside, ?_⟩
            rw [← Symbol.excess_char char, ← Text.excess_append, List.singleton_append]
        · cases found

/-- As long as no part of a text is refused, every part at its start opens what some tokens at its
start open. -/
theorem excess_part {s : Scanner} (complete : s.ahead.2 = none) (within : part <+: s.rest) :
    ∃ u, u <+: lexemes s.ahead.1 ∧ nesting u = part.excess := by
  induction s using reading_induction generalizing part with
  | step s ih =>
      -- the blanks in front of the token make no difference
      obtain ⟨inner, within, same⟩ := excess_part_run Text.isBlank rfl rfl within
      rw [same]
      cases found : s.next with
      | error d after =>
          rw [ahead_refused found] at complete
          cases complete
      | ok token after =>
          rcases read_excess_part found within with empty | ⟨later, behind, more⟩
          · exact ⟨[], List.nil_prefix, empty.symm⟩
          · rw [ahead_read found] at complete ⊢
            by_cases going : token.kind = .endOfText
            · have step := s.next_step
              rw [found] at step
              cases step with
              | stop last =>
                  have empty : rest ⟨s.text, s.tokenStart⟩ = [] := List.drop_eq_nil_of_le last
                  rw [empty, List.prefix_nil] at behind
                  refine ⟨[], List.nil_prefix, ?_⟩
                  rw [more, behind]
                  rfl
              | word valid => exact absurd going valid.kind_ne
            · rw [hold_going going] at complete ⊢
              obtain ⟨u, front, opens⟩ := ih token after found going complete behind
              refine ⟨token.lexeme :: u, ?_, ?_⟩
              · rw [Token.lexemes_cons]
                exact List.cons_prefix_cons.mpr ⟨rfl, front⟩
              · rw [nesting_cons, opens, more]

end Scanner

/-- A text that is parsed closes what it opens, and no part at its start closes more. -/
theorem Tree.parse_excess {depth : Nat} {text : Text} {t : Tree}
    (parsed : parse depth text = .ok t) :
    text.excess = 0 ∧ ∀ part : Text, part <+: text → 0 ≤ part.excess := by
  obtain ⟨found, stop, tokens, last, derived⟩ := derives_of_parse parsed
  have ahead : Scanner.ahead ⟨text, 0⟩ = (found ++ [stop], none) := tokens
  have complete : (Scanner.ahead ⟨text, 0⟩).2 = none := congrArg Prod.snd ahead
  have level : nesting (lexemes (found ++ [stop])) = 0 := by
    have ends : stop.lexeme.opens = 0 := by
      cases kind : stop.lexeme <;> simp_all [Token.kind, Lexeme.kind, Lexeme.opens]
    simp [derived.balanced.level, ends]
  constructor
  · have counted := Scanner.nesting_ahead complete
    rw [ahead, level] at counted
    exact counted.symm
  · intro part within
    obtain ⟨u, front, opens⟩ := Scanner.excess_part complete within
    rw [← opens]
    -- the tokens end inside the expression, or are all of it with the end of the text
    rw [ahead, Token.lexemes_append] at front
    rcases List.prefix_concat_iff.mp front with all | inside
    · rw [all]
      rw [Token.lexemes_append] at level
      exact Int.le_of_eq level.symm
    · exact derived.balanced.above u inside

/-- What leaves parentheses open is not parsed. -/
theorem Tree.unparsed_of_unclosed {text : Text} (more : Script.unclosed text) (depth : Nat) :
    ∃ e, parse depth text = .error e := by
  cases parsed : parse depth text with
  | error e => exact ⟨e, rfl⟩
  | ok t =>
      rw [parse_closed parsed] at more
      cases more

/-! ## Lines of a file and of a shell -/

/-- A file goes on only with a logical line that has parentheses left open. -/
theorem Script.unclosed_of_continuing {script : Script} {number : Int} {line : Text}
    (goes : (script.step number line).2.continuing) : unclosed (script.step number line).1 := by
  revert goes
  unfold step
  dsimp only
  split
  · exact id
  · split
    · intro goes
      cases goes
    · exact id

/-- Where a line of an expression leaves what waits, and the prompt. -/
theorem Shell.left_expression (cfg : Settings) (text : Text) (s : Shell) :
    (left (expression cfg text s)).pending =
        (if Script.unclosed (s.logical text) then s.logical text else []) ∧
      (left (expression cfg text s)).prompt =
        (if Script.unclosed (s.logical text) then ". " else "> ").toList := by
  rw [expression_eq]
  split
  · exact ⟨rfl, rfl⟩
  · dsimp only
    split
    · exact ⟨rfl, rfl⟩
    · cases evaluateLine cfg (s.logical text) (s.lineNumber + 1 : Nat) s.desk <;> exact ⟨rfl, rfl⟩

/-- A line that asks for an expression leaves what this leaves. -/
theorem Shell.left_answer {line text : Text} (asked : request line = .expression text)
    (cfg : Settings) (s : Shell) : left (answer cfg line s) = left (expression cfg text s) := by
  rw [answer, asked]
  show left ((expression cfg text >>= fun _ => pure Reply.nothing) s) = _
  rw [bind_apply]
  cases expression cfg text s <;> rfl

/-- What is parsed has as many closing as opening parentheses, and no part at its start has more
closing ones.  So no logical line that a file goes on with is parsed, and none that a shell lets
wait. -/
theorem Script.continuing_unparsed (depth : Nat) :
    (∀ text t, Tree.parse depth text = .ok t →
      text.count '(' = text.count ')' ∧
      ∀ part, part <+: text → part.count ')' ≤ part.count '(') ∧
    (∀ script number line, (step script number line).2.continuing →
      ∃ e, Tree.parse depth (step script number line).1 = .error e) ∧
    ∀ cfg s line text, Shell.request line = .expression text →
      (Shell.left (Shell.answer cfg line s)).pending ≠ [] →
      ∃ e, Tree.parse depth (Shell.left (Shell.answer cfg line s)).pending = .error e := by
  refine ⟨fun text t parsed => ?_, fun script number line goes => ?_, ?_⟩
  · obtain ⟨level, above⟩ := Tree.parse_excess parsed
    rw [Text.excess] at level
    refine ⟨by omega, fun part within => ?_⟩
    have := above part within
    rw [Text.excess] at this
    omega
  · exact Tree.unparsed_of_unclosed (unclosed_of_continuing goes) depth
  · intro cfg s line text asked waits
    rw [Shell.left_answer asked, (Shell.left_expression cfg text s).1] at waits ⊢
    by_cases more : unclosed (s.logical text)
    · rw [if_pos more]
      exact Tree.unparsed_of_unclosed more depth
    · rw [if_neg more] at waits
      exact absurd rfl waits

/-- A sum in parentheses is balanced; without the last of them it waits in a file and in a shell,
and is not parsed. -/
theorem Script.continuing_unparsed_sum :
    ("((1) + 2)".toList.count '(' = "((1) + 2)".toList.count ')' ∧
      ∀ part, part <+: "((1) + 2)".toList → part.count ')' ≤ part.count '(') ∧
    (∃ e, Tree.parse 20 (step ⟨[⟨"((1) +".toList, 1⟩], true⟩ 2 "2".toList).1 = .error e) ∧
    ∃ e, Tree.parse 20 (Shell.left (Shell.answer {} "2 # more".toList
      { Shell.fresh id with pending := "((1) +".toList })).pending = .error e := by
  obtain ⟨balanced, file, shell⟩ := continuing_unparsed 20
  have parsed : Tree.parse 20 "((1) + 2)".toList =
      .ok (.binary (.symbol .plus) (.literal (.int 1)) (.literal (.int 2))) := by cbv
  exact ⟨balanced _ _ parsed, file _ _ _ (by decide +kernel),
    shell _ _ _ "2 # more".toList (by decide +kernel) (by decide +kernel)⟩

end Abacus
