/- # The tokens ahead

A scanner reads tokens on demand, and a cursor holds one or two of them.  This module says what is
still ahead of either: `Scanner.ahead` and `Cursor.ahead` are the tokens up to the end of the text,
or up to the first refusal together with this refusal.

Every step of a scanner is one of three (`Scanner.Step`, `Scanner.next_step`): it stops at the end,
it reads a word that takes up characters, or it refuses.  From this follow the induction over what
a scanner reads (`Scanner.reading_induction`) and the shape of what is ahead.  The operations of a
cursor are then told by what they take from the tokens ahead (`Cursor.advance_cases`,
`Cursor.peek_cases`): a parser never sees more of a text than this. -/
import Mathlib
import Abacus.Cursor

namespace Abacus
set_option autoImplicit false

namespace Token.Lexeme

/-- The lexemes that stand in a text: integers of not too many digits, names made of letters, and
symbols. -/
def Valid : Lexeme → Prop
  | integer value => value < 10 ^ maxDigits
  | identifier name => name ≠ [] ∧ ∀ c ∈ name, c.isAlpha
  | symbol _ => True
  | endOfText => False

theorem Valid.kind_ne {l : Lexeme} (valid : l.Valid) : l.kind ≠ .endOfText := by
  cases l <;> simp_all [Valid, kind]

theorem eq_of_kind {l : Lexeme} {s : Symbol} (same : l.kind = .symbol s) : l = .symbol s := by
  cases l <;> simp_all [kind]

end Token.Lexeme

namespace Token

/-- Tokens without their places. -/
def lexemes (tokens : List Token) : List Lexeme := tokens.map Token.lexeme

@[simp] theorem lexemes_nil : lexemes [] = [] := rfl

@[simp] theorem lexemes_cons (token : Token) (tokens : List Token) :
    lexemes (token :: tokens) = token.lexeme :: lexemes tokens := rfl

@[simp] theorem lexemes_append (first second : List Token) :
    lexemes (first ++ second) = lexemes first ++ lexemes second := List.map_append

@[simp] theorem length_lexemes (tokens : List Token) :
    (lexemes tokens).length = tokens.length := List.length_map _

end Token

namespace Scanner

/-! ## One step -/

/-- What reading at a place where no blank stands can come to. -/
inductive Step (text : Text) (start : Nat) : EStateM.Result Diagnostic Scanner Token → Prop
  | stop (last : text.length ≤ start) :
      Step text start (.ok ⟨.endOfText, start, start⟩ ⟨text, start⟩)
  | word {lexeme : Token.Lexeme} {stop : Nat} (valid : lexeme.Valid) (longer : start < stop)
      (inside : stop ≤ text.length) :
      Step text start (.ok ⟨lexeme, start, stop⟩ ⟨text, stop⟩)
  | refuse {cause : Diagnostic.LexicalCause} {stop pos : Nat} (inside : start < text.length) :
      Step text start (.error (.lexical cause text start stop) ⟨text, pos⟩)

theorem ofDigitChars_lt (run : Text) (digits : ∀ c ∈ run, c.isDigit) (before : Nat) :
    Nat.ofDigitChars 10 run before < 10 ^ run.length * (before + 1) := by
  induction run generalizing before with
  | nil => simp
  | cons c run ih =>
      have digit : c.toNat - '0'.toNat < 10 := by
        have isDigit := digits c (by simp)
        simp only [Char.isDigit, Bool.and_eq_true, decide_eq_true_eq, ge_iff_le,
          UInt32.le_iff_toNat_le] at isDigit
        have upper : c.toNat ≤ 57 := isDigit.2
        have zero : '0'.toNat = 48 := rfl
        omega
      have later := ih (fun x member => digits x (by simp [member]))
        (10 * before + (c.toNat - '0'.toNat))
      rw [Nat.ofDigitChars_cons]
      calc Nat.ofDigitChars 10 run (10 * before + (c.toNat - '0'.toNat))
          < 10 ^ run.length * (10 * before + (c.toNat - '0'.toNat) + 1) := later
        _ ≤ 10 ^ run.length * (10 * (before + 1)) := Nat.mul_le_mul_left _ (by omega)
        _ = 10 ^ (c :: run).length * (before + 1) := by
            rw [List.length_cons, Nat.pow_succ, Nat.mul_assoc]

/-- The run that starts with a character of its class is not empty and lies inside the text. -/
theorem run_length {text : Text} {start : Nat} {c : Char} {rest : Text} {inClass : Char → Bool}
    (at_start : text.drop start = c :: rest) (first : inClass c) :
    0 < ((c :: rest).takeWhile inClass).length ∧
      start + ((c :: rest).takeWhile inClass).length ≤ text.length := by
  have short : ((c :: rest).takeWhile inClass).length ≤ (c :: rest).length :=
    (List.takeWhile_sublist inClass).length_le
  have size : (c :: rest).length = text.length - start := by rw [← at_start, List.length_drop]
  have nonempty : 0 < (c :: rest).length := by simp
  refine ⟨by simp [first], by omega⟩

theorem read_step (text : Text) (start : Nat) : Step text start (read text start) := by
  unfold read
  split
  · rename_i at_end
    exact .stop (by simpa using at_end)
  · rename_i c rest at_start
    have inside : start < text.length := by
      have size := congrArg List.length at_start
      rw [List.length_drop, List.length_cons] at size
      omega
    split
    · rename_i digit
      obtain ⟨longer, fits⟩ := run_length at_start digit
      dsimp only
      split
      · rename_i few
        refine .word ?_ (by omega) fits
        have value := ofDigitChars_lt ((c :: rest).takeWhile Char.isDigit)
          (fun x member => List.mem_takeWhile_imp member) 0
        rw [Nat.zero_add, Nat.mul_one] at value
        exact Nat.lt_of_lt_of_le value (Nat.pow_le_pow_right (by decide) few)
      · exact .refuse inside
    · split
      · rename_i letter
        obtain ⟨longer, fits⟩ := run_length at_start letter
        refine .word ⟨List.ne_nil_of_length_pos longer, ?_⟩ (by omega) fits
        exact fun x member => List.mem_takeWhile_imp member
      · split
        · exact .word trivial (by omega) (by omega)
        · exact .refuse inside

theorem pos_le_tokenStart (s : Scanner) : s.pos ≤ s.tokenStart := Nat.le_add_right _ _

theorem next_step (s : Scanner) : Step s.text s.tokenStart s.next := read_step s.text s.tokenStart

/-- Reading keeps the text and never moves back. -/
theorem next_ok {s after : Scanner} {token : Token} (read : s.next = .ok token after) :
    after.text = s.text ∧ s.pos ≤ token.start ∧ token.stop = after.pos := by
  have step := s.next_step
  have later := s.pos_le_tokenStart
  rw [read] at step
  cases step with
  | stop last => exact ⟨rfl, later, rfl⟩
  | word valid longer inside => exact ⟨rfl, later, rfl⟩

/-- A token that is not the end is a valid lexeme at characters of the text. -/
theorem next_word {s after : Scanner} {token : Token} (read : s.next = .ok token after)
    (going : token.kind ≠ .endOfText) :
    token.lexeme.Valid ∧ token.start < token.stop ∧ token.stop ≤ s.text.length := by
  have step := s.next_step
  rw [read] at step
  cases step with
  | stop last => exact absurd rfl going
  | word valid longer inside => exact ⟨valid, longer, inside⟩

theorem next_shorter {s after : Scanner} {token : Token} (read : s.next = .ok token after)
    (going : token.kind ≠ .endOfText) : after.rest.length < s.rest.length := by
  obtain ⟨text, forward, stop⟩ := next_ok read
  obtain ⟨-, longer, inside⟩ := next_word read going
  simp only [rest, List.length_drop, text]
  omega

theorem next_refused {s after : Scanner} {d : Diagnostic} (read : s.next = .error d after) :
    ∃ start stop, d.Marks .lexical s.text start stop := by
  have step := s.next_step
  rw [read] at step
  cases step
  exact ⟨_, _, Diagnostic.lexical_marks _ _ _ _⟩

/-- What holds of a scanner as soon as it holds behind the word that it reads next holds of every
scanner. -/
theorem reading_induction {motive : Scanner → Prop}
    (step : ∀ s, (∀ token after, s.next = .ok token after → token.kind ≠ .endOfText →
      motive after) → motive s) (s : Scanner) : motive s := by
  induction size : s.rest.length using Nat.strongRecOn generalizing s with
  | ind n ih =>
      refine step s fun token after read going => ih _ ?_ after rfl
      rw [← size]
      exact next_shorter read going

/-! ## The tokens ahead of a scanner -/

/-- A token in front of what is read later.  Nothing is read behind the end of the text. -/
def hold (token : Token) (later : List Token × Option Diagnostic) :
    List Token × Option Diagnostic :=
  if token.kind = .endOfText then ([token], none) else (token :: later.1, later.2)

theorem hold_fst (token : Token) (later : List Token × Option Diagnostic) :
    ∃ more, (hold token later).1 = token :: more := by
  unfold hold
  split
  · exact ⟨[], rfl⟩
  · exact ⟨later.1, rfl⟩

theorem hold_going {token : Token} (going : token.kind ≠ .endOfText)
    (later : List Token × Option Diagnostic) :
    hold token later = (token :: later.1, later.2) := if_neg going

/-- The tokens ahead of a scanner up to the end of the text, or those before the first refusal
together with this refusal. -/
def ahead (s : Scanner) : List Token × Option Diagnostic := collect (s.rest.length + 1) s

theorem collect_succ (n : Nat) (s : Scanner) :
    collect (n + 1) s = match s.next with
      | .error d _ => ([], some d)
      | .ok token after => hold token (collect n after) := rfl

/-- An allowance of more tokens than there are characters makes no difference. -/
theorem collect_eq (s : Scanner) :
    ∀ n m : Nat, s.rest.length < n → s.rest.length < m → collect n s = collect m s := by
  induction s using reading_induction with
  | step s ih =>
      intro n m hn hm
      obtain ⟨n, rfl⟩ := Nat.exists_eq_succ_of_ne_zero (Nat.ne_of_gt (Nat.zero_lt_of_lt hn))
      obtain ⟨m, rfl⟩ := Nat.exists_eq_succ_of_ne_zero (Nat.ne_of_gt (Nat.zero_lt_of_lt hm))
      rw [collect_succ, collect_succ]
      cases read : s.next with
      | error d after => rfl
      | ok token after =>
          by_cases going : token.kind = .endOfText
          · simp [hold, going]
          · have shorter := next_shorter read going
            have same := ih token after read going n m (by omega) (by omega)
            simp only [same]

/-- What is ahead of a scanner: nothing behind a refusal, else the next token in front of what is
ahead of the scanner behind it. -/
theorem ahead_eq (s : Scanner) :
    s.ahead = match s.next with
      | .error d _ => ([], some d)
      | .ok token after => hold token after.ahead := by
  rw [ahead, collect_succ]
  cases read : s.next with
  | error d after => rfl
  | ok token after =>
      by_cases going : token.kind = .endOfText
      · simp [hold, going]
      · have shorter := next_shorter read going
        simp only [ahead, collect_eq after s.rest.length (after.rest.length + 1) shorter (by omega)]

theorem ahead_refused {s after : Scanner} {d : Diagnostic} (read : s.next = .error d after) :
    s.ahead = ([], some d) := by
  rw [ahead_eq, read]

theorem ahead_read {s after : Scanner} {token : Token} (read : s.next = .ok token after) :
    s.ahead = hold token after.ahead := by
  rw [ahead_eq, read]

theorem tokens_eq_ahead (text : Text) : tokens text = ahead ⟨text, 0⟩ := rfl

/-- What is ahead ends with the end of the text, or else with a refusal.  All other tokens are valid
lexemes. -/
theorem ahead_shape (s : Scanner) :
    (∃ found stop, s.ahead = (found ++ [stop], none) ∧ stop.kind = .endOfText ∧
      ∀ token ∈ found, token.lexeme.Valid) ∨
    (∃ found d, s.ahead = (found, some d) ∧ (∃ start stop, d.Marks .lexical s.text start stop) ∧
      ∀ token ∈ found, token.lexeme.Valid) := by
  induction s using reading_induction with
  | step s ih =>
      cases read : s.next with
      | error d after => exact .inr ⟨[], d, ahead_refused read, next_refused read, by simp⟩
      | ok token after =>
          rw [ahead_read read]
          by_cases going : token.kind = .endOfText
          · exact .inl ⟨[], token, by simp [hold, going], going, by simp⟩
          · have valid := (next_word read going).1
            rw [hold_going going]
            rcases ih token after read going with
              ⟨found, stop, here, ends, all⟩ | ⟨found, d, here, lexical, all⟩
            · refine .inl ⟨token :: found, stop, by rw [here]; rfl, ends, ?_⟩
              simpa [valid] using all
            · rw [(next_ok read).1] at lexical
              refine .inr ⟨token :: found, d, by rw [here], lexical, ?_⟩
              simpa [valid] using all

/-- Tokens come in the order of their places. -/
theorem ahead_sorted (s : Scanner) :
    (∀ token ∈ s.ahead.1, s.pos ≤ token.start) ∧
      s.ahead.1.Pairwise fun first second => first.start < second.start := by
  induction s using reading_induction with
  | step s ih =>
      cases read : s.next with
      | error d after => simp [ahead_refused read]
      | ok token after =>
          obtain ⟨-, forward, stop⟩ := next_ok read
          rw [ahead_read read]
          by_cases going : token.kind = .endOfText
          · simpa [hold, going] using forward
          · obtain ⟨-, longer, -⟩ := next_word read going
            obtain ⟨later, sorted⟩ := ih token after read going
            rw [hold_going going]
            refine ⟨?_, List.pairwise_cons.mpr ⟨fun other member => ?_, sorted⟩⟩
            · intro other member
              rcases List.mem_cons.mp member with rfl | member
              · exact forward
              · have := later other member
                omega
            · have := later other member
              omega

theorem length_ahead_le (s : Scanner) : s.ahead.1.length ≤ s.rest.length + 1 := by
  induction s using reading_induction with
  | step s ih =>
      cases read : s.next with
      | error d after => simp [ahead_refused read]
      | ok token after =>
          rw [ahead_read read]
          by_cases going : token.kind = .endOfText
          · simp [hold, going]
          · have shorter := next_shorter read going
            have fewer := ih token after read going
            simp only [hold_going going, List.length_cons]
            omega

end Scanner

namespace Cursor

/-! ## The tokens ahead of a cursor -/

/-- The tokens ahead of a cursor, the current one first. -/
def ahead (c : Cursor) : List Token × Option Diagnostic :=
  Scanner.hold c.current
    (match c.peeked with
    | some token => Scanner.hold token c.scanner.ahead
    | none => c.scanner.ahead)

theorem ahead_head (c : Cursor) : ∃ later, c.ahead.1 = c.current :: later :=
  Scanner.hold_fst c.current _

theorem ahead_last {c : Cursor} (last : c.current.kind = .endOfText) :
    c.ahead = ([c.current], none) := if_pos last

theorem start_ok {text : Text} {c : Cursor} (started : start text = .ok c) :
    c.scanner.text = text ∧ c.ahead = Scanner.tokens text := by
  unfold start at started
  split at started
  · rename_i token scanner read
    cases started
    exact ⟨(Scanner.next_ok read).1, (Scanner.ahead_read read).symm⟩
  · cases started

theorem start_error {text : Text} {e : Failure} (refused : start text = .error e) :
    ∃ d, e = .diagnosed d ∧ Scanner.tokens text = ([], some d) := by
  unfold start at refused
  split at refused
  · cases refused
  · rename_i d scanner read
    cases refused
    exact ⟨d, rfl, Scanner.ahead_refused read⟩

/-- Moving on takes the current token from the tokens ahead, unless what comes behind it is
refused. -/
theorem advance_cases (c : Cursor) (going : c.current.kind ≠ .endOfText) :
    (∃ after, advance c = .ok () after ∧ after.scanner.text = c.scanner.text ∧
      c.ahead = (c.current :: after.ahead.1, after.ahead.2)) ∨
    (∃ d after, advance c = .error (.diagnosed d) after ∧ c.ahead = ([c.current], some d)) := by
  unfold advance
  cases looked : c.peeked with
  | some token =>
      refine .inl ⟨_, rfl, rfl, ?_⟩
      simp only [ahead, looked, Scanner.hold_going going]
  | none =>
      cases read : c.scanner.next with
      | ok token scanner =>
          refine .inl ⟨_, rfl, (Scanner.next_ok read).1, ?_⟩
          simp only [ahead, looked, Scanner.hold_going going, Scanner.ahead_read read]
      | error d scanner =>
          refine .inr ⟨d, _, rfl, ?_⟩
          simp only [ahead, looked, Scanner.hold_going going, Scanner.ahead_refused read]

/-- Looking ahead shows the second token and leaves the tokens ahead as they are, unless the second
one is refused. -/
theorem peek_cases (c : Cursor) (going : c.current.kind ≠ .endOfText) :
    (∃ token later after, peek c = .ok token after ∧ after.current = c.current ∧
      after.scanner.text = c.scanner.text ∧ after.ahead = c.ahead ∧
      c.ahead.1 = c.current :: token :: later) ∨
    (∃ d after, peek c = .error (.diagnosed d) after ∧ c.ahead = ([c.current], some d)) := by
  unfold peek
  cases looked : c.peeked with
  | some token =>
      obtain ⟨later, more⟩ := Scanner.hold_fst token c.scanner.ahead
      refine .inl ⟨token, later, c, rfl, rfl, rfl, rfl, ?_⟩
      simp only [ahead, looked, Scanner.hold_going going, more]
  | none =>
      cases read : c.scanner.next with
      | ok token scanner =>
          obtain ⟨later, more⟩ := Scanner.hold_fst token scanner.ahead
          refine .inl ⟨token, later, _, rfl, rfl, (Scanner.next_ok read).1, ?_, ?_⟩
          · simp only [ahead, looked, Scanner.ahead_read read]
          · simp only [ahead, looked, Scanner.hold_going going, Scanner.ahead_read read, more]
      | error d scanner =>
          refine .inr ⟨d, _, rfl, ?_⟩
          simp only [ahead, looked, Scanner.hold_going going, Scanner.ahead_refused read]

theorem expect_eq {c : Cursor} {kind : Token.Kind} (fits : c.current.kind = kind) :
    expect kind c = match advance c with
      | .ok _ after => .ok c.current after
      | .error e after => .error e after := if_pos fits

end Cursor
end Abacus
