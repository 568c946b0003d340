/- # Spelling

How lexemes are spelled, and that a scanner reads a spelling back.  `Spells text u` says that the
text spells the lexemes `u`: blanks may stand anywhere between them, numbers have no needless zeros,
and no character right behind a number or a name would carry it on (`Lexeme.carries`).

`Spells.tokens`: the tokens of a text that spells some lexemes are these, in front of the end. -/
import Abacus.Proofs.TokenStream

namespace Abacus
set_option autoImplicit false

open Token (Lexeme lexemes)

namespace Token.Lexeme

def spelled : Lexeme → Text
  | integer value => Text.ofNat value
  | identifier name => name
  | symbol s => [s.char]
  | endOfText => []

/-- Whether a character right behind a lexeme would become a part of it. -/
def carries : Lexeme → Char → Bool
  | integer _ => Char.isDigit
  | identifier _ => Char.isAlpha
  | _ => fun _ => false

end Token.Lexeme

/-- The text spells the lexemes. -/
inductive Spells : Text → List Lexeme → Prop
  | done : Spells [] []
  | blank {c : Char} {later : Text} {u : List Lexeme} (blank : Text.isBlank c)
      (rest : Spells later u) : Spells (c :: later) u
  | word {l : Lexeme} {later : Text} {u : List Lexeme} (valid : l.Valid)
      (apart : ∀ c more, later = c :: more → l.carries c = false) (rest : Spells later u) :
      Spells (l.spelled ++ later) (l :: u)

/-! ## Characters -/

theorem Symbol.ofChar?_char (s : Symbol) : ofChar? s.char = some s := by
  cases s <;> rfl

theorem Symbol.char_plain (s : Symbol) :
    Text.isBlank s.char = false ∧ s.char.isDigit = false ∧ s.char.isAlpha = false := by
  cases s <;> decide

theorem Text.not_isBlank_of_isDigit {c : Char} (digit : c.isDigit) : Text.isBlank c = false := by
  simp only [Char.isDigit, Bool.and_eq_true, decide_eq_true_eq, ge_iff_le,
    UInt32.le_iff_toNat_le] at digit
  have lower : 48 ≤ c.toNat := digit.1
  have upper : c.toNat ≤ 57 := digit.2
  simp [Text.isBlank]
  omega

theorem Text.not_isBlank_of_isAlpha {c : Char} (letter : c.isAlpha) : Text.isBlank c = false := by
  simp only [Char.isAlpha, Char.isUpper, Char.isLower, Bool.or_eq_true, Bool.and_eq_true,
    decide_eq_true_eq, ge_iff_le, UInt32.le_iff_toNat_le] at letter
  have bounds : (65 ≤ c.toNat ∧ c.toNat ≤ 90) ∨ (97 ≤ c.toNat ∧ c.toNat ≤ 122) := letter
  simp [Text.isBlank]
  omega

theorem Text.not_isDigit_of_isAlpha {c : Char} (letter : c.isAlpha) : c.isDigit = false := by
  simp only [Char.isAlpha, Char.isUpper, Char.isLower, Bool.or_eq_true, Bool.and_eq_true,
    decide_eq_true_eq, ge_iff_le, UInt32.le_iff_toNat_le] at letter
  have bounds : (65 ≤ c.toNat ∧ c.toNat ≤ 90) ∨ (97 ≤ c.toNat ∧ c.toNat ≤ 122) := letter
  simp only [Char.isDigit, Bool.and_eq_false_iff, decide_eq_false_iff_not, ge_iff_le,
    UInt32.le_iff_toNat_le]
  right
  show ¬ c.toNat ≤ 57
  omega

theorem Text.not_isAlpha_of_isDigit {c : Char} (digit : c.isDigit) : c.isAlpha = false := by
  by_contra letter
  rw [Bool.not_eq_false] at letter
  rw [Text.not_isDigit_of_isAlpha letter] at digit
  cases digit

theorem Text.ofNat_digits (n : Nat) : ∀ c ∈ Text.ofNat n, c.isDigit :=
  fun _ member => Nat.isDigit_of_mem_toDigits (by decide) (by decide) member

/-- A valid lexeme is spelled with a first character, which is no blank. -/
theorem Token.Lexeme.Valid.spelled_head {l : Lexeme} (valid : l.Valid) :
    ∃ c more, l.spelled = c :: more ∧ Text.isBlank c = false := by
  cases l with
  | integer value =>
      obtain ⟨c, more, same⟩ := List.exists_cons_of_ne_nil (@Nat.toDigits_ne_nil value 10)
      refine ⟨c, more, same, Text.not_isBlank_of_isDigit (Text.ofNat_digits value c ?_)⟩
      rw [Text.ofNat, same]
      exact List.mem_cons_self
  | identifier name =>
      obtain ⟨c, more, rfl⟩ := List.exists_cons_of_ne_nil valid.1
      exact ⟨c, more, rfl, Text.not_isBlank_of_isAlpha (valid.2 c List.mem_cons_self)⟩
  | symbol s => exact ⟨s.char, [], rfl, s.char_plain.1⟩
  | endOfText => cases valid

/-- A run ends where its class ends. -/
theorem Text.takeWhile_run {inClass : Char → Bool} {run later : Text} (all : ∀ c ∈ run, inClass c)
    (apart : ∀ c more, later = c :: more → inClass c = false) :
    (run ++ later).takeWhile inClass = run := by
  rw [List.takeWhile_append_of_pos all]
  cases later with
  | nil => simp
  | cons c more => simp [apart c more rfl]

/-! ## Reading what is spelled -/

namespace Scanner

theorem read_spelled {text later : Text} {start : Nat} {l : Lexeme} (valid : l.Valid)
    (apart : ∀ c more, later = c :: more → l.carries c = false)
    (here : text.drop start = l.spelled ++ later) :
    read text start =
      .ok ⟨l, start, start + l.spelled.length⟩ ⟨text, start + l.spelled.length⟩ := by
  obtain ⟨c, more, head, -⟩ := valid.spelled_head
  have run : ∀ inClass : Char → Bool, (∀ x ∈ l.spelled, inClass x) →
      (∀ x rest, later = x :: rest → inClass x = false) →
      (c :: (more ++ later)).takeWhile inClass = l.spelled := by
    intro inClass all stops
    rw [← List.cons_append, ← head]
    exact Text.takeWhile_run all stops
  have first : c ∈ l.spelled := by rw [head]; exact List.mem_cons_self
  rw [head, List.cons_append] at here
  unfold read
  rw [here]
  dsimp only
  cases l with
  | integer value =>
      have digit : c.isDigit := Text.ofNat_digits value c first
      have few : (Text.ofNat value).length ≤ maxDigits :=
        (Nat.length_toDigits_le_iff (by decide) (by decide)).mpr valid
      have back : Nat.ofDigitChars 10 (Text.ofNat value) 0 = value := Nat.ofDigitChars_ten_toDigits
      rw [if_pos digit, run Char.isDigit (Text.ofNat_digits value) apart]
      simp only [Lexeme.spelled, if_pos few, back]
  | identifier name =>
      have letter : c.isAlpha := valid.2 c first
      rw [if_neg (by rw [Text.not_isDigit_of_isAlpha letter]; decide), if_pos letter,
        run Char.isAlpha valid.2 apart]
      rfl
  | symbol s =>
      obtain ⟨rfl, -⟩ := List.cons.inj head
      obtain ⟨-, notDigit, notLetter⟩ := s.char_plain
      rw [notDigit, notLetter, s.ofChar?_char]
      rfl
  | endOfText => cases valid

theorem next_blank {s : Scanner} {c : Char} {later : Text} (here : s.rest = c :: later)
    (blank : Text.isBlank c) : s.next = next ⟨s.text, s.pos + 1⟩ := by
  have behind : rest ⟨s.text, s.pos + 1⟩ = later := by
    rw [rest, ← List.drop_drop, ← rest, here]
    rfl
  have start : s.tokenStart = tokenStart ⟨s.text, s.pos + 1⟩ := by
    rw [tokenStart, tokenStart, behind, here, List.takeWhile_cons_of_pos blank, List.length_cons]
    dsimp only
    omega
  rw [next, next, start]

theorem next_at {s : Scanner} {c : Char} {later : Text} (here : s.rest = c :: later)
    (blank : Text.isBlank c = false) : s.next = read s.text s.pos := by
  have start : s.tokenStart = s.pos := by
    simp [tokenStart, here, blank]
  rw [next, start]

theorem next_end {s : Scanner} (here : s.rest = []) :
    s.next = .ok ⟨.endOfText, s.pos, s.pos⟩ s := by
  have start : s.tokenStart = s.pos := by
    simp [tokenStart, here]
  rw [next, start, read, ← rest, here]

theorem rest_behind {s : Scanner} {first later : Text} (here : s.rest = first ++ later) :
    rest ⟨s.text, s.pos + first.length⟩ = later := by
  rw [rest, ← List.drop_drop, ← rest, here, List.drop_left]

/-- What is spelled ahead of a scanner is what it reads up to the end. -/
theorem ahead_of_spells {text : Text} {u : List Lexeme} (spells : Spells text u) (s : Scanner)
    (here : s.rest = text) :
    ∃ found stop, s.ahead = (found ++ [stop], none) ∧ stop.kind = .endOfText ∧
      lexemes found = u := by
  induction spells generalizing s with
  | done => exact ⟨[], _, ahead_read (next_end here), rfl, rfl⟩
  | @blank c later u blank rest ih =>
      obtain ⟨found, stop, ahead, last, same⟩ := ih ⟨s.text, s.pos + 1⟩ (@rest_behind s [c] _ here)
      refine ⟨found, stop, ?_, last, same⟩
      rw [ahead_eq, next_blank here blank, ← ahead_eq, ahead]
  | @word l later u valid apart rest ih =>
      obtain ⟨found, stop, ahead, last, same⟩ := ih _ (rest_behind here)
      obtain ⟨c, more, head, plain⟩ := valid.spelled_head
      have first : s.rest = c :: (more ++ later) := by rw [here, head, List.cons_append]
      have read := (next_at first plain).trans (read_spelled valid apart here)
      have going : Token.kind ⟨l, s.pos, s.pos + l.spelled.length⟩ ≠ .endOfText := valid.kind_ne
      refine ⟨⟨l, s.pos, s.pos + l.spelled.length⟩ :: found, stop, ?_, last, ?_⟩
      · rw [ahead_read read, hold_going going, ahead]
        rfl
      · rw [Token.lexemes_cons, same]

end Scanner

/-- The tokens of a text are the lexemes that it spells. -/
theorem Spells.tokens {text : Text} {u : List Lexeme} (spells : Spells text u) :
    ∃ found stop, Scanner.tokens text = (found ++ [stop], none) ∧ stop.kind = .endOfText ∧
      lexemes found = u :=
  Scanner.ahead_of_spells spells ⟨text, 0⟩ rfl

end Abacus
