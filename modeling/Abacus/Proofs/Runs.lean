/- # What is read at a place

`Denotes w l` says that the characters `w` are one word of the language, the lexeme `l`: some
digits, not too many, some letters, or a symbol.  Unlike a spelling, a number may have needless
zeros.

A word is read where it stands in front of something that does not carry it on, which is the case
unless the last character of the word and the first one behind it are both digits or both letters
(`Text.touches`).  `Scanner.Reading` lists all that reading can come to: the end of the text, a
word, a run of too many digits, or a character that starts no word.  It says so in terms of the
characters ahead alone, and `Scanner.reading_iff` that this is what a scanner does.  So what is read
of a text is read of any other text with the same characters at that place. -/
import Abacus.Proofs.Spelling

namespace Abacus
set_option autoImplicit false

open Token (Lexeme lexemes)

namespace Text

/-- Whether a run of digits or of letters goes on from the end of one text into the next. -/
def touches (first second : Text) : Bool :=
  match first.getLast?, second.head? with
  | some c, some d => (c.isDigit && d.isDigit) || (c.isAlpha && d.isAlpha)
  | _, _ => false

@[simp] theorem touches_nil_right (first : Text) : touches first [] = false := by
  cases last : first.getLast? <;> simp [touches, last]

@[simp] theorem touches_nil_left (second : Text) : touches [] second = false := rfl

/-- Only the end of the first text counts. -/
theorem touches_append_left {second : Text} (nonempty : second ≠ []) (first third : Text) :
    touches (first ++ second) third = touches second third := by
  rw [touches, touches, List.getLast?_append_of_ne_nil _ nonempty]

/-- Only the front of the second text counts. -/
theorem touches_append_right {second : Text} (nonempty : second ≠ []) (first third : Text) :
    touches first (second ++ third) = touches first second := by
  rw [touches, touches, List.head?_append_of_ne_nil _ nonempty]

/-- A run of digits is carried on by a digit, and a run of letters by a letter. -/
theorem touches_run {inClass : Char → Bool}
    (kind : inClass = Char.isDigit ∨ inClass = Char.isAlpha) {run : Text} (nonempty : run ≠ [])
    (all : ∀ c ∈ run, inClass c) (later : Text) : touches run later = later.head?.any inClass := by
  have last := all _ (List.getLast_mem nonempty)
  rw [touches, List.getLast?_eq_some_getLast nonempty]
  rcases kind with rfl | rfl
  · have letter := not_isAlpha_of_isDigit last
    cases later.head? <;> simp [last, letter]
  · have digit := not_isDigit_of_isAlpha last
    cases later.head? <;> simp [last, digit]

/-- Nothing carries on a character that is neither a digit nor a letter. -/
theorem touches_single {c : Char} (digit : c.isDigit = false) (letter : c.isAlpha = false)
    (later : Text) : touches [c] later = false := by
  cases head : later.head? <;> simp [touches, head, digit, letter]

/-- A blank is neither a digit nor a letter. -/
theorem plain_of_isBlank {c : Char} (blank : isBlank c) :
    c.isDigit = false ∧ c.isAlpha = false := by
  constructor
  · by_contra digit
    rw [Bool.not_eq_false] at digit
    rw [not_isBlank_of_isDigit digit] at blank
    cases blank
  · by_contra letter
    rw [Bool.not_eq_false] at letter
    rw [not_isBlank_of_isAlpha letter] at blank
    cases blank

/-- Nothing carries on a blank. -/
theorem touches_blank {first : Text} (blank : ∀ c ∈ first, isBlank c) (second : Text) :
    touches first second = false := by
  by_cases empty : first = []
  · rw [empty, touches_nil_left]
  · obtain ⟨digit, letter⟩ := plain_of_isBlank (blank _ (List.getLast_mem empty))
    rw [touches, List.getLast?_eq_some_getLast empty]
    cases second.head? <;> simp [digit, letter]

/-- A blank carries nothing on. -/
theorem touches_cons_blank {c : Char} (blank : isBlank c) (first later : Text) :
    touches first (c :: later) = false := by
  obtain ⟨digit, letter⟩ := plain_of_isBlank blank
  cases last : first.getLast? <;> simp [touches, last, digit, letter]

/-- A run ends where its class ends. -/
theorem takeWhile_class {inClass : Char → Bool} {run later : Text} (all : ∀ c ∈ run, inClass c)
    (ends : later.head?.any inClass = false) : (run ++ later).takeWhile inClass = run := by
  refine takeWhile_run all ?_
  rintro c more rfl
  exact ends

/-- A text is a run of its first characters of a class and something that does not start with such
a character. -/
theorem head?_dropWhile (inClass : Char → Bool) (t : Text) :
    (t.dropWhile inClass).head?.any inClass = false := by
  cases rest : t.dropWhile inClass with
  | nil => rfl
  | cons c more =>
      have head := List.head_dropWhile_not inClass (l := t) (by rw [rest]; simp)
      simpa [rest] using head

end Text

/-- The characters `w` are one word, the lexeme `l`. -/
inductive Denotes : Text → Lexeme → Prop
  | integer {run : Text} (nonempty : run ≠ []) (all : ∀ c ∈ run, c.isDigit)
      (few : run.length ≤ maxDigits) : Denotes run (.integer (Nat.ofDigitChars 10 run 0))
  | identifier {run : Text} (nonempty : run ≠ []) (all : ∀ c ∈ run, c.isAlpha) :
      Denotes run (.identifier run)
  | symbol (s : Symbol) : Denotes [s.char] (.symbol s)

namespace Denotes

variable {w : Text} {l : Lexeme}

theorem ne_nil (denotes : Denotes w l) : w ≠ [] := by
  cases denotes with
  | integer nonempty => exact nonempty
  | identifier nonempty => exact nonempty
  | symbol s => simp

theorem kind_ne (denotes : Denotes w l) : l.kind ≠ .endOfText := by
  cases denotes <;> simp [Lexeme.kind]

/-- There is no blank in a word. -/
theorem plain (denotes : Denotes w l) : ∀ c ∈ w, Text.isBlank c = false := by
  intro c member
  cases denotes with
  | integer nonempty all => exact Text.not_isBlank_of_isDigit (all c member)
  | identifier nonempty all => exact Text.not_isBlank_of_isAlpha (all c member)
  | symbol s =>
      obtain rfl := List.mem_singleton.mp member
      exact s.char_plain.1

end Denotes

theorem Symbol.ofChar?_eq_some_iff {c : Char} {s : Symbol} : ofChar? c = some s ↔ c = s.char := by
  constructor
  · intro found
    unfold ofChar? at found
    split at found <;> cases found <;> rfl
  · rintro rfl
    exact s.ofChar?_char

namespace Scanner

/-- All that reading at a place can come to. -/
inductive Reading (text : Text) (start : Nat) : EStateM.Result Diagnostic Scanner Token → Prop
  | stop (ended : text.drop start = []) :
      Reading text start (.ok ⟨.endOfText, start, start⟩ ⟨text, start⟩)
  | word {w later : Text} {l : Lexeme} (here : text.drop start = w ++ later) (denotes : Denotes w l)
      (apart : w.touches later = false) :
      Reading text start (.ok ⟨l, start, start + w.length⟩ ⟨text, start + w.length⟩)
  | tooLong {run later : Text} (here : text.drop start = run ++ later)
      (all : ∀ c ∈ run, c.isDigit) (long : maxDigits < run.length)
      (apart : run.touches later = false) :
      Reading text start
        (.error (.lexical .literalTooLong text start (start + run.length))
          ⟨text, start + run.length⟩)
  | foreign {c : Char} {later : Text} (here : text.drop start = c :: later)
      (digit : c.isDigit = false) (letter : c.isAlpha = false) (symbol : ∀ s : Symbol, c ≠ s.char) :
      Reading text start
        (.error (.lexical (.invalidCharacter c) text start (start + 1)) ⟨text, start⟩)

theorem read_reading (text : Text) (start : Nat) : Reading text start (read text start) := by
  unfold read
  split
  · rename_i ended
    exact .stop ended
  · rename_i c rest here
    have whole : ∀ inClass : Char → Bool, text.drop start =
        (c :: rest).takeWhile inClass ++ (c :: rest).dropWhile inClass := by
      intro inClass
      rw [List.takeWhile_append_dropWhile, here]
    split
    · rename_i digit
      have nonempty : (c :: rest).takeWhile Char.isDigit ≠ [] := by simp [digit]
      have all : ∀ x ∈ (c :: rest).takeWhile Char.isDigit, x.isDigit :=
        fun x member => List.mem_takeWhile_imp member
      have apart : Text.touches ((c :: rest).takeWhile Char.isDigit)
          ((c :: rest).dropWhile Char.isDigit) = false := by
        rw [Text.touches_run (.inl rfl) nonempty all, Text.head?_dropWhile]
      dsimp only
      split
      · rename_i few
        exact .word (whole Char.isDigit) (.integer nonempty all few) apart
      · rename_i many
        exact .tooLong (whole Char.isDigit) all (Nat.lt_of_not_le many) apart
    · rename_i notDigit
      split
      · rename_i letter
        have nonempty : (c :: rest).takeWhile Char.isAlpha ≠ [] := by simp [letter]
        have all : ∀ x ∈ (c :: rest).takeWhile Char.isAlpha, x.isAlpha :=
          fun x member => List.mem_takeWhile_imp member
        refine .word (whole Char.isAlpha) (.identifier nonempty all) ?_
        rw [Text.touches_run (.inr rfl) nonempty all, Text.head?_dropWhile]
      · rename_i notLetter
        rw [Bool.not_eq_true] at notDigit notLetter
        split
        · rename_i s found
          obtain rfl := Symbol.ofChar?_eq_some_iff.mp found
          exact @Reading.word text start [s.char] rest _ here (.symbol s)
            (Text.touches_single notDigit notLetter rest)
        · rename_i unknown
          refine .foreign here notDigit notLetter ?_
          rintro s rfl
          rw [s.ofChar?_char] at unknown
          cases unknown

/-- The run in front of a text that starts with a run. -/
theorem drop_run {text run later : Text} {start : Nat} {inClass : Char → Bool}
    (here : text.drop start = run ++ later) (nonempty : run ≠ []) (all : ∀ c ∈ run, inClass c)
    (ends : later.head?.any inClass = false) :
    ∃ c rest, text.drop start = c :: rest ∧ inClass c ∧
      (c :: rest).takeWhile inClass = run := by
  obtain ⟨c, more, rfl⟩ := List.exists_cons_of_ne_nil nonempty
  exact ⟨c, more ++ later, here, all c List.mem_cons_self, Text.takeWhile_class all ends⟩

theorem Reading.eq {text : Text} {start : Nat} {r : EStateM.Result Diagnostic Scanner Token}
    (reading : Reading text start r) : read text start = r := by
  cases reading with
  | stop ended => rw [read, ended]
  | word here denotes apart =>
      cases denotes with
      | integer nonempty all few =>
          rw [Text.touches_run (.inl rfl) nonempty all] at apart
          obtain ⟨c, rest, front, digit, run⟩ := drop_run here nonempty all apart
          rw [read, front]
          dsimp only
          rw [if_pos digit, run, if_pos few]
      | identifier nonempty all =>
          rw [Text.touches_run (.inr rfl) nonempty all] at apart
          obtain ⟨c, rest, front, letter, run⟩ := drop_run here nonempty all apart
          rw [read, front]
          dsimp only
          rw [if_neg (by rw [Text.not_isDigit_of_isAlpha letter]; simp), if_pos letter, run]
      | symbol s =>
          obtain ⟨-, digit, letter⟩ := s.char_plain
          rw [read, here]
          dsimp only [List.singleton_append]
          rw [digit, letter, s.ofChar?_char]
          rfl
  | tooLong here all long apart =>
      have nonempty := List.ne_nil_of_length_pos (Nat.zero_lt_of_lt long)
      rw [Text.touches_run (.inl rfl) nonempty all] at apart
      obtain ⟨c, rest, front, digit, run⟩ := drop_run here nonempty all apart
      rw [read, front]
      dsimp only
      rw [if_pos digit, run, if_neg (Nat.not_le_of_lt long)]
  | @foreign c later here digit letter symbol =>
      have unknown : Symbol.ofChar? c = none := by
        rw [Option.eq_none_iff_forall_ne_some]
        intro s found
        exact symbol s (Symbol.ofChar?_eq_some_iff.mp found)
      rw [read, here]
      dsimp only
      rw [digit, letter, unknown]
      rfl

/-- What a scanner does at a place is told by the characters from there on. -/
theorem reading_iff {text : Text} {start : Nat} {r : EStateM.Result Diagnostic Scanner Token} :
    Reading text start r ↔ read text start = r :=
  ⟨Reading.eq, fun same => same ▸ read_reading text start⟩

end Scanner
end Abacus
