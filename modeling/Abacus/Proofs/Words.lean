/- # Words

The words of a text are the longest parts of it without blanks.  What a scanner reads hangs on the
words alone: texts with the same words have the same lexemes ahead (`Scanner.lexemes_of_words`),
however many blanks stand between the words and around them.  A word may well be several lexemes,
but no lexeme goes on from one word to the next (`Scanner.read_word`).

The rest of the module says what becomes of the words when a text is trimmed or cut at a comment,
and that characters other than blanks can be counted in the words. -/
import Abacus.Proofs.Runs
import Abacus.Script

namespace Abacus
set_option autoImplicit false

open Token (Lexeme lexemes)

namespace Text

/-- The longest parts of a text without blanks. -/
def words (t : Text) : List Text := (t.splitOnP isBlank).filter (· ≠ [])

theorem words_nil : words [] = [] := by
  simp [words, List.splitOnP_nil]

/-- A blank ends a word. -/
theorem words_append_blank {c : Char} (blank : isBlank c) (first second : Text) :
    words (first ++ c :: second) = words first ++ words second := by
  rw [words, List.splitOnP_append_cons first second blank, List.filter_append]
  rfl

theorem words_cons_blank {c : Char} (blank : isBlank c) (t : Text) : words (c :: t) = words t := by
  simpa [words_nil] using words_append_blank blank [] t

/-- Where nothing or a blank follows, a word ends. -/
theorem words_append_apart (first : Text) {second : Text}
    (apart : ∀ c more, second = c :: more → isBlank c) :
    words (first ++ second) = words first ++ words second := by
  cases second with
  | nil => rw [words_nil, List.append_nil, List.append_nil]
  | cons c more =>
      have blank := apart c more rfl
      rw [words_append_blank blank, words_cons_blank blank]

/-- A text without blanks is one word. -/
theorem words_single {w : Text} (nonempty : w ≠ []) (plain : ∀ c ∈ w, isBlank c = false) :
    words w = [w] := by
  have whole : w.splitOnP isBlank = [w] := List.splitOnP_eq_singleton (by simpa using plain)
  rw [words, whole]
  simp [nonempty]

/-- Blanks in front of a text make no difference to its words. -/
theorem words_blank_append {first : Text} (blank : ∀ c ∈ first, isBlank c) (second : Text) :
    words (first ++ second) = words second := by
  induction first with
  | nil => rfl
  | cons c first ih =>
      rw [List.cons_append, words_cons_blank (blank c List.mem_cons_self)]
      exact ih fun x member => blank x (List.mem_cons_of_mem _ member)

/-- Blanks have no words. -/
theorem words_blank {t : Text} (blank : ∀ c ∈ t, isBlank c) : words t = [] := by
  simpa [words_nil] using words_blank_append blank []

/-- Blanks behind a text make no difference to its words. -/
theorem words_append_blanks (first : Text) {second : Text} (blank : ∀ c ∈ second, isBlank c) :
    words (first ++ second) = words first := by
  have apart : ∀ c more, second = c :: more → isBlank c := by
    rintro c more rfl
    exact blank c List.mem_cons_self
  rw [words_append_apart first apart, words_blank blank, List.append_nil]

theorem words_trimLeft (t : Text) : words t.trimLeft = words t := by
  conv_rhs => rw [← List.takeWhile_append_dropWhile (p := isBlank) (l := t)]
  exact (words_blank_append (fun c member => List.mem_takeWhile_imp member) _).symm

/-- A text has no words, or starts with one when its blanks are left out. -/
theorem first_word (t : Text) :
    (t.trimLeft = [] ∧ words t = []) ∨
    ∃ w later, t.trimLeft = w ++ later ∧ w ≠ [] ∧ (∀ c more, later = c :: more → isBlank c) ∧
      words t = w :: words later := by
  rw [← words_trimLeft]
  by_cases front : t.trimLeft = []
  · rw [front]
    exact .inl ⟨rfl, words_nil⟩
  · let inWord : Char → Bool := fun c => !isBlank c
    have plain := List.head_dropWhile_not isBlank front
    have nonempty : t.trimLeft.takeWhile inWord ≠ [] := by
      obtain ⟨c, more, here⟩ := List.exists_cons_of_ne_nil front
      change isBlank (t.trimLeft.head front) = false at plain
      simp only [here, List.head_cons] at plain
      simp [here, inWord, plain]
    have all : ∀ c ∈ t.trimLeft.takeWhile inWord, isBlank c = false := fun c member => by
      simpa [inWord] using List.mem_takeWhile_imp member
    have apart : ∀ c more, t.trimLeft.dropWhile inWord = c :: more → isBlank c := by
      intro c more same
      have head := List.head_dropWhile_not inWord (l := t.trimLeft) (by rw [same]; simp)
      simpa [same, inWord] using head
    have parts : t.trimLeft.takeWhile inWord ++ t.trimLeft.dropWhile inWord = t.trimLeft :=
      List.takeWhile_append_dropWhile
    refine .inr ⟨_, _, parts.symm, nonempty, apart, ?_⟩
    conv_lhs => rw [← parts]
    rw [words_append_apart _ apart, words_single nonempty all, List.singleton_append]

/-! ## Trimming, comments and counts -/

/-- A text is its trimmed text between blanks. -/
theorem trim_between (t : Text) : ∃ before behind, t = before ++ t.trim ++ behind ∧
    (∀ c ∈ before, isBlank c) ∧ ∀ c ∈ behind, isBlank c := by
  refine ⟨t.trimRight.takeWhile isBlank, t.rtakeWhile isBlank, ?_,
    fun c member => List.mem_takeWhile_imp member, fun c member => List.mem_rtakeWhile_imp member⟩
  rw [trim, trimLeft, List.takeWhile_append_dropWhile]
  exact (List.rdropWhile_append_rtakeWhile (p := isBlank) (l := t)).symm

theorem words_trimRight (t : Text) : words t.trimRight = words t := by
  have whole : t.trimRight ++ t.rtakeWhile isBlank = t := List.rdropWhile_append_rtakeWhile
  conv_rhs => rw [← whole]
  exact (words_append_blanks _ fun c member => List.mem_rtakeWhile_imp member).symm

theorem words_trim (t : Text) : words t.trim = words t := by
  obtain ⟨before, behind, whole, front, back⟩ := t.trim_between
  conv_rhs => rw [whole]
  rw [words_append_blanks _ back, words_blank_append front]

/-- A comment is no part of what is trimmed away. -/
theorem words_trim_comment (t : Text) :
    words (t.trim.takeWhile (· != '#')) = words (t.takeWhile (· != '#')) := by
  have kept : ∀ c, isBlank c → c != '#' := by
    intro c blank
    rw [bne_iff_ne]
    rintro rfl
    cases blank
  obtain ⟨before, behind, whole, front, back⟩ := t.trim_between
  have comment : (t.trim ++ behind).takeWhile (· != '#') =
      if (t.trim.takeWhile (· != '#')).length = t.trim.length then t.trim ++ behind
      else t.trim.takeWhile (· != '#') := by
    have whole := List.takeWhile_eq_self_iff.mpr fun c member => kept c (back c member)
    rw [List.takeWhile_append, whole]
  conv_rhs => rw [whole, List.append_assoc]
  rw [List.takeWhile_append_of_pos fun c member => kept c (front c member), comment,
    words_blank_append front]
  split
  · rename_i same
    rw [(List.takeWhile_prefix _).eq_of_length same, words_append_blanks _ back]
  · rfl

/-- All characters of the words are those that are no blanks. -/
theorem flatten_words (t : Text) : (words t).flatten = t.filter (fun c => !isBlank c) := by
  rw [words, List.flatten_filter_ne_nil]
  induction t with
  | nil => rfl
  | cons c t ih =>
      rw [List.splitOnP_cons_eq_if_modifyHead]
      obtain ⟨first, more, pieces⟩ := List.exists_cons_of_ne_nil (List.splitOnP_ne_nil isBlank t)
      rw [pieces] at ih ⊢
      by_cases blank : isBlank c
      · simpa [blank] using ih
      · simpa [blank] using ih

/-- The texts without words are the blank ones. -/
theorem words_eq_nil_iff {t : Text} : words t = [] ↔ t.blank := by
  rw [blank, List.all_eq_true]
  constructor
  · intro wordless
    have all := flatten_words t
    rw [wordless, List.flatten_nil, eq_comm, List.filter_eq_nil_iff] at all
    simpa using all
  · exact words_blank

theorem blank_of_words {first second : Text} (same : words first = words second) :
    first.blank = second.blank := by
  rw [Bool.eq_iff_iff, ← words_eq_nil_iff, same, words_eq_nil_iff]

/-- What is no blank is counted in the words. -/
theorem count_of_words {first second : Text} (same : words first = words second) {c : Char}
    (plain : isBlank c = false) : first.count c = second.count c := by
  have all : first.filter (fun c => !isBlank c) = second.filter (fun c => !isBlank c) := by
    rw [← flatten_words, same, flatten_words]
  have counted : ∀ t : Text, (t.filter (fun c => !isBlank c)).count c = t.count c :=
    fun t => List.count_filter (by simp [plain])
  rw [← counted, all, counted]

end Text

namespace Script

/-- What a line is without its comment, told by its words. -/
theorem words_clean (line : Text) :
    Text.words (clean line) = Text.words (line.takeWhile (· != '#')) :=
  Text.words_trimRight _

theorem unclosed_of_words {first second : Text} (same : first.words = second.words) :
    unclosed first = unclosed second := by
  have opens : first.count '(' = second.count '(' := Text.count_of_words same (by decide)
  have closes : first.count ')' = second.count ')' := Text.count_of_words same (by decide)
  rw [unclosed, unclosed, opens, closes]

end Script

/-! ## What is read of a word -/

namespace Scanner

/-- What is read at the front of a word hangs on this word alone. -/
theorem read_word {text w later : Text} {start : Nat} (here : text.drop start = w ++ later)
    (nonempty : w ≠ []) (apart : ∀ c more, later = c :: more → Text.isBlank c) :
    match read w 0 with
    | .ok token _ => token.lexeme.kind ≠ .endOfText ∧
        rest ⟨text, start + token.stop⟩ = w.drop token.stop ++ later ∧
        read text start = .ok ⟨token.lexeme, start, start + token.stop⟩ ⟨text, start + token.stop⟩
    | .error _ _ => ∃ d after, read text start = .error d after := by
  -- nothing behind the word carries on what is read at its end
  have kept : ∀ v more : Text, v.touches more = false → v.touches (more ++ later) = false := by
    intro v more ends
    by_cases last : more = []
    · cases later with
      | nil => rwa [List.append_nil]
      | cons c behind =>
          rw [last, List.nil_append]
          exact Text.touches_cons_blank (apart c behind rfl) v behind
    · rwa [Text.touches_append_right last]
  have longer : ∀ v more : Text, w.drop 0 = v ++ more →
      text.drop start = v ++ (more ++ later) := by
    intro v more same
    rw [here, ← List.append_assoc, ← same, List.drop_zero]
  have reading := read_reading w 0
  generalize read w 0 = result at reading
  cases reading with
  | stop ended => exact absurd ended nonempty
  | @word v more l same denotes ends =>
      have front := longer v more same
      have behind : rest ⟨text, start + v.length⟩ = more ++ later :=
        @rest_behind ⟨text, start⟩ v (more ++ later) front
      rw [List.drop_zero] at same
      dsimp only
      rw [Nat.zero_add, same, List.drop_left]
      exact ⟨denotes.kind_ne, behind, (Reading.word front denotes (kept v more ends)).eq⟩
  | @tooLong run more same all long ends =>
      exact ⟨_, _, (Reading.tooLong (longer run more same) all long (kept run more ends)).eq⟩
  | @foreign c more same digit letter symbol =>
      exact ⟨_, _, (Reading.foreign (longer [c] more same) digit letter symbol).eq⟩

theorem drop_tokenStart (s : Scanner) : s.text.drop s.tokenStart = s.rest.trimLeft := by
  have whole : s.rest = s.rest.takeWhile Text.isBlank ++ s.rest.trimLeft :=
    List.takeWhile_append_dropWhile.symm
  exact rest_behind whole

theorem next_blanks {s : Scanner} (empty : s.rest.trimLeft = []) :
    s.next = .ok ⟨.endOfText, s.tokenStart, s.tokenStart⟩ ⟨s.text, s.tokenStart⟩ := by
  rw [← drop_tokenStart] at empty
  rw [next, read, empty]

theorem lexemes_hold {l : Lexeme} (going : l.kind ≠ .endOfText) {start stop : Nat}
    (later : List Token × Option Diagnostic) :
    lexemes (hold ⟨l, start, stop⟩ later).1 = l :: lexemes later.1 := by
  rw [@hold_going ⟨l, start, stop⟩ going, Token.lexemes_cons]

/-- Scanners with the same words ahead have the same lexemes ahead. -/
theorem lexemes_of_words {s s' : Scanner} (same : s.rest.words = s'.rest.words) :
    lexemes s.ahead.1 = lexemes s'.ahead.1 := by
  induction s using reading_induction generalizing s' with
  | step s ih =>
      rcases s.rest.first_word, s'.rest.first_word with
        ⟨⟨front, empty⟩ | ⟨w, later, front, nonempty, apart, first⟩,
          ⟨front', empty'⟩ | ⟨w', later', front', -, apart', first'⟩⟩
      · rw [ahead_read (next_blanks front), ahead_read (next_blanks front')]
        rfl
      · rw [empty, first'] at same
        cases same
      · rw [first, empty'] at same
        cases same
      · rw [first, first'] at same
        obtain ⟨rfl, behind⟩ := List.cons.inj same
        rw [← drop_tokenStart] at front front'
        have read := read_word front nonempty apart
        have read' := read_word front' nonempty apart'
        cases word : Scanner.read w 0 with
        | error d after =>
            rw [word] at read read'
            obtain ⟨d, after, refused⟩ := read
            obtain ⟨d', after', refused'⟩ := read'
            rw [ahead_refused refused, ahead_refused refused']
        | ok token after =>
            rw [word] at read read'
            obtain ⟨going, rest, found⟩ := read
            obtain ⟨-, rest', found'⟩ := read'
            rw [ahead_read found, ahead_read found', lexemes_hold going, lexemes_hold going]
            refine congrArg _ (ih _ _ found going ?_)
            rw [rest, rest', Text.words_append_apart _ apart, Text.words_append_apart _ apart',
              behind]

end Scanner
end Abacus
