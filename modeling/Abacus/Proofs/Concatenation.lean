/- # Texts one behind the other

Two texts without refusals are read one behind the other as they are read apart, unless a run of
digits or of letters goes on from the first into the second; and then they are not
(`Scanner.lexemes_append_iff`).  A blank between them always keeps them apart.

Where no run goes on, each word of the first text is read as before (`Scanner.next_append`), and so
are all of them (`Scanner.ahead_append`).  Where one does, the last word of the first text and the
first word of the second are read as one word, if at all, and there is one word less in all
(`Scanner.length_ahead_touching`). -/
import Abacus.Proofs.Parsing
import Abacus.Proofs.Words
import Abacus.Proofs.Runs

namespace Abacus
set_option autoImplicit false

open Token (Lexeme lexemes)

namespace Scanner

/-! ## One word -/

theorem next_reading (s : Scanner) : Reading s.text s.tokenStart s.next :=
  read_reading s.text s.tokenStart

/-- What is ahead is blanks in front of what is read next. -/
theorem rest_eq (s : Scanner) :
    s.rest = s.rest.takeWhile Text.isBlank ++ s.text.drop s.tokenStart := by
  rw [drop_tokenStart, Text.trimLeft, List.takeWhile_append_dropWhile]

theorem rest_append {first : Text} {pos : Nat} (inside : pos ≤ first.length) (second : Text) :
    rest ⟨first ++ second, pos⟩ = rest ⟨first, pos⟩ ++ second :=
  List.drop_append_of_le_length inside

/-- A token starts where it does, whatever stands behind the text. -/
theorem tokenStart_append {s : Scanner} (more : s.tokenStart < s.text.length) (second : Text) :
    tokenStart ⟨s.text ++ second, s.pos⟩ = s.tokenStart := by
  have inside : s.pos ≤ s.text.length := Nat.le_trans s.pos_le_tokenStart (Nat.le_of_lt more)
  have nonempty : s.text.drop s.tokenStart ≠ [] := by
    rw [Ne, List.drop_eq_nil_iff]
    omega
  have whole : rest ⟨s.text ++ second, s.pos⟩ =
      s.rest.takeWhile Text.isBlank ++ (s.text.drop s.tokenStart ++ second) := by
    rw [rest_append inside, ← List.append_assoc, ← rest_eq]
  have plain : (s.text.drop s.tokenStart ++ second).head?.any Text.isBlank = false := by
    rw [List.head?_append_of_ne_nil _ nonempty, drop_tokenStart]
    exact Text.head?_dropWhile Text.isBlank s.rest
  have blank : ∀ c ∈ s.rest.takeWhile Text.isBlank, Text.isBlank c :=
    fun c member => List.mem_takeWhile_imp member
  rw [tokenStart, whole, Text.takeWhile_class blank plain]
  rfl

/-- A word is read as well with more text behind, unless this carries it on. -/
theorem next_append {s after : Scanner} {token : Token} (found : s.next = .ok token after)
    (going : token.kind ≠ .endOfText) {second : Text}
    (apart : after.rest = [] → s.text.touches second = false) :
    next ⟨s.text ++ second, s.pos⟩ = .ok token ⟨s.text ++ second, after.pos⟩ := by
  have reading := s.next_reading
  obtain ⟨-, longer, inside⟩ := next_word found going
  rw [found] at reading
  cases reading with
  | stop ended => exact absurd rfl going
  | @word w later l here denotes ends =>
      have more : s.tokenStart < s.text.length := Nat.lt_of_lt_of_le longer inside
      have behind : rest ⟨s.text, s.tokenStart + w.length⟩ = later :=
        @rest_behind ⟨s.text, s.tokenStart⟩ w later here
      have here' : (s.text ++ second).drop s.tokenStart = w ++ (later ++ second) := by
        rw [List.drop_append_of_le_length (Nat.le_of_lt more), here, List.append_assoc]
      have ends' : w.touches (later ++ second) = false := by
        by_cases last : later = []
        · -- the word is the end of the first text
          have whole : s.text = s.text.take s.tokenStart ++ w := by
            conv_lhs => rw [← List.take_append_drop s.tokenStart s.text, here, last,
              List.append_nil]
          have touch := apart (by rw [behind, last])
          rw [whole, Text.touches_append_left denotes.ne_nil] at touch
          rw [last, List.nil_append, touch]
        · rw [Text.touches_append_right last, ends]
      rw [next, tokenStart_append more]
      exact (Reading.word here' denotes ends').eq

/-! ## All words -/

/-- Blanks in front are skipped. -/
theorem ahead_skip {s : Scanner} {blanks later : Text} (here : s.rest = blanks ++ later)
    (blank : ∀ c ∈ blanks, Text.isBlank c) :
    s.ahead = ahead ⟨s.text, s.pos + blanks.length⟩ := by
  have start : s.tokenStart = tokenStart ⟨s.text, s.pos + blanks.length⟩ := by
    rw [tokenStart, tokenStart, rest_behind here, here, List.takeWhile_append_of_pos blank,
      List.length_append, Nat.add_assoc]
  rw [ahead_eq, ahead_eq ⟨s.text, s.pos + blanks.length⟩, next, next, start]

/-- Without a refusal there is at least the end of the text ahead. -/
theorem ahead_ne_nil {s : Scanner} (complete : s.ahead.2 = none) : s.ahead.1 ≠ [] := by
  rcases s.ahead_shape with ⟨found, stop, ahead, -⟩ | ⟨found, d, ahead, -⟩
  · rw [ahead]
    simp
  · rw [ahead] at complete
    cases complete

/-- The words of a text without refusals are read as well with a text behind that carries none of
them on, and then what is ahead from the start of that text. -/
theorem ahead_append {s : Scanner} {second : Text} (inside : s.pos ≤ s.text.length)
    (apart : s.text.touches second = false) (complete : s.ahead.2 = none) :
    ahead ⟨s.text ++ second, s.pos⟩ =
      (s.ahead.1.dropLast ++ (ahead ⟨s.text ++ second, s.text.length⟩).1,
        (ahead ⟨s.text ++ second, s.text.length⟩).2) := by
  induction s using reading_induction with
  | step s ih =>
      cases found : s.next with
      | error d after =>
          rw [ahead_refused found] at complete
          cases complete
      | ok token after =>
          rw [ahead_read found] at complete ⊢
          by_cases going : token.kind = .endOfText
          · have reading := s.next_reading
            rw [found] at reading
            cases reading with
            | word here denotes => exact absurd going denotes.kind_ne
            | stop ended =>
                have blank : ∀ c ∈ s.rest, Text.isBlank c := by
                  rw [rest_eq, ended, List.append_nil]
                  exact fun c member => List.mem_takeWhile_imp member
                have size : s.pos + s.rest.length = s.text.length := by
                  rw [rest, List.length_drop]
                  omega
                have skipped := ahead_skip (rest_append inside second) blank
                rw [size] at skipped
                rw [skipped, hold, if_pos going]
                rfl
          · obtain ⟨text, forward, stop⟩ := next_ok found
            have bounds := next_word found going
            rw [hold_going going] at complete ⊢
            have later := ih token after found going (by rw [text]; omega)
              (by rw [text]; exact apart) complete
            rw [text] at later
            rw [ahead_read (next_append found going fun _ => apart), hold_going going, later,
              List.dropLast_cons_of_ne_nil (ahead_ne_nil complete), List.cons_append]

end Scanner

/-! ## Words that become one -/

/-- The front of a text that starts with a character of a class. -/
theorem Text.front_run {inClass : Char → Bool} {t : Text} (first : t.head?.any inClass) :
    ∃ run later, t = run ++ later ∧ run ≠ [] ∧ (∀ c ∈ run, inClass c) ∧
      later.head?.any inClass = false := by
  refine ⟨t.takeWhile inClass, t.dropWhile inClass, List.takeWhile_append_dropWhile.symm, ?_,
    fun c member => List.mem_takeWhile_imp member, head?_dropWhile inClass t⟩
  cases t with
  | nil => cases first
  | cons c more =>
      have inside : inClass c := first
      simp [inside]

/-- A word that a text carries on is one word with the first word of that text, unless this makes a
number of too many digits. -/
theorem Denotes.merged {w second : Text} {l : Lexeme} (denotes : Denotes w l)
    (touch : w.touches second) :
    ∃ r later, second = r ++ later ∧ r ≠ [] ∧ r.touches later = false ∧
      ((∃ l' l'', Denotes (w ++ r) l' ∧ Denotes r l'') ∨
        (∀ c ∈ w ++ r, c.isDigit) ∧ maxDigits < (w ++ r).length) := by
  have both : ∀ {inClass : Char → Bool} {r : Text}, (∀ c ∈ w, inClass c) → (∀ c ∈ r, inClass c) →
      ∀ c ∈ w ++ r, inClass c := by
    intro inClass r first second c member
    rcases List.mem_append.mp member with member | member
    · exact first c member
    · exact second c member
  cases denotes with
  | integer nonempty all few =>
      rw [Text.touches_run (.inl rfl) nonempty all] at touch
      obtain ⟨r, later, whole, nonempty', all', ends⟩ := Text.front_run touch
      refine ⟨r, later, whole, nonempty', ?_, ?_⟩
      · rw [Text.touches_run (.inl rfl) nonempty' all', ends]
      by_cases fits : (w ++ r).length ≤ maxDigits
      · have fits' : r.length ≤ maxDigits := by
          rw [List.length_append] at fits
          omega
        exact .inl ⟨_, _, .integer (by simp [nonempty]) (both all all') fits,
          .integer nonempty' all' fits'⟩
      · exact .inr ⟨both all all', Nat.lt_of_not_le fits⟩
  | identifier nonempty all =>
      rw [Text.touches_run (.inr rfl) nonempty all] at touch
      obtain ⟨r, later, whole, nonempty', all', ends⟩ := Text.front_run touch
      refine ⟨r, later, whole, nonempty', ?_, .inl ⟨_, _, .identifier (by simp [nonempty])
        (both all all'), .identifier nonempty' all'⟩⟩
      rw [Text.touches_run (.inr rfl) nonempty' all', ends]
  | symbol s =>
      rw [Text.touches_single s.char_plain.2.1 s.char_plain.2.2] at touch
      cases touch

namespace Scanner

/-- A text whose last word is carried on is refused from this word on, or has as many tokens from
there on as the other text. -/
theorem length_ahead_merged {s : Scanner} {w second : Text} {l : Lexeme}
    (here : s.text.drop s.tokenStart = w) (denotes : Denotes w l) (touch : w.touches second)
    (complete : (ahead ⟨s.text ++ second, s.pos⟩).2 = none) :
    (ahead ⟨s.text ++ second, s.pos⟩).1.length =
      (ahead ⟨s.text ++ second, s.text.length⟩).1.length := by
  obtain ⟨r, later, rfl, nonempty, apart, merged⟩ := denotes.merged touch
  have more : s.tokenStart < s.text.length := by
    have size := List.length_pos_of_ne_nil denotes.ne_nil
    rw [← here, List.length_drop] at size
    omega
  have whole : (s.text ++ (r ++ later)).drop s.tokenStart = (w ++ r) ++ later := by
    rw [List.drop_append_of_le_length (Nat.le_of_lt more), here, List.append_assoc]
  have apart' : (w ++ r).touches later = false := by
    rw [Text.touches_append_left nonempty, apart]
  have start := tokenStart_append more (r ++ later)
  rcases merged with ⟨l', l'', both, second⟩ | ⟨all, long⟩
  · have size : s.tokenStart + w.length = s.text.length := by
      rw [← here, List.length_drop]
      omega
    have first : next ⟨s.text ++ (r ++ later), s.pos⟩ =
        .ok ⟨l', s.tokenStart, s.text.length + r.length⟩
          ⟨s.text ++ (r ++ later), s.text.length + r.length⟩ := by
      rw [next, start, (Reading.word whole both apart').eq, List.length_append, ← Nat.add_assoc,
        size]
    have other : next ⟨s.text ++ (r ++ later), s.text.length⟩ =
        .ok ⟨l'', s.text.length, s.text.length + r.length⟩
          ⟨s.text ++ (r ++ later), s.text.length + r.length⟩ := by
      have front : (s.text ++ (r ++ later)).drop s.text.length = r ++ later := List.drop_left
      obtain ⟨c, rest, same⟩ := List.exists_cons_of_ne_nil nonempty
      rw [@next_at ⟨s.text ++ (r ++ later), s.text.length⟩ c (rest ++ later)
        (by rw [Scanner.rest, front, same, List.cons_append])
        (second.plain c (by rw [same]; exact List.mem_cons_self))]
      exact (Reading.word front second apart).eq
    rw [ahead_read first, ahead_read other, @hold_going ⟨l', _, _⟩ both.kind_ne,
      @hold_going ⟨l'', _, _⟩ second.kind_ne, List.length_cons, List.length_cons]
  · have refused := (Reading.tooLong whole all long apart').eq
    rw [← start] at refused
    rw [ahead_refused refused] at complete
    cases complete

/-- Where a run goes on from one text into the next, the two have one token less together than
apart: one end of a text, and one word. -/
theorem length_ahead_touching {s : Scanner} {second : Text} (inside : s.pos < s.text.length)
    (touch : s.text.touches second) (complete : s.ahead.2 = none)
    (complete' : (ahead ⟨s.text ++ second, s.pos⟩).2 = none) :
    (ahead ⟨s.text ++ second, s.pos⟩).1.length + 2 =
      s.ahead.1.length + (ahead ⟨s.text ++ second, s.text.length⟩).1.length := by
  induction s using reading_induction with
  | step s ih =>
      cases found : s.next with
      | error d after =>
          rw [ahead_refused found] at complete
          cases complete
      | ok token after =>
          have reading := s.next_reading
          rw [found] at reading
          rw [ahead_read found] at complete ⊢
          cases reading with
          | stop ended =>
              have blank : ∀ c ∈ s.rest, Text.isBlank c := by
                rw [rest_eq, ended, List.append_nil]
                exact fun c member => List.mem_takeWhile_imp member
              have nonempty : s.rest ≠ [] := by
                rw [rest, Ne, List.drop_eq_nil_iff]
                omega
              have split : s.text = s.text.take s.pos ++ s.rest :=
                (List.take_append_drop s.pos s.text).symm
              rw [split, Text.touches_append_left nonempty, Text.touches_blank blank] at touch
              cases touch
          | @word w later l here denotes apart =>
              rw [@hold_going ⟨l, _, _⟩ denotes.kind_ne] at complete ⊢
              have behind : rest ⟨s.text, s.tokenStart + w.length⟩ = later :=
                @rest_behind ⟨s.text, s.tokenStart⟩ w later here
              by_cases last : later = []
              · rw [last, List.append_nil] at here
                rw [last] at behind
                have whole : s.text = s.text.take s.tokenStart ++ w := by
                  conv_lhs => rw [← List.take_append_drop s.tokenStart s.text, here]
                rw [whole, Text.touches_append_left denotes.ne_nil] at touch
                rw [length_ahead_merged here denotes touch complete', List.length_cons,
                  ahead_read (next_end behind)]
                simp only [hold, Token.kind, Lexeme.kind, if_true, List.length_singleton]
                omega
              · have going : Token.kind ⟨l, s.tokenStart, s.tokenStart + w.length⟩ ≠ .endOfText :=
                  denotes.kind_ne
                have apart : rest ⟨s.text, s.tokenStart + w.length⟩ = [] →
                    s.text.touches second = false := fun empty => absurd (behind ▸ empty) last
                have first := next_append found going apart
                rw [ahead_read first, hold_going going] at complete' ⊢
                have inside' : s.tokenStart + w.length < s.text.length := by
                  have size := List.length_pos_of_ne_nil last
                  rw [← behind, rest, List.length_drop] at size
                  dsimp only at size
                  omega
                have fewer := ih _ _ found going inside' touch complete complete'
                rw [List.length_cons, List.length_cons]
                dsimp only at fewer ⊢
                omega

/-! ## Lexemes -/

/-- There is no refusal ahead exactly if the end of the text is. -/
theorem complete_iff (s : Scanner) : s.ahead.2 = none ↔ Lexeme.endOfText ∈ lexemes s.ahead.1 := by
  rcases s.ahead_shape with ⟨found, stop, ahead, last, -⟩ | ⟨found, d, ahead, -, valid⟩
  · have ends : stop.lexeme = .endOfText := by
      cases lexeme : stop.lexeme <;> simp_all [Token.kind, Lexeme.kind]
    rw [ahead, Token.lexemes_append]
    simp [ends]
  · rw [ahead]
    constructor
    · intro complete
      cases complete
    · intro member
      obtain ⟨token, member, same⟩ := List.mem_map.mp member
      have isValid := valid token member
      rw [same] at isValid
      cases isValid

/-- Texts with the same words have the same lexemes, or both are refused. -/
theorem tokens_of_words {text text' : Text} {found : List Token}
    (read : tokens text = (found, none)) (same : text.words = text'.words) :
    ∃ found', tokens text' = (found', none) ∧ lexemes found' = lexemes found := by
  have lexemes : lexemes (ahead ⟨text, 0⟩).1 = lexemes (ahead ⟨text', 0⟩).1 := lexemes_of_words same
  have complete : (ahead ⟨text, 0⟩).2 = none := congrArg Prod.snd read
  rw [complete_iff, lexemes, ← complete_iff] at complete
  refine ⟨_, Prod.ext rfl complete, ?_⟩
  rw [tokens_eq_ahead, ← lexemes]
  exact congrArg (Token.lexemes ·.1) read

/-- From its start on, the second of two texts is read as if it were alone. -/
theorem ahead_second (first : Text) {second : Text} {found : List Token}
    (read : tokens second = (found, none)) :
    (ahead ⟨first ++ second, first.length⟩).2 = none ∧
      lexemes (ahead ⟨first ++ second, first.length⟩).1 = lexemes found := by
  have same : rest ⟨first ++ second, first.length⟩ = rest ⟨second, 0⟩ := List.drop_left
  have lexemes : lexemes (ahead ⟨first ++ second, first.length⟩).1 =
      lexemes (ahead ⟨second, 0⟩).1 := lexemes_of_words (congrArg Text.words same)
  have alone : ahead ⟨second, 0⟩ = (found, none) := read
  have complete : (ahead ⟨second, 0⟩).2 = none := by rw [alone]
  rw [complete_iff, ← lexemes, ← complete_iff] at complete
  rw [alone] at lexemes
  exact ⟨complete, lexemes⟩

theorem lexemes_append {first second : Text} {found found' : List Token}
    (read : tokens first = (found, none)) (read' : tokens second = (found', none))
    (apart : first.touches second = false) :
    ∃ all, tokens (first ++ second) = (all, none) ∧
      lexemes all = (lexemes found).dropLast ++ lexemes found' := by
  have alone : ahead ⟨first, 0⟩ = (found, none) := read
  have whole := @ahead_append ⟨first, 0⟩ second (Nat.zero_le _) apart (by rw [alone])
  obtain ⟨complete, same⟩ := ahead_second first read'
  dsimp only at whole
  rw [complete, alone] at whole
  refine ⟨_, whole, ?_⟩
  rw [Token.lexemes_append, same]
  exact congrArg (· ++ lexemes found') List.map_dropLast

/-- Where a run goes on, words are lost. -/
theorem length_touching {first second : Text} {found found' all : List Token}
    (read : tokens first = (found, none)) (read' : tokens second = (found', none))
    (touch : first.touches second) (both : tokens (first ++ second) = (all, none)) :
    all.length + 2 = found.length + found'.length := by
  have alone : ahead ⟨first, 0⟩ = (found, none) := read
  have whole : ahead ⟨first ++ second, 0⟩ = (all, none) := both
  have inside : 0 < first.length := by
    rw [List.length_pos_iff]
    rintro rfl
    cases touch
  have fewer :=
    @length_ahead_touching ⟨first, 0⟩ second inside touch (by rw [alone]) (by rw [whole])
  have second := congrArg List.length (ahead_second first read').2
  rw [Token.length_lexemes, Token.length_lexemes] at second
  dsimp only at fewer
  rw [whole, alone, second] at fewer
  exact fewer

/-- Take two texts without refusals.  One behind the other they have the words of the first in front
of those of the second exactly if no run of digits or of letters goes on from the first into the
second.  With blanks between them they always have. -/
theorem lexemes_append_iff (first second : Text) (found found' : List Token)
    (read : tokens? first = .ok found) (read' : tokens? second = .ok found') :
    ((∃ all, tokens? (first ++ second) = .ok all ∧
        lexemes all = (lexemes found).dropLast ++ lexemes found') ↔
      first.touches second = false) ∧
    ∀ gap : Text, gap ≠ [] → gap.blank →
      ∃ all, tokens? (first ++ gap ++ second) = .ok all ∧
        lexemes all = (lexemes found).dropLast ++ lexemes found' := by
  simp only [tokens?_eq_ok_iff] at read read' ⊢
  refine ⟨⟨?_, lexemes_append read read'⟩, fun gap nonempty blank => ?_⟩
  · rintro ⟨all, both, same⟩
    by_contra touch
    rw [Bool.not_eq_false] at touch
    have fewer := length_touching read read' touch both
    have size := congrArg List.length same
    have last := List.length_pos_of_ne_nil (ahead_ne_nil (congrArg Prod.snd read))
    have alone : ahead ⟨first, 0⟩ = (found, none) := read
    rw [alone] at last
    simp only [Token.length_lexemes, List.length_append, List.length_dropLast] at size last
    omega
  · rw [Text.blank, List.all_eq_true] at blank
    have words : second.words = Text.words (gap ++ second) :=
      (Text.words_blank_append blank second).symm
    obtain ⟨spaced, read'', same⟩ := tokens_of_words read' words
    have apart : first.touches (gap ++ second) = false := by
      obtain ⟨c, more, rfl⟩ := List.exists_cons_of_ne_nil nonempty
      exact Text.touches_cons_blank (blank c List.mem_cons_self) first (more ++ second)
    obtain ⟨all, both, lexemes⟩ := lexemes_append read read'' apart
    rw [List.append_assoc]
    exact ⟨all, both, by rw [lexemes, same]⟩

/-- Two numbers become one without a blank between them, and only then. -/
theorem lexemes_append_iff_numbers :
    let found : List Token :=
      [⟨.identifier "x".toList, 0, 1⟩, ⟨.integer 7, 1, 3⟩, ⟨.endOfText, 3, 3⟩]
    let found' : List Token :=
      [⟨.integer 3, 0, 1⟩, ⟨.identifier "y".toList, 1, 2⟩, ⟨.endOfText, 2, 2⟩]
    tokens? "x07".toList = .ok found ∧ tokens? "3y".toList = .ok found' ∧
    (¬ ∃ all, tokens? ("x07".toList ++ "3y".toList) = .ok all ∧
      lexemes all = (lexemes found).dropLast ++ lexemes found') ∧
    ∃ all, tokens? ("x07".toList ++ "\t ".toList ++ "3y".toList) = .ok all ∧
      lexemes all = [.identifier "x".toList, .integer 7, .integer 3, .identifier "y".toList,
        .endOfText] := by
  intro found found'
  have read : tokens? "x07".toList = .ok found := by decide +kernel
  have read' : tokens? "3y".toList = .ok found' := by decide +kernel
  obtain ⟨apart, spaced⟩ := lexemes_append_iff _ _ _ _ read read'
  refine ⟨read, read', ?_, spaced "\t ".toList (by decide) (by decide)⟩
  rw [apart]
  decide

end Scanner

end Abacus
