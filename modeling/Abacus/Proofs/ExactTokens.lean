/- # Exact tokens

The tokens of a text, told by the places of its characters.  A number stands at a longest run of
digits (`Text.Run`) and a name at a longest run of letters; a symbol stands at its character; the
tokens do not overlap, and only blanks are left out (`Scanner.Covers`).

A text is refused for a character that can stand in no text or for a run of too many digits
(`Scanner.Offence`), and for nothing else.  Of several offences the leftmost is named, and the
tokens in front of it are those of the text that ends there.  All of this is
`Scanner.tokens_exact`.

A scanner sees only what is ahead of it.  That a run is also longest at its front follows from the
places at which a scanner stands: no run goes on across such a place (`Text.Clear`). -/
import Abacus.Proofs.Concatenation

namespace Abacus
set_option autoImplicit false

open Token (Lexeme lexemes)

namespace Text

/-- A longest part of a text, from `start` up to `stop`, with characters of one class. -/
structure Run (inClass : Char → Bool) (t : Text) (start stop : Nat) : Prop where
  nonempty : start < stop
  inside : stop ≤ t.length
  all : ∀ i c, start ≤ i → i < stop → t[i]? = some c → inClass c
  front : ∀ i c, i + 1 = start → t[i]? = some c → inClass c = false
  behind : ∀ c, t[stop]? = some c → inClass c = false

/-- Whether a character can stand in a text: a blank, a digit, a letter or a symbol. -/
def Readable (c : Char) : Prop := isBlank c ∨ c.isDigit ∨ c.isAlpha ∨ ∃ s : Symbol, c = s.char

/-- The number that a text stands for if its characters are taken for decimal digits. -/
def decimal (t : Text) : Nat := Nat.ofDigits 10 (t.reverse.map fun c => c.toNat - '0'.toNat)

end Text

namespace Token

/-- A token stands in a text where it says, as what it says. -/
def Stands (text : Text) (token : Token) : Prop :=
  match token.lexeme with
  | .integer value => text.Run Char.isDigit token.start token.stop ∧
      value = (text.slice token.start token.stop).decimal
  | .identifier name => text.Run Char.isAlpha token.start token.stop ∧
      name = text.slice token.start token.stop
  | .symbol s => token.stop = token.start + 1 ∧ text[token.start]? = some s.char
  | .endOfText => False

end Token

namespace Scanner

/-- The tokens stand in a text, one behind the other, and cover all of it from a place on but for
blanks. -/
structure Covers (text : Text) (place : Nat) (words : List Token) : Prop where
  stands : ∀ token ∈ words, token.Stands text
  nonempty : ∀ token ∈ words, token.start < token.stop
  ordered : words.Pairwise fun first second => first.stop ≤ second.start
  behind : ∀ token ∈ words, place ≤ token.start
  blank : ∀ i c, place ≤ i → text[i]? = some c →
    (∀ token ∈ words, i < token.start ∨ token.stop ≤ i) → Text.isBlank c

/-- What a text is refused for, and the characters that are to blame. -/
inductive Offence (text : Text) : Diagnostic.LexicalCause → Nat → Nat → Prop
  | invalidCharacter {i : Nat} {c : Char} (here : text[i]? = some c)
      (foreign : ¬ Text.Readable c) : Offence text (.invalidCharacter c) i (i + 1)
  | literalTooLong {start stop : Nat} (run : text.Run Char.isDigit start stop)
      (long : 4300 < stop - start) : Offence text .literalTooLong start stop

end Scanner

/-! ## Characters and runs -/

namespace Text

theorem not_readable_iff {c : Char} : ¬ Readable c ↔
    isBlank c = false ∧ c.isDigit = false ∧ c.isAlpha = false ∧ ∀ s : Symbol, c ≠ s.char := by
  simp [Readable]

theorem slice_drop {t w later : Text} {start : Nat} (here : t.drop start = w ++ later) :
    t.slice start (start + w.length : Nat) = w := by
  have place : ∀ n : Nat, t.place n = n := fun n => by
    rw [Text.place, if_neg (by omega), Int.toNat_natCast]
  rw [slice, place, place, List.drop_take, here, Nat.add_sub_cancel_left, List.take_left]

theorem getElem?_of_drop {t w later : Text} {start : Nat} (here : t.drop start = w ++ later)
    (k : Nat) : t[start + k]? = (w ++ later)[k]? := by
  rw [← here, List.getElem?_drop]

/-- The characters of a part of a text. -/
theorem getElem?_part {t w later : Text} {start : Nat} (here : t.drop start = w ++ later) {i : Nat}
    {c : Char} (front : start ≤ i) (back : i < start + w.length) (found : t[i]? = some c) :
    c ∈ w := by
  obtain ⟨k, rfl⟩ := Nat.exists_eq_add_of_le front
  rw [getElem?_of_drop here, List.getElem?_append_left (by omega)] at found
  exact List.mem_of_getElem? found

/-- The number of a text, read from its last digit on or from its first. -/
theorem decimal_eq (t : Text) : t.decimal = Nat.ofDigitChars 10 t 0 := by
  have general : ∀ before, Nat.ofDigitChars 10 t before = before * 10 ^ t.length + t.decimal := by
    induction t with
    | nil => simp [decimal]
    | cons c t ih =>
        intro before
        rw [Nat.ofDigitChars_cons, ih]
        simp only [decimal, List.reverse_cons, List.map_append, List.map_cons, List.map_nil,
          Nat.ofDigits_append, List.length_map, List.length_reverse, Nat.ofDigits_singleton,
          List.length_cons]
        ring
  rw [general 0, Nat.zero_mul, Nat.zero_add]

/-- No run of digits or of letters goes on across a place of a text. -/
def Clear (t : Text) (place : Nat) : Prop := touches (t.take place) (t.drop place) = false

theorem clear_zero (t : Text) : t.Clear 0 := touches_nil_left _

/-- A place is clear unless the characters on its two sides are of one class. -/
theorem clear_iff {t : Text} {place : Nat} :
    t.Clear place ↔ ∀ i, i + 1 = place → ∀ c d, t[i]? = some c → t[place]? = some d →
      (c.isDigit && d.isDigit || c.isAlpha && d.isAlpha) = false := by
  unfold Clear touches
  rw [List.head?_drop]
  cases place with
  | zero => simp
  | succ i =>
      rw [List.getLast?_take, if_neg (Nat.succ_ne_zero i), Nat.add_sub_cancel]
      cases front : t[i]? with
      | none =>
          have behind : t[i + 1]? = none := by
            rw [List.getElem?_eq_none_iff] at front ⊢
            omega
          simp [behind]
      | some c => cases behind : t[i + 1]? <;> simp [front]

/-- The end of a word is clear if nothing behind it carries the word on. -/
theorem clear_behind {t w later : Text} {start : Nat} (here : t.drop start = w ++ later)
    (nonempty : w ≠ []) (apart : w.touches later = false) : t.Clear (start + w.length) := by
  have front : t.take (start + w.length) = t.take start ++ w := by
    rw [List.take_add, here, List.take_left]
  have back : t.drop (start + w.length) = later := by
    rw [← List.drop_drop, here, List.drop_left]
  rw [Clear, front, back, touches_append_left nonempty, apart]

/-- A run, told by what stands in a text from its start on. -/
theorem run_iff {inClass : Char → Bool} {t : Text} {start stop : Nat} :
    t.Run inClass start stop ↔
      (∃ w later, t.drop start = w ++ later ∧ w ≠ [] ∧ stop = start + w.length ∧
        (∀ c ∈ w, inClass c) ∧ later.head?.any inClass = false) ∧
      ∀ i c, i + 1 = start → t[i]? = some c → inClass c = false := by
  constructor
  · intro run
    have longer := run.nonempty
    have inside := run.inside
    refine ⟨⟨(t.drop start).take (stop - start), t.drop stop, ?_, ?_, ?_, ?_, ?_⟩, run.front⟩
    · have back : t.drop stop = (t.drop start).drop (stop - start) := by
        rw [List.drop_drop, Nat.add_sub_cancel' (Nat.le_of_lt longer)]
      rw [back, List.take_append_drop]
    · rw [← List.length_pos_iff, List.length_take, List.length_drop]
      omega
    · rw [List.length_take, List.length_drop]
      omega
    · intro c member
      obtain ⟨k, found⟩ := List.mem_iff_getElem?.mp member
      have short : k < stop - start := by
        have size := (List.getElem?_eq_some_iff.mp found).1
        rw [List.length_take] at size
        omega
      rw [List.getElem?_take_of_lt short, List.getElem?_drop] at found
      exact run.all (start + k) c (by omega) (by omega) found
    · rw [List.head?_drop]
      cases found : t[stop]? with
      | none => rfl
      | some c => exact run.behind c found
  · rintro ⟨⟨w, later, here, nonempty, rfl, all, ends⟩, front⟩
    have size : w.length ≤ t.length - start := by
      rw [← List.length_drop, here, List.length_append]
      omega
    have longer := List.length_pos_of_ne_nil nonempty
    refine ⟨by omega, by omega, ?_, front, ?_⟩
    · intro i c left right found
      exact all c (getElem?_part here left right found)
    · intro c found
      rw [getElem?_of_drop here, List.getElem?_append_right (Nat.le_refl _), Nat.sub_self,
        ← List.head?_eq_getElem?] at found
      rw [found] at ends
      exact ends

/-- A longest run is longest at its front where the text is clear. -/
theorem Clear.front {t : Text} {start : Nat} (clear : t.Clear start) {inClass : Char → Bool}
    (kind : inClass = Char.isDigit ∨ inClass = Char.isAlpha) {d : Char} (here : t[start]? = some d)
    (member : inClass d) : ∀ i c, i + 1 = start → t[i]? = some c → inClass c = false := by
  intro i c before found
  have apart := clear_iff.mp clear i before c d found here
  rcases kind with rfl | rfl <;> simp_all

/-- The runs of the front of a text, up to a clear place, are runs of the text. -/
theorem Run.of_take {t : Text} {place start stop : Nat} (clear : t.Clear place)
    (run : Run Char.isDigit (t.take place) start stop) : t.Run Char.isDigit start stop := by
  have inside := run.inside
  have longer := run.nonempty
  rw [List.length_take] at inside
  have same : ∀ i, i < stop → (t.take place)[i]? = t[i]? := fun i short =>
    List.getElem?_take_of_lt (by omega)
  have digits : ∀ i c, start ≤ i → i < stop → t[i]? = some c → c.isDigit := by
    intro i c left right found
    exact run.all i c left right (by rw [same i right, found])
  refine ⟨longer, by omega, digits, ?_, ?_⟩
  · intro i c before found
    exact run.front i c before (by rw [same i (by omega), found])
  · intro c found
    by_cases short : stop < place
    · exact run.behind c (by rw [List.getElem?_take_of_lt short, found])
    · -- the run ends at the place itself, with a digit in front of it
      obtain ⟨last, rfl⟩ := Nat.exists_eq_succ_of_ne_zero (Nat.ne_zero_of_lt longer)
      have atPlace : last + 1 = place := by omega
      obtain ⟨d, digit⟩ : ∃ d, t[last]? = some d :=
        ⟨_, List.getElem?_eq_getElem (by omega)⟩
      have apart := clear_iff.mp clear last atPlace d c digit (by rw [← atPlace, found])
      rw [digits last d (by omega) (Nat.lt_succ_self last) digit] at apart
      simp_all

end Text

namespace Scanner

/-! ## The words that are read -/

variable {s : Scanner} {w later : Text} {l : Lexeme}

/-- What a scanner skips is blank. -/
theorem blank_between {i : Nat} {c : Char} (left : s.pos ≤ i) (right : i < s.tokenStart)
    (found : s.text[i]? = some c) : Text.isBlank c :=
  List.mem_takeWhile_imp (Text.getElem?_part s.rest_eq left right found)

/-- The place where a token starts is clear if the place of the scanner is. -/
theorem clear_tokenStart (clear : s.text.Clear s.pos) : s.text.Clear s.tokenStart := by
  by_cases empty : s.rest.takeWhile Text.isBlank = []
  · rw [tokenStart, empty]
    exact clear
  · refine Text.clear_behind s.rest_eq empty ?_
    exact Text.touches_blank (fun c member => List.mem_takeWhile_imp member) _

/-- The digits or letters at a clear place, up to where they end, are a run. -/
theorem run_at {inClass : Char → Bool} (kind : inClass = Char.isDigit ∨ inClass = Char.isAlpha)
    {text : Text} {start : Nat} (clear : text.Clear start) (here : text.drop start = w ++ later)
    (nonempty : w ≠ []) (all : ∀ c ∈ w, inClass c) (ends : later.head?.any inClass = false) :
    text.Run inClass start (start + w.length) := by
  refine Text.run_iff.mpr ⟨⟨w, later, here, nonempty, rfl, all, ends⟩, ?_⟩
  obtain ⟨d, more, rfl⟩ := List.exists_cons_of_ne_nil nonempty
  refine clear.front kind (d := d) ?_ (all d List.mem_cons_self)
  rw [← List.head?_drop, here]
  rfl

/-- A word that is read stands in the text. -/
theorem stands_of_denotes {text : Text} {start : Nat} (clear : text.Clear start)
    (here : text.drop start = w ++ later) (denotes : Denotes w l)
    (apart : w.touches later = false) : Token.Stands text ⟨l, start, start + w.length⟩ := by
  cases denotes with
  | integer nonempty all few =>
      rw [Text.touches_run (.inl rfl) nonempty all] at apart
      refine ⟨run_at (.inl rfl) clear here nonempty all apart, ?_⟩
      rw [Text.slice_drop here, Text.decimal_eq]
  | identifier nonempty all =>
      rw [Text.touches_run (.inr rfl) nonempty all] at apart
      exact ⟨run_at (.inr rfl) clear here nonempty all apart, (Text.slice_drop here).symm⟩
  | symbol s =>
      refine ⟨rfl, ?_⟩
      rw [← List.head?_drop, here]
      rfl

/-- A token in front of tokens that cover the rest of a text. -/
theorem Covers.cons {text : Text} {place : Nat} {token : Token} {words : List Token}
    (stands : token.Stands text) (longer : token.start < token.stop) (forward : place ≤ token.start)
    (blank : ∀ i c, place ≤ i → i < token.start → text[i]? = some c → Text.isBlank c)
    (later : Covers text token.stop words) : Covers text place (token :: words) where
  stands := List.forall_mem_cons.mpr ⟨stands, later.stands⟩
  nonempty := List.forall_mem_cons.mpr ⟨longer, later.nonempty⟩
  ordered := List.pairwise_cons.mpr ⟨later.behind, later.ordered⟩
  behind := by
    refine List.forall_mem_cons.mpr ⟨forward, fun other member => ?_⟩
    have behind := later.behind other member
    omega
  blank := by
    intro i c left found outside
    rw [List.forall_mem_cons] at outside
    rcases outside with ⟨before | after, others⟩
    · exact blank i c left before found
    · exact later.blank i c after found others

/-- The tokens ahead of a scanner at a clear place cover the text from there on. -/
theorem ahead_covers (s : Scanner) (inside : s.pos ≤ s.text.length) (clear : s.text.Clear s.pos)
    (complete : s.ahead.2 = none) :
    ∃ words, s.ahead.1 = words ++ [⟨.endOfText, s.text.length, s.text.length⟩] ∧
      Covers s.text s.pos words := by
  induction s using reading_induction with
  | step s ih =>
      have reading := s.next_reading
      cases found : s.next with
      | error d after =>
          rw [ahead_refused found] at complete
          cases complete
      | ok token after =>
          rw [found] at reading
          rw [ahead_read found] at complete ⊢
          cases reading with
          | stop ended =>
              have last : s.tokenStart = s.text.length := by
                have size := congrArg List.length s.rest_eq
                rw [ended, List.append_nil, rest, List.length_drop] at size
                rw [tokenStart, rest, ← size]
                omega
              rw [last]
              refine ⟨[], rfl, by simp, by simp, .nil, by simp, fun i c left here _ => ?_⟩
              have short := (List.getElem?_eq_some_iff.mp here).1
              exact blank_between left (by omega) here
          | @word w later l here denotes apart =>
              have going : Token.kind ⟨l, s.tokenStart, s.tokenStart + w.length⟩ ≠ .endOfText :=
                denotes.kind_ne
              obtain ⟨-, longer, inside'⟩ := next_word found going
              rw [hold_going going] at complete ⊢
              obtain ⟨words, same, covers⟩ := ih _ _ found going inside'
                (Text.clear_behind here denotes.ne_nil apart) complete
              refine ⟨_ :: words, by rw [same]; rfl, .cons ?_ longer s.pos_le_tokenStart ?_ covers⟩
              · exact stands_of_denotes (clear_tokenStart clear) here denotes apart
              · exact fun i c left right => blank_between left right

/-! ## What a text is refused for -/

/-- A refusal has its reason in the text. -/
theorem offence_of_refused (s : Scanner) (clear : s.text.Clear s.pos) {d : Diagnostic}
    (refused : s.ahead.2 = some d) : ∃ start cause stop, Offence s.text cause start stop := by
  induction s using reading_induction with
  | step s ih =>
      have reading := s.next_reading
      cases found : s.next with
      | error d' after =>
          rw [found] at reading
          cases reading with
          | tooLong here all long apart =>
              have nonempty := List.ne_nil_of_length_pos (Nat.zero_lt_of_lt long)
              rw [Text.touches_run (.inl rfl) nonempty all] at apart
              have run := run_at (.inl rfl) (clear_tokenStart clear) here nonempty all apart
              exact ⟨_, _, _, .literalTooLong run (by rw [Nat.add_sub_cancel_left]; exact long)⟩
          | @foreign c later here digit letter symbol =>
              have first : s.text[s.tokenStart]? = some c := by
                rw [← List.head?_drop, here]
                rfl
              have plain : Text.isBlank c = false := by
                have head := Text.head?_dropWhile Text.isBlank s.rest
                rw [← Text.trimLeft, ← drop_tokenStart, here] at head
                exact head
              exact ⟨_, _, _, .invalidCharacter first
                (Text.not_readable_iff.mpr ⟨plain, digit, letter, symbol⟩)⟩
      | ok token after =>
          rw [found] at reading
          rw [ahead_read found] at refused
          cases reading with
          | stop ended => cases refused
          | @word w later l here denotes apart =>
              have going : Token.kind ⟨l, s.tokenStart, s.tokenStart + w.length⟩ ≠ .endOfText :=
                denotes.kind_ne
              rw [hold_going going] at refused
              exact ih _ ⟨s.text, s.tokenStart + w.length⟩ found going
                (Text.clear_behind here denotes.ne_nil apart) refused

variable {text : Text} {cause : Diagnostic.LexicalCause} {start stop : Nat}

theorem Offence.inside (offence : Offence text cause start stop) : start < text.length := by
  cases offence with
  | invalidCharacter here => exact (List.getElem?_eq_some_iff.mp here).1
  | literalTooLong run => exact Nat.lt_of_lt_of_le run.nonempty run.inside

theorem Offence.length_take (offence : Offence text cause start stop) :
    (text.take start).length = start := by
  rw [List.length_take]
  exact Nat.min_eq_left (Nat.le_of_lt offence.inside)

/-- No run goes on into an offence. -/
theorem Offence.clear (offence : Offence text cause start stop) : text.Clear start := by
  refine Text.clear_iff.mpr fun i before c d front here => ?_
  cases offence with
  | invalidCharacter here' foreign =>
      obtain rfl := Option.some.inj (here.symm.trans here')
      obtain ⟨-, digit, letter, -⟩ := Text.not_readable_iff.mp foreign
      simp [digit, letter]
  | literalTooLong run =>
      have digit := run.all start d (Nat.le_refl _) run.nonempty here
      have letter := Text.not_isAlpha_of_isDigit digit
      simp [run.front i c before front, letter]

/-- An offence is named at its place. -/
theorem Offence.refused (offence : Offence text cause start stop) :
    ahead ⟨text, start⟩ = ([], some (.lexical cause text start stop)) := by
  cases offence with
  | @invalidCharacter i c here foreign =>
      obtain ⟨plain, digit, letter, symbol⟩ := Text.not_readable_iff.mp foreign
      obtain ⟨more, front⟩ : ∃ more, text.drop start = c :: more := by
        rw [← List.head?_drop, List.head?_eq_some_iff] at here
        exact here
      refine @ahead_refused ⟨text, start⟩ ⟨text, start⟩ _ ?_
      rw [@next_at ⟨text, start⟩ c more front plain]
      exact (Reading.foreign front digit letter symbol).eq
  | literalTooLong run long =>
      obtain ⟨⟨w, later, here, nonempty, rfl, all, ends⟩, -⟩ := Text.run_iff.mp run
      obtain ⟨c, more, rfl⟩ := List.exists_cons_of_ne_nil nonempty
      have plain := Text.not_isBlank_of_isDigit (all c List.mem_cons_self)
      rw [Nat.add_sub_cancel_left] at long
      rw [← Text.touches_run (.inl rfl) nonempty all] at ends
      refine @ahead_refused ⟨text, start⟩ ⟨text, start + (c :: more).length⟩ _ ?_
      rw [@next_at ⟨text, start⟩ c (more ++ later) here plain]
      exact (Reading.tooLong here all long ends).eq

/-- The front of a text up to an offence has no offences but those of the text. -/
theorem Offence.of_take {place : Nat} (clear : text.Clear place)
    (offence : Offence (text.take place) cause start stop) : Offence text cause start stop := by
  cases offence with
  | invalidCharacter here foreign =>
      have short := (List.getElem?_eq_some_iff.mp here).1
      rw [List.length_take] at short
      rw [List.getElem?_take_of_lt (by omega)] at here
      exact .invalidCharacter here foreign
  | literalTooLong run long => exact .literalTooLong (run.of_take clear) long

/-- The tokens in front of an offence are those of the text that ends there. -/
theorem Offence.tokens_eq {words : List Token} (offence : Offence text cause start stop)
    (front : tokens (text.take start) = (words ++ [⟨.endOfText, start, start⟩], none)) :
    tokens text = (words, some (.lexical cause text start stop)) := by
  have alone : ahead ⟨text.take start, 0⟩ = (words ++ [⟨.endOfText, start, start⟩], none) := front
  have whole := @ahead_append ⟨text.take start, 0⟩ (text.drop start) (Nat.zero_le _) offence.clear
    (by rw [alone])
  dsimp only at whole
  rw [List.take_append_drop, offence.length_take, offence.refused, alone, List.dropLast_concat,
    List.append_nil] at whole
  exact whole

/-- A text is read up to its leftmost offence. -/
theorem Offence.leftmost (offence : Offence text cause start stop)
    (first : ∀ cause' start' stop', Offence text cause' start' stop' → start ≤ start') :
    ∃ words, tokens (text.take start) = (words ++ [⟨.endOfText, start, start⟩], none) := by
  have complete : (ahead ⟨text.take start, 0⟩).2 = none := by
    by_contra refused
    obtain ⟨d, refused⟩ := Option.ne_none_iff_exists'.mp refused
    obtain ⟨start', cause', stop', other⟩ :=
      offence_of_refused ⟨text.take start, 0⟩ (Text.clear_zero _) refused
    have inside := other.inside
    have forward := first _ _ _ (other.of_take offence.clear)
    dsimp only at inside
    rw [offence.length_take] at inside
    omega
  obtain ⟨words, found, -⟩ := ahead_covers ⟨text.take start, 0⟩ (Nat.zero_le _)
    (Text.clear_zero _) complete
  dsimp only at found
  rw [offence.length_take] at found
  exact ⟨words, Prod.ext found complete⟩

/-- A text with an offence has a leftmost one. -/
theorem exists_leftmost (offence : Offence text cause start stop) :
    ∃ cause start stop, Offence text cause start stop ∧
      ∀ cause' start' stop', Offence text cause' start' stop' → start ≤ start' := by
  classical
  have found : ∃ start cause stop, Offence text cause start stop := ⟨start, cause, stop, offence⟩
  obtain ⟨cause, stop, first⟩ := Nat.find_spec found
  exact ⟨cause, Nat.find found, stop, first,
    fun cause' start' stop' other => Nat.find_min' found ⟨cause', stop', other⟩⟩

/-- A text is read to its end unless there is an offence in it. -/
theorem complete_iff_no_offence (text : Text) :
    (tokens text).2 = none ↔ ∀ cause start stop, ¬ Offence text cause start stop := by
  constructor
  · intro complete cause start stop offence
    obtain ⟨cause, start, stop, offence, first⟩ := exists_leftmost offence
    obtain ⟨words, front⟩ := offence.leftmost first
    rw [offence.tokens_eq front] at complete
    cases complete
  · intro inoffensive
    by_contra refused
    obtain ⟨d, refused⟩ := Option.ne_none_iff_exists'.mp refused
    obtain ⟨start, cause, stop, offence⟩ :=
      offence_of_refused ⟨text, 0⟩ (Text.clear_zero _) refused
    exact inoffensive cause start stop offence

theorem no_offence_iff (text : Text) :
    (∀ cause start stop, ¬ Offence text cause start stop) ↔
      (∀ c ∈ text, Text.Readable c) ∧
      ∀ start stop, text.Run Char.isDigit start stop → stop - start ≤ 4300 := by
  constructor
  · intro inoffensive
    refine ⟨fun c member => ?_, fun start stop run => ?_⟩
    · by_contra foreign
      obtain ⟨i, here⟩ := List.mem_iff_getElem?.mp member
      exact inoffensive _ _ _ (.invalidCharacter here foreign)
    · by_contra long
      exact inoffensive _ _ _ (.literalTooLong run (Nat.lt_of_not_le long))
  · rintro ⟨readable, short⟩ cause start stop offence
    cases offence with
    | invalidCharacter here foreign => exact foreign (readable _ (List.mem_of_getElem? here))
    | literalTooLong run long => exact absurd (short _ _ run) (Nat.not_le_of_lt long)

/-- Scanning is exact over every text.  A text is read to its end if and only if each of its
characters can stand in a text and none of its runs of digits is too long.  The tokens then cover
the text, and the end of the text stands behind them.  Any other text is refused at its leftmost
offence, behind the tokens of the text that ends there. -/
theorem tokens_exact (text : Text) :
    ((tokens text).2 = none ↔ (∀ c ∈ text, Text.Readable c) ∧
      ∀ start stop, text.Run Char.isDigit start stop → stop - start ≤ 4300) ∧
    (∀ found, tokens text = (found, none) →
      ∃ words, found = words ++ [⟨.endOfText, text.length, text.length⟩] ∧ Covers text 0 words) ∧
    ∀ found d, tokens text = (found, some d) ↔
      ∃ cause start stop, d = .lexical cause text start stop ∧
        d.Marks .lexical text start stop ∧ d.message = cause.text ∧ Offence text cause start stop ∧
        (∀ cause' start' stop', Offence text cause' start' stop' → start ≤ start') ∧
        tokens (text.take start) = (found ++ [⟨.endOfText, start, start⟩], none) := by
  refine ⟨(complete_iff_no_offence text).trans (no_offence_iff text), ?_, ?_⟩
  · intro found read
    have alone : ahead ⟨text, 0⟩ = (found, none) := read
    obtain ⟨words, same, covers⟩ := ahead_covers ⟨text, 0⟩ (Nat.zero_le _) (Text.clear_zero _)
      (by rw [alone])
    rw [alone] at same
    exact ⟨words, same, covers⟩
  · intro found d
    constructor
    · intro read
      obtain ⟨start, cause, stop, offence⟩ :=
        offence_of_refused ⟨text, 0⟩ (Text.clear_zero _) (congrArg Prod.snd read)
      obtain ⟨cause, start, stop, offence, first⟩ := exists_leftmost offence
      obtain ⟨words, front⟩ := offence.leftmost first
      obtain ⟨rfl, same⟩ := Prod.ext_iff.mp ((offence.tokens_eq front).symm.trans read)
      obtain rfl := Option.some.inj same
      exact ⟨cause, start, stop, rfl, Diagnostic.lexical_marks _ _ _ _,
        Diagnostic.lexical_message _ _ _ _, offence, first, front⟩
    · rintro ⟨cause, start, stop, rfl, -, -, offence, -, front⟩
      exact offence.tokens_eq front

/-- A superscript digit is no digit but an offence, and the words in front of it are read. -/
theorem tokens_exact_superscript :
    let text := " x07\u00a0=2²3".toList
    let words : List Token := [⟨.identifier "x".toList, 1, 2⟩, ⟨.integer 7, 2, 4⟩,
      ⟨.symbol .assign, 5, 6⟩, ⟨.integer 2, 6, 7⟩]
    (∀ c ∈ text.take 7, Text.Readable c) ∧ Covers (text.take 7) 0 words ∧
      ∃ cause, Offence text cause 7 8 ∧
        ∀ cause' start' stop', Offence text cause' start' stop' → 7 ≤ start' := by
  intro text words
  have refused : tokens text = (words, some (.lexical (.invalidCharacter '²') text 7 8)) := by
    decide +kernel
  obtain ⟨cause, start, stop, -, marks, -, offence, first, front⟩ :=
    ((tokens_exact text).2.2 _ _).mp refused
  obtain rfl : 7 = start := Int.ofNat.inj marks.start
  obtain rfl : 8 = stop := Int.ofNat.inj marks.stop
  obtain ⟨complete, covered, -⟩ := tokens_exact (text.take 7)
  obtain ⟨words', same, covers⟩ := covered _ front
  obtain rfl : words = words' := (List.append_inj' same rfl).1
  exact ⟨(complete.mp (congrArg Prod.snd front)).1, covers, cause, offence, first⟩

end Scanner

end Abacus
