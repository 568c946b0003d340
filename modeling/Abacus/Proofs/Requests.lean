/- # Requests one after the other

A scanner that is asked for token after token, whatever its answers were, never goes back and never
leaves its text.  An answer is last (`Scanner.Answer.Last`) if it is the end of the text or the
refusal of a character; all other answers, words and runs of too many digits, take up characters.

`Scanner.Move` lists the three things that a request can do to the position, and everything else is
read off it.  A last answer leaves the scanner where the next request finds the same again
(`Scanner.behind_of_last`), so that one last answer settles all that follow.  There always is one:
before it every request takes up a character, and a text has only so many.  The main result is
`Scanner.requests_settle`. -/
import Abacus.Proofs.Concatenation
import Abacus.Proofs.LookAhead

namespace Abacus
set_option autoImplicit false

open Diagnostic (LexicalCause)

namespace Scanner

/-- Whether nothing can come behind an answer: it is the end of the text, or there is a character
that starts no word. -/
def Answer.Last : Answer → Prop
  | .ok token => token.kind = .endOfText
  | .error d => ∃ c, d.message = (LexicalCause.invalidCharacter c).text

/-- Where a fresh scanner stands after the first requests. -/
def reached (text : Text) (n : Nat) : Nat := (behind^[n] ⟨text, 0⟩).pos

/-! ## One request -/

/-- What a request does to the position. -/
inductive Move (s : Scanner) : Answer → Nat → Prop
  | word {token : Token} (going : token.kind ≠ .endOfText) (longer : s.tokenStart < token.stop)
      (inside : token.stop ≤ s.text.length) : Move s (.ok token) token.stop
  | tooLong {start stop : Nat} (longer : s.tokenStart < stop) (inside : stop ≤ s.text.length) :
      Move s (.error (.lexical .literalTooLong s.text start stop)) stop
  | stay {answer : Answer} (last : answer.Last) : Move s answer s.tokenStart

theorem behind_text (s : Scanner) : s.behind.text = s.text := by
  have reading := s.next_reading
  unfold behind
  generalize s.next = result at reading
  cases reading <;> rfl

/-- The run at the front of what stands at a place ends inside the text. -/
theorem run_inside {text run later : Text} {start : Nat} (here : text.drop start = run ++ later)
    (nonempty : run ≠ []) : start < start + run.length ∧ start + run.length ≤ text.length := by
  have size := congrArg List.length here
  rw [List.length_drop, List.length_append] at size
  have positive := List.length_pos_iff.mpr nonempty
  omega

theorem move (s : Scanner) : Move s s.answer s.behind.pos := by
  have reading := s.next_reading
  unfold answer behind
  generalize s.next = result at reading
  cases reading with
  | stop ended => exact .stay rfl
  | word here denotes apart =>
      obtain ⟨longer, inside⟩ := run_inside here denotes.ne_nil
      exact .word denotes.kind_ne longer inside
  | tooLong here all long apart =>
      obtain ⟨longer, inside⟩ :=
        run_inside here (List.ne_nil_of_length_pos (Nat.zero_lt_of_lt long))
      exact .tooLong longer inside
  | @foreign c later here digit letter symbol => exact .stay ⟨c, rfl⟩

theorem tokenStart_le {s : Scanner} (inside : s.pos ≤ s.text.length) :
    s.tokenStart ≤ s.text.length := by
  have short : (s.rest.takeWhile Text.isBlank).length ≤ s.rest.length :=
    (List.takeWhile_sublist _).length_le
  rw [rest, List.length_drop] at short
  rw [tokenStart, rest]
  omega

/-- A request never moves back. -/
theorem pos_le_behind (s : Scanner) : s.pos ≤ s.behind.pos := by
  have forward := s.pos_le_tokenStart
  have moved := s.move
  generalize s.answer = answer, s.behind.pos = pos at moved
  cases moved with
  | word going longer inside => omega
  | tooLong longer inside => omega
  | stay last => exact forward

theorem behind_le {s : Scanner} (inside : s.pos ≤ s.text.length) :
    s.behind.pos ≤ s.text.length := by
  have start := tokenStart_le inside
  have moved := s.move
  generalize s.answer = answer, s.behind.pos = pos at moved
  cases moved with
  | word going longer inside => exact inside
  | tooLong longer inside => exact inside
  | stay last => exact start

/-! ## Last answers -/

/-- The two refusals are worded differently, from the third character on. -/
theorem literalTooLong_ne (c : Char) :
    LexicalCause.literalTooLong.text ≠ (LexicalCause.invalidCharacter c).text := by
  intro same
  have inside : 2 < "invalid character ".toList.length := by decide +kernel
  have first : LexicalCause.literalTooLong.text[2]? = some 't' := by decide +kernel
  have second : (LexicalCause.invalidCharacter c).text[2]? = some 'v' :=
    (List.getElem?_append_left inside).trans (by decide +kernel)
  have both : some 't' = some 'v' :=
    (first.symm.trans (congrArg (fun t : Text => t[2]?) same)).trans second
  exact absurd both (by decide)

theorem not_last_tooLong {d : Diagnostic} (message : d.message = LexicalCause.literalTooLong.text) :
    ¬ Answer.Last (.error d) := by
  rintro ⟨c, other⟩
  exact literalTooLong_ne c (message.symm.trans other)

/-- An answer that is not the last one takes up characters. -/
theorem pos_lt_behind {s : Scanner} (going : ¬ s.answer.Last) : s.pos < s.behind.pos := by
  have forward := s.pos_le_tokenStart
  have moved := s.move
  generalize s.answer = answer, s.behind.pos = pos at moved going
  cases moved with
  | word _ longer inside => omega
  | tooLong longer inside => omega
  | stay last => exact absurd last going

/-- Blanks that were skipped need not be skipped again. -/
theorem tokenStart_skipped (s : Scanner) : tokenStart ⟨s.text, s.tokenStart⟩ = s.tokenStart := by
  have empty : (rest ⟨s.text, s.tokenStart⟩).takeWhile Text.isBlank = [] := by
    have front : rest ⟨s.text, s.tokenStart⟩ = [] ++ s.rest.trimLeft := drop_tokenStart s
    rw [front]
    exact Text.takeWhile_class (by simp) (Text.head?_dropWhile _ _)
  rw [tokenStart, empty]
  rfl

/-- Behind a last answer the scanner stands in front of the same again. -/
theorem behind_of_last {s : Scanner} (last : s.answer.Last) :
    s.behind = ⟨s.text, s.tokenStart⟩ := by
  have text := s.behind_text
  have pos : s.behind.pos = s.tokenStart := by
    have moved := s.move
    generalize s.answer = answer, s.behind.pos = pos at moved last
    cases moved with
    | word going => exact absurd last going
    | tooLong => exact absurd last (not_last_tooLong rfl)
    | stay _ => rfl
  rw [← text, ← pos]

/-- The same is answered again, and the scanner stays. -/
theorem again_of_last {s : Scanner} (last : s.answer.Last) :
    s.behind.answer = s.answer ∧ s.behind.behind = s.behind := by
  have again : s.behind.next = s.next := by
    rw [behind_of_last last, next, tokenStart_skipped, next]
  refine ⟨by rw [answer, answer, again], ?_⟩
  rw [behind, again, behind]

/-! ## Many requests -/

theorem iterate_behind_text (text : Text) (n : Nat) : (behind^[n] ⟨text, 0⟩).text = text := by
  induction n with
  | zero => rfl
  | succ n ih => rw [Function.iterate_succ_apply', behind_text, ih]

theorem reached_succ (text : Text) (n : Nat) :
    reached text (n + 1) = (behind^[n] ⟨text, 0⟩).behind.pos := by
  rw [reached, Function.iterate_succ_apply']

theorem outcome_move (text : Text) (n : Nat) :
    Move (behind^[n] ⟨text, 0⟩) (outcome text n) (reached text (n + 1)) := by
  rw [reached_succ]
  exact move _

theorem reached_le_succ (text : Text) (n : Nat) : reached text n ≤ reached text (n + 1) := by
  rw [reached_succ]
  exact pos_le_behind _

theorem reached_le (text : Text) (n : Nat) : reached text n ≤ text.length := by
  induction n with
  | zero => exact Nat.zero_le _
  | succ n ih =>
      have same := iterate_behind_text text n
      have inside := behind_le (s := behind^[n] ⟨text, 0⟩) (by rw [same]; exact ih)
      rw [reached_succ]
      rwa [same] at inside

theorem reached_lt_succ {text : Text} {n : Nat} (going : ¬ (outcome text n).Last) :
    reached text n < reached text (n + 1) := by
  rw [reached_succ]
  exact pos_lt_behind going

/-- A last answer comes in time: a text has no more answers before it than characters. -/
theorem exists_last (text : Text) : ∃ n ≤ text.length, (outcome text n).Last := by
  by_contra never
  push Not at never
  have far : ∀ n ≤ text.length + 1, n ≤ reached text n := by
    intro n
    induction n with
    | zero => exact fun _ => Nat.zero_le _
    | succ n ih =>
        intro le
        have before := ih (Nat.le_of_succ_le le)
        have longer := reached_lt_succ (never n (Nat.le_of_succ_le_succ le))
        omega
  have beyond := far (text.length + 1) (Nat.le_refl _)
  have inside := reached_le text (text.length + 1)
  omega

/-- After a last answer nothing changes any more. -/
theorem settled {text : Text} {n m : Nat} (last : (outcome text n).Last) (later : n ≤ m) :
    outcome text m = outcome text n ∧ reached text (m + 1) = reached text (n + 1) := by
  obtain ⟨same, stays⟩ := again_of_last last
  obtain ⟨k, rfl⟩ := Nat.exists_eq_add_of_le' later
  have fixed : ∀ k, behind^[k] (behind (behind^[n] ⟨text, 0⟩)) = behind (behind^[n] ⟨text, 0⟩) :=
    Function.iterate_fixed stays
  constructor
  · cases k with
    | zero => rw [Nat.zero_add]
    | succ k =>
        rw [outcome, Nat.add_right_comm, Nat.add_assoc, Function.iterate_add_apply,
          Function.iterate_succ_apply', fixed]
        exact same
  · rw [reached, reached, Nat.add_assoc, Function.iterate_add_apply, Function.iterate_succ_apply',
      fixed]

/-- Any number of requests are made on a scanner, going on whatever it answers:

* its position never decreases and never exceeds the length of the text;
* a word, and a run of too many digits, end with the position behind where it was and at the end of
  the span that is reported;
* once the end of the text is reached or a character is refused, all later answers are the same and
  the position stays where this one left it;
* this happens after no more requests than the text has characters. -/
theorem requests_settle (text : Text) :
    (∀ n, reached text n ≤ reached text (n + 1) ∧ reached text n ≤ text.length) ∧
    (∀ n token, outcome text n = .ok token → token.kind ≠ .endOfText →
      reached text n < reached text (n + 1) ∧ reached text (n + 1) = token.stop) ∧
    (∀ n d, outcome text n = .error d → d.message = LexicalCause.literalTooLong.text →
      reached text n < reached text (n + 1) ∧ (reached text (n + 1) : Int) = d.stop) ∧
    (∀ n m, (outcome text n).Last → n ≤ m →
      outcome text m = outcome text n ∧ reached text (m + 1) = reached text (n + 1)) ∧
    ∃ n ≤ text.length, (outcome text n).Last := by
  refine ⟨fun n => ⟨reached_le_succ text n, reached_le text n⟩, ?_, ?_, fun n m => settled,
    exists_last text⟩
  · intro n token answered going
    refine ⟨reached_lt_succ (by rw [answered]; exact going), ?_⟩
    have moved := outcome_move text n
    rw [answered] at moved
    generalize reached text (n + 1) = pos at moved
    cases moved with
    | word => rfl
    | stay last => exact absurd last going
  · intro n d answered message
    have going := not_last_tooLong message
    refine ⟨reached_lt_succ (by rw [answered]; exact going), ?_⟩
    have moved := outcome_move text n
    rw [answered] at moved
    generalize reached text (n + 1) = pos at moved
    cases moved with
    | tooLong => rfl
    | stay last => exact absurd last going

/-- A name, more digits than an integer may have, and behind a blank a character that starts no
word: the digits are passed, the character never is. -/
theorem requests_settle_digits :
    let run : Text := List.replicate 4301 '7'
    let text : Text := 'x' :: (run ++ [' ', '$'])
    reached text 1 = 1 ∧ reached text 2 = 4302 ∧
      ∀ m, 2 ≤ m → outcome text m = .error (.lexical (.invalidCharacter '$') text 4303 4304) ∧
        reached text (m + 1) = 4303 := by
  intro run text
  have size : run.length = 4301 := List.length_replicate
  have digits : ∀ c ∈ run, c.isDigit := fun c member => by
    rw [List.eq_of_mem_replicate member]
    decide
  clear_value run
  have nonempty : run ≠ [] := List.ne_nil_of_length_pos (by omega)
  obtain ⟨c, more, cut⟩ := List.exists_cons_of_ne_nil nonempty
  have digit := digits c (by simp [cut])
  have name : next ⟨text, 0⟩ = .ok ⟨.identifier ['x'], 0, 1⟩ ⟨text, 1⟩ := by
    have apart : Text.touches ['x'] (run ++ [' ', '$']) = false := by
      have letter := Text.not_isAlpha_of_isDigit digit
      rw [Text.touches_run (.inr rfl) (by simp) (by simp), cut]
      simp [letter]
    have here : rest ⟨text, 0⟩ = ['x'] ++ (run ++ [' ', '$']) := rfl
    rw [next_at here (by decide)]
    exact Reading.eq (.word here (.identifier (by simp) (by simp)) apart)
  have integer : next ⟨text, 1⟩ = .error (.lexical .literalTooLong text 1 4302) ⟨text, 4302⟩ := by
    have here : rest ⟨text, 1⟩ = run ++ [' ', '$'] := rfl
    have here' : rest ⟨text, 1⟩ = c :: (more ++ [' ', '$']) := by
      rw [here, cut]
      rfl
    have apart : run.touches [' ', '$'] = false := by
      rw [Text.touches_run (.inl rfl) nonempty digits]
      decide
    rw [next_at here' (Text.not_isBlank_of_isDigit digit)]
    have reading := Reading.tooLong here digits (by rw [size]; decide) apart
    rw [size] at reading
    exact reading.eq
  have foreign : next ⟨text, 4302⟩ =
      .error (.lexical (.invalidCharacter '$') text 4303 4304) ⟨text, 4303⟩ := by
    have here : rest ⟨text, 4302⟩ = [' ', '$'] := by
      have dropped : (run ++ [' ', '$']).drop run.length = [' ', '$'] := List.drop_left
      rwa [size] at dropped
    have here' : rest ⟨text, 4303⟩ = ['$'] := by
      have dropped : (text.drop 4302).drop 1 = ['$'] := congrArg (List.drop 1) here
      rwa [List.drop_drop] at dropped
    rw [next_blank here (by decide), next_at here' (by decide)]
    refine Reading.eq (.foreign here' (by decide) (by decide) fun s => ?_)
    cases s <;> decide
  have first : outcome text 0 = .ok ⟨.identifier ['x'], 0, 1⟩ := by
    rw [outcome, Function.iterate_zero_apply, answer, name]
  have second : outcome text 1 = .error (.lexical .literalTooLong text 1 4302) := by
    rw [outcome, Function.iterate_succ_apply', Function.iterate_zero_apply, behind, name, answer,
      integer]
  have there : behind^[2] ⟨text, 0⟩ = ⟨text, 4302⟩ := by
    simp [behind, name, integer]
  have third : outcome text 2 = .error (.lexical (.invalidCharacter '$') text 4303 4304) := by
    rw [outcome, there, answer, foreign]
  have final : reached text 3 = 4303 := by
    rw [reached_succ, there, behind, foreign]
  obtain ⟨-, words, runs, settles, -⟩ := requests_settle text
  refine ⟨(words 0 _ first (by simp [Token.kind, Token.Lexeme.kind])).2, ?_, fun m later => ?_⟩
  · exact Int.ofNat.inj (runs 1 _ second rfl).2
  · have same := settles 2 m (by rw [third]; exact ⟨'$', rfl⟩) later
    rwa [third, final] at same

end Scanner
end Abacus
