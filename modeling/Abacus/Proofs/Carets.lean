/- # Where a caret line points

A text that is no expression is answered by a diagnostic with a span.  `Tree.PointsAt` says what
stands there: the character that can stand in no text, all of a run of too many digits, the token at
which the text gets stuck, or, where only its end is missing something, one blank that is added to
the text.

The span is never empty and never leaves the source that goes with it.  So the caret line is what it
should be: the source with the span painted, and underneath a caret and as many tildes as fill the
span, painted as well (`Text.Marked`).  This holds for any paint: with one that changes nothing the
caret line is plain, and nothing outside the span and the carets ever goes through it.  All of this
is `Tree.parse_error_points`. -/
import Abacus.Proofs.ExactTokens

namespace Abacus
set_option autoImplicit false

open Token (Lexeme lexemes)

/-- A line with a part that is painted. -/
structure Text.Marked where
  front : Text
  marked : Text
  back : Text

namespace Text.Marked

def printed (l : Marked) (paint : Text → Text) : Text := l.front ++ paint l.marked ++ l.back

/-- A line with all traces of paint left out. -/
def plain (l : Marked) : Text := l.front ++ l.marked ++ l.back

/-- Paint that changes nothing leaves no traces. -/
theorem printed_id (l : Marked) : l.printed id = l.plain := rfl

end Text.Marked

namespace Tree

/-- What a diagnostic of a text points at: the characters `w` of its source, from `start` up to
`stop`. -/
inductive PointsAt (text : Text) (d : Diagnostic) (start stop : Nat) (w : Text) : Prop
  | character {c : Char} (kind : d.kind = .lexical) (source : d.source = text)
      (foreign : ¬ Text.Readable c) (same : w = [c])
  | digits (kind : d.kind = .lexical) (source : d.source = text)
      (run : text.Run Char.isDigit start stop) (long : 4300 < w.length)
  | token {k : Nat} {token : Token} (kind : d.kind = .invalidSyntax) (source : d.source = text)
      (here : (Scanner.tokens text).1[k]? = some token)
      (span : token.start = start ∧ token.stop = stop) (denotes : Denotes w token.lexeme)
      (viable : Viable .expression (lexemes ((Scanner.tokens text).1.take k)))
      (stuck : ¬ Viable .expression (lexemes ((Scanner.tokens text).1.take (k + 1))))
  | added {found : List Token} {last : Token} (kind : d.kind = .invalidSyntax)
      (source : d.source = text ++ [' ']) (span : start = text.length) (same : w = [' '])
      (tokens : Scanner.tokens text = (found ++ [last], none)) (ends : last.kind = .endOfText)
      (viable : Viable .expression (lexemes found))
      (stuck : ¬ ∃ t, Derives .expression (lexemes found) t)

end Tree

/-! ## The caret line of a span -/

namespace Text

theorem place_natCast (t : Text) (n : Nat) : t.place n = n := by
  rw [place, if_neg (by omega), Int.toNat_natCast]

theorem copies_natCast (n : Nat) (c : Char) : copies n c = List.replicate n c := by
  rw [copies, Int.toNat_natCast]

end Text

/-- The caret line of a span that is not empty and lies inside the source. -/
theorem Diagnostic.caret_eq {d : Diagnostic} {start : Nat} {w later : Text}
    (first : d.start = start) (last : d.stop = (start + w.length : Nat))
    (inside : start ≤ d.source.length) (here : d.source.drop start = w ++ later)
    (nonempty : w ≠ []) :
    ∃ above below : Text.Marked,
      (∀ paint, d.caret paint = (above.printed paint).line ++ below.printed paint) ∧
      above.plain = "  ".toList ++ d.source ∧
      above.front.length = start + 2 ∧ above.marked = w ∧
      below.plain = List.replicate (start + 2) ' ' ++ '^' :: List.replicate (w.length - 1) '~' ∧
      below.front.length = start + 2 ∧
      below.marked = '^' :: List.replicate (w.length - 1) '~' := by
  have long := List.length_pos_iff.mpr nonempty
  refine ⟨⟨"  ".toList ++ d.source.take start, w, later⟩,
    ⟨List.replicate (start + 2) ' ', '^' :: List.replicate (w.length - 1) '~', []⟩,
    ?_, ?_, ?_, rfl, ?_, ?_, rfl⟩
  · intro paint
    have lower : min d.start d.source.length = start := by
      rw [first]
      omega
    have upper : max d.stop (start + 1) = (start + w.length : Nat) := by
      rw [last]
      omega
    have width : ((start + w.length : Nat) : Int) - start - 1 = (w.length - 1 : Nat) := by omega
    have behind : d.source.drop (start + w.length) = later := by
      rw [← List.drop_drop, here, List.drop_left]
    unfold caret
    dsimp only
    rw [lower, upper, width, Text.slice_drop here, Text.before, Text.after, Text.place_natCast,
      Text.place_natCast, behind, Text.copies_natCast, Text.copies_natCast]
    simp [Text.Marked.printed, Text.line, List.replicate_succ]
  · simp [Text.Marked.plain, ← here]
  · simp [inside]
  · simp [Text.Marked.plain]
  · simp

namespace Scanner

/-! ## The places of tokens and refusals -/

/-- The characters of a token. -/
theorem ahead_denotes (s : Scanner) {token : Token} (member : token ∈ s.ahead.1)
    (going : token.kind ≠ .endOfText) :
    ∃ w later, s.text.drop token.start = w ++ later ∧ Denotes w token.lexeme ∧
      token.stop = token.start + w.length := by
  induction s using reading_induction with
  | step s ih =>
      have reading := s.next_reading
      cases found : s.next with
      | error d after =>
          rw [ahead_refused found] at member
          cases member
      | ok first after =>
          rw [found] at reading
          rw [ahead_read found] at member
          cases reading with
          | stop ended =>
              obtain rfl := List.mem_singleton.mp member
              exact absurd rfl going
          | @word w later l here denotes apart =>
              have word : Token.kind ⟨l, s.tokenStart, s.tokenStart + w.length⟩ ≠ .endOfText :=
                denotes.kind_ne
              rw [hold_going word] at member
              rcases List.mem_cons.mp member with rfl | behind
              · exact ⟨w, later, here, denotes, rfl⟩
              · exact ih _ ⟨s.text, s.tokenStart + w.length⟩ found word behind

/-- A text is refused for an offence, at its place. -/
theorem offence_of_tokens {text : Text} {d : Diagnostic} (refused : (tokens text).2 = some d) :
    ∃ cause start stop, Offence text cause start stop ∧ d = .lexical cause text start stop := by
  obtain ⟨start, cause, stop, offence⟩ := offence_of_refused ⟨text, 0⟩ (Text.clear_zero _) refused
  obtain ⟨cause, start, stop, offence, first⟩ := exists_leftmost offence
  obtain ⟨words, front⟩ := offence.leftmost first
  rw [offence.tokens_eq front] at refused
  exact ⟨cause, start, stop, offence, (Option.some.inj refused).symm⟩

end Scanner

namespace Tree

/-- What a diagnostic points at stands in its source. -/
structure Spans (text : Text) (d : Diagnostic) (start : Nat) (w later : Text) : Prop where
  first : d.start = start
  last : d.stop = (start + w.length : Nat)
  here : d.source.drop start = w ++ later
  nonempty : w ≠ []
  points : PointsAt text d start (start + w.length) w

theorem spans_offence {text : Text} {cause : Diagnostic.LexicalCause} {start stop : Nat}
    (offence : Scanner.Offence text cause start stop) :
    ∃ w later, Spans text (.lexical cause text start stop) start w later := by
  cases offence with
  | @invalidCharacter _ c here foreign =>
      rw [← List.head?_drop, List.head?_eq_some_iff] at here
      obtain ⟨later, here⟩ := here
      exact ⟨[c], later, rfl, rfl, here, by simp, .character rfl rfl foreign rfl⟩
  | literalTooLong run long =>
      obtain ⟨⟨w, later, here, nonempty, rfl, -⟩, -⟩ := Text.run_iff.mp run
      rw [Nat.add_sub_cancel_left] at long
      exact ⟨w, later, rfl, rfl, here, nonempty, .digits rfl rfl run long⟩

theorem spans_rejection {text : Text} {k : Nat} {token : Token}
    (here : (Scanner.tokens text).1[k]? = some token)
    (viable : Viable .expression (lexemes ((Scanner.tokens text).1.take k)))
    (stuck : Stuck (lexemes ((Scanner.tokens text).1.take k)) token.lexeme) :
    ∃ start w later, Spans text (.rejection text token) start w later := by
  rw [stuck_iff here] at stuck
  unfold Diagnostic.rejection
  split
  · rename_i ends
    rw [if_pos ends] at stuck
    obtain ⟨size, complete⟩ := Scanner.tokens_last here ends
    have tokens : Scanner.tokens text = ((Scanner.tokens text).1.take k ++ [token], none) := by
      obtain ⟨inside, rfl⟩ := List.getElem?_eq_some_iff.mp here
      rw [List.take_append_getElem, size, List.take_length, ← complete]
    exact ⟨text.length, [' '], [], rfl, rfl, by simp, by simp,
      .added rfl rfl rfl rfl tokens ends viable stuck⟩
  · rename_i going
    rw [if_neg going] at stuck
    have member := List.mem_of_getElem? here
    rw [Scanner.tokens_eq_ahead] at member
    obtain ⟨w, later, characters, denotes, stop⟩ := Scanner.ahead_denotes _ member going
    exact ⟨token.start, w, later, rfl, by rw [stop], characters, denotes.ne_nil,
      .token rfl rfl here ⟨rfl, stop⟩ denotes viable stuck⟩

/-- A diagnostic of a text points at what is wrong with the text: at a part of its source that is
not empty.  This part is painted, and so are the caret and the tildes underneath, but nothing else
is. -/
theorem parse_error_points {depth : Nat} {text : Text} {d : Diagnostic}
    (failed : parse depth text = .error (.diagnosed d)) :
    ∃ (start stop : Nat) (w : Text), d.start = start ∧ d.stop = stop ∧ start < stop ∧
      stop ≤ d.source.length ∧ d.source.slice start stop = w ∧ PointsAt text d start stop w ∧
      ∃ above below : Text.Marked,
        (∀ paint, d.caret paint = (above.printed paint).line ++ below.printed paint) ∧
        d.caret id = above.plain.line ++ below.plain ∧
        above.plain = "  ".toList ++ d.source ∧
        above.front.length = start + 2 ∧ above.marked = w ∧
        below.plain =
          List.replicate (start + 2) ' ' ++ '^' :: List.replicate (stop - start - 1) '~' ∧
        below.front.length = start + 2 ∧
        below.marked = '^' :: List.replicate (stop - start - 1) '~' := by
  have spans : ∃ start w later, Spans text d start w later := by
    have verdict := parse_verdict depth text
    rw [failed] at verdict
    cases verdict with
    | rejected here viable stuck => exact spans_rejection here viable stuck
    | refused refusal viable =>
        obtain ⟨cause, start, stop, offence, rfl⟩ := Scanner.offence_of_tokens refusal
        exact ⟨start, spans_offence offence⟩
  obtain ⟨start, w, later, first, last, here, nonempty, points⟩ := spans
  have long := List.length_pos_iff.mpr nonempty
  have size := congrArg List.length here
  rw [List.length_drop, List.length_append] at size
  refine ⟨start, start + w.length, w, first, last, by omega, by omega, Text.slice_drop here, points,
    ?_⟩
  rw [Nat.add_sub_cancel_left]
  obtain ⟨above, below, caret, lines⟩ :=
    Diagnostic.caret_eq first last (by omega) here nonempty
  refine ⟨above, below, caret, ?_, lines⟩
  rw [caret, Text.Marked.printed_id, Text.Marked.printed_id]

/-- Where an operand is missing at the end, behind blanks, a blank is added to point at. -/
theorem parse_error_points_missing_operand :
    ∃ d, parse 20 "2 * ( ".toList = .error (.diagnosed d) ∧ d.source = "2 * (  ".toList ∧
      PointsAt "2 * ( ".toList d 6 7 [' '] ∧ ∀ paint, d.caret paint =
        "  2 * ( ".toList ++ paint [' '] ++ ['\n'] ++ "  ".toList ++ "      ".toList ++
          paint ['^'] := by
  have failed : parse 20 "2 * ( ".toList =
      .error (.diagnosed (.rejection "2 * ( ".toList ⟨.endOfText, 6, 6⟩)) := by cbv
  obtain ⟨start, stop, w, first, last, -, -, same, points, -⟩ := parse_error_points failed
  obtain rfl : start = 6 := by
    have place : (6 : Int) = start := first
    omega
  obtain rfl : stop = 7 := by
    have place : (7 : Int) = stop := last
    omega
  obtain rfl : [' '] = w := same
  exact ⟨_, failed, rfl, points, fun _ => rfl⟩

end Tree
end Abacus
