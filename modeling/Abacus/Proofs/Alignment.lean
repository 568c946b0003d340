/- # Cursors whose tokens do not overlap

The current token, the one that is held back and the unread part of the text come one behind the
other (`Cursor.Aligned`).  This is so from the start on (`Cursor.aligned_start`), and every
operation keeps it, whether it succeeds or fails (`Cursor.Aligned.step`).  So a move that succeeds
makes a token current that starts behind the one before, unless this was the end of the text. -/
import Abacus.Proofs.Requests

namespace Abacus
set_option autoImplicit false

/-- A token takes up characters, unless it is the end of the text. -/
structure Token.Proper (token : Token) : Prop where
  start_le : token.start ≤ token.stop
  longer : token.kind ≠ .endOfText → token.start < token.stop

theorem Scanner.answer_proper {s : Scanner} {token : Token} (read : s.answer = .ok token) :
    s.pos ≤ token.start ∧ token.Proper ∧ token.stop = s.behind.pos := by
  have next := s.next_eq
  rw [read] at next
  obtain ⟨-, forward, stop⟩ := next_ok next
  have step := s.next_step
  rw [next] at step
  generalize s.behind = after at step stop
  refine ⟨forward, ?_, stop⟩
  cases step with
  | stop last => exact ⟨Nat.le_refl _, fun going => absurd rfl going⟩
  | word valid longer inside => exact ⟨Nat.le_of_lt longer, fun _ => longer⟩

namespace Cursor

/-- The tokens of a cursor and the unread part of its text come one behind the other. -/
structure Aligned (text : Text) (c : Cursor) : Prop where
  source : c.scanner.text = text
  inside : c.scanner.pos ≤ text.length
  current : c.current.Proper
  held : ∀ token, c.peeked = some token →
    c.current.stop ≤ token.start ∧ token.Proper ∧ token.stop ≤ c.scanner.pos
  unread : c.peeked = none → c.current.stop ≤ c.scanner.pos

namespace Aligned

variable {text : Text} {c : Cursor}

theorem start_le (aligned : c.Aligned text) : c.current.start ≤ text.length := by
  have proper := aligned.current.start_le
  have inside := aligned.inside
  cases held : c.peeked with
  | none =>
      have unread := aligned.unread held
      omega
  | some token =>
      obtain ⟨apart, other, before⟩ := aligned.held token held
      have proper' := other.start_le
      omega

/-- The scanner behind a request. -/
theorem behind (aligned : c.Aligned text) :
    c.scanner.behind.text = text ∧ c.scanner.behind.pos ≤ text.length := by
  have inside := aligned.inside
  rw [← aligned.source] at inside
  have inside' := Scanner.behind_le inside
  rw [aligned.source] at inside'
  exact ⟨c.scanner.behind_text.trans aligned.source, inside'⟩

/-- What an operation leaves is aligned, whether it succeeds or fails. -/
theorem step (aligned : c.Aligned text) (op : Operation) : (remains (op.run c)).Aligned text := by
  have can := c.step op
  obtain ⟨source, inside⟩ := aligned.behind
  generalize op.run c = result at can
  cases can with
  | show_held held => exact aligned
  | look empty read =>
      obtain ⟨forward, proper, stop⟩ := Scanner.answer_proper read
      have unread := aligned.unread empty
      refine ⟨source, inside, aligned.current, fun token held => ?_, fun held => by cases held⟩
      obtain rfl := Option.some.inj held
      exact ⟨Nat.le_trans unread forward, proper, Nat.le_of_eq stop⟩
  | take_held moves held =>
      obtain ⟨-, proper, before⟩ := aligned.held _ held
      exact ⟨aligned.source, aligned.inside, proper, fun _ other => (by cases other),
        fun _ => before⟩
  | take moves empty read =>
      obtain ⟨-, proper, stop⟩ := Scanner.answer_proper read
      refine ⟨source, inside, proper, fun _ other => ?_, fun _ => Nat.le_of_eq stop⟩
      cases empty.symm.trans other
  | refused empty refusal =>
      have unread := aligned.unread empty
      refine ⟨source, inside, aligned.current, fun _ other => ?_, fun _ => ?_⟩
      · cases empty.symm.trans other
      · exact Nat.le_trans unread c.scanner.pos_le_behind
  | rejected token => exact aligned

/-- A move makes a token current that starts behind the one that was current before. -/
theorem moved (aligned : c.Aligned text) {op : Operation} (moves : op.moves = true)
    {shown : Option Token} {there : Cursor} (done : op.run c = .ok shown there) :
    c.current.stop ≤ there.current.start := by
  have can := c.step op
  rw [done] at can
  cases can with
  | show_held held => cases moves
  | look empty read => cases moves
  | take_held _ held => exact (aligned.held _ held).1
  | take _ empty read =>
      exact Nat.le_trans (aligned.unread empty) (Scanner.answer_proper read).1

end Aligned

/-- An operation fails with a diagnostic. -/
theorem fails_diagnosed {c there : Cursor} {op : Operation} {e : Failure}
    (failed : op.run c = .error e there) : ∃ d, e = .diagnosed d := by
  have can := c.step op
  rw [failed] at can
  cases can with
  | refused empty refusal => exact ⟨_, rfl⟩
  | rejected token => exact ⟨_, rfl⟩

namespace Aligned

variable {text : Text} {c : Cursor}

theorem advance (aligned : c.Aligned text) (going : c.current.kind ≠ .endOfText) :
    (∃ after, Cursor.advance c = .ok () after ∧ after.Aligned text ∧
      c.current.start < after.current.start) ∨
    ∃ d after, Cursor.advance c = .error (.diagnosed d) after ∧ after.Aligned text := by
  have kept := aligned.step .advance
  have longer := aligned.current.longer going
  cases result : Cursor.advance c with
  | ok _ after =>
      have done : Operation.advance.run c = .ok none after := by
        rw [Operation.run, bind_apply, result]
        rfl
      have behind := aligned.moved rfl done
      rw [done] at kept
      exact .inl ⟨after, rfl, kept, by omega⟩
  | error e after =>
      have failed : Operation.advance.run c = .error e after := by
        rw [Operation.run, bind_apply, result]
      obtain ⟨d, rfl⟩ := fails_diagnosed failed
      rw [failed] at kept
      exact .inr ⟨d, after, rfl, kept⟩

theorem expect (aligned : c.Aligned text) (kind : Token.Kind) (going : kind ≠ .endOfText) :
    (∃ after, Cursor.expect kind c = .ok c.current after ∧ after.Aligned text ∧
      c.current.start < after.current.start) ∨
    ∃ d after, Cursor.expect kind c = .error (.diagnosed d) after ∧ after.Aligned text := by
  by_cases fits : c.current.kind = kind
  · rw [expect_eq fits]
    rcases aligned.advance (by rwa [fits]) with ⟨after, result, kept⟩ | ⟨d, after, result, kept⟩
    · exact .inl ⟨after, by rw [result], kept⟩
    · exact .inr ⟨d, after, by rw [result], kept⟩
  · rw [Cursor.expect, if_neg fits]
    exact .inr ⟨_, c, rfl, aligned⟩

theorem peek (aligned : c.Aligned text) :
    (∃ token after, Cursor.peek c = .ok token after ∧ after.Aligned text ∧
      after.current = c.current) ∨
    ∃ d after, Cursor.peek c = .error (.diagnosed d) after ∧ after.Aligned text := by
  have kept := aligned.step .peek
  have can := c.step .peek
  cases result : Cursor.peek c with
  | ok token after =>
      have done : Operation.peek.run c = .ok (some token) after := by
        rw [Operation.run, bind_apply, result]
        rfl
      rw [done] at kept can
      refine .inl ⟨token, after, rfl, kept, ?_⟩
      cases can with
      | show_held _ | look _ _ => rfl
      | take_held moves _ | take moves _ _ => cases moves
  | error e after =>
      have failed : Operation.peek.run c = .error e after := by
        rw [Operation.run, bind_apply, result]
      obtain ⟨d, rfl⟩ := fails_diagnosed failed
      rw [failed] at kept
      exact .inr ⟨d, after, rfl, kept⟩

end Aligned

theorem aligned_start {text : Text} {c : Cursor} (started : start text = .ok c) :
    c.Aligned text := by
  rw [start, Scanner.next_eq] at started
  cases read : Scanner.answer ⟨text, 0⟩ with
  | error d =>
      rw [read] at started
      cases started
  | ok token =>
      rw [read] at started
      cases started
      obtain ⟨-, proper, stop⟩ := Scanner.answer_proper read
      have inside := Scanner.behind_le (s := ⟨text, 0⟩) (Nat.zero_le _)
      exact ⟨Scanner.behind_text _, inside, proper, fun _ other => (by cases other),
        fun _ => Nat.le_of_eq stop⟩

end Cursor
end Abacus
