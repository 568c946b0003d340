/- # The token behind the current one

A cursor asks its scanner for one token at a time and may hold one of them back behind the current
one.  None of this is seen by those who use it: whatever operations are carried out, and whichever
of them fail, the answers of the scanner arrive in the order in which they are given, each of them
once.

What arrives is told by the operations alone (`Cursor.delivered`): the tokens that become current,
and the refusals with which operations fail.  `Cursor.Step` lists what one operation can do, and
from it follows the law that every operation keeps (`Cursor.Follows.step`): what has arrived and
the token that is held back are together the answers to the requests made so far.  The main result
is `Cursor.look_ahead_transparent`. -/
import Abacus.Proofs.Parsing

namespace Abacus
set_option autoImplicit false

namespace Scanner

/-! ## Requests -/

/-- What a scanner says to a request: the next token, or why there is none. -/
abbrev Answer := Except Diagnostic Token

def answer (s : Scanner) : Answer :=
  match s.next with
  | .ok token _ => .ok token
  | .error d _ => .error d

/-- A scanner after the next request, whatever the answer. -/
def behind (s : Scanner) : Scanner :=
  match s.next with
  | .ok _ after => after
  | .error _ after => after

theorem next_eq (s : Scanner) :
    s.next = match s.answer with
      | .ok token => .ok token s.behind
      | .error d => .error d s.behind := by
  unfold answer behind
  cases s.next <;> rfl

theorem answer_refused {s : Scanner} {d : Diagnostic} (refused : s.answer = .error d) :
    d.kind = .lexical := by
  have read := s.next_eq
  rw [refused] at read
  obtain ⟨start, stop, marks⟩ := next_refused read
  exact marks.kind

/-- The answer to request number `n`, the first one having the number 0, of those made on a fresh
scanner. -/
def outcome (text : Text) (n : Nat) : Answer := (behind^[n] ⟨text, 0⟩).answer

def outcomes (text : Text) (n : Nat) : List Answer := (List.range n).map (outcome text)

theorem outcomes_succ (text : Text) (n : Nat) :
    outcomes text (n + 1) = outcomes text n ++ [outcome text n] := by
  simp [outcomes, List.range_succ]

end Scanner

namespace Cursor

open Scanner (Answer outcome outcomes behind)

/-! ## Operations -/

inductive Operation where
  | peek
  | advance
  | expect (kind : Token.Kind)
  /-- Fails on account of a token, the current one unless another one is given. -/
  | reject (token : Option Token)

namespace Operation

/-- Carries an operation out.  Its answer is the token that it shows or takes, if any. -/
def run : Operation → Action (Option Token)
  | peek => do return some (← Cursor.peek)
  | advance => do Cursor.advance; return none
  | expect kind => do return some (← Cursor.expect kind)
  | reject token => fun c => .error (c.rejection (token.getD c.current)) c

def moves : Operation → Bool
  | advance | expect _ => true
  | peek | reject _ => false

/-- What arrives with the result of an operation: the token that a move makes current, or the
refusal of the scanner that the operation fails with. -/
def arrival (op : Operation) : EStateM.Result Failure Cursor (Option Token) → List Answer
  | .ok _ after => if op.moves then [.ok after.current] else []
  | .error (.diagnosed d) _ => if d.kind = .lexical then [.error d] else []
  | .error _ _ => []

theorem arrival_moved {op : Operation} (moves : op.moves = true) (shown : Option Token)
    (there : Cursor) : op.arrival (.ok shown there) = [.ok there.current] := if_pos moves

theorem arrival_shown (shown : Option Token) (there : Cursor) :
    peek.arrival (.ok shown there) = [] := rfl

theorem arrival_refused (op : Operation) {d : Diagnostic} (lexical : d.kind = .lexical)
    (there : Cursor) : op.arrival (.error (.diagnosed d) there) = [.error d] := if_pos lexical

theorem arrival_rejected (op : Operation) (c there : Cursor) (token : Token) :
    op.arrival (.error (c.rejection token) there) = [] := by
  have kind := Scanner.rejection_kind c.scanner.text token
  simp [rejection, arrival, kind]

end Operation

/-- A cursor after operations, whatever became of them. -/
def after (ops : List Operation) (c : Cursor) : Cursor :=
  ops.foldl (fun c op => remains (op.run c)) c

/-- What arrives through operations, one behind the other. -/
def delivered : List Operation → Cursor → List Answer
  | [], _ => []
  | op :: ops, c => op.arrival (op.run c) ++ delivered ops (remains (op.run c))

@[simp] theorem after_nil (c : Cursor) : after [] c = c := rfl

@[simp] theorem after_cons (op : Operation) (ops : List Operation) (c : Cursor) :
    after (op :: ops) c = after ops (remains (op.run c)) := rfl

@[simp] theorem delivered_nil (c : Cursor) : delivered [] c = [] := rfl

@[simp] theorem delivered_cons (op : Operation) (ops : List Operation) (c : Cursor) :
    delivered (op :: ops) c = op.arrival (op.run c) ++ delivered ops (remains (op.run c)) := rfl

/-! ## What one operation can do -/

theorem peek_held {c : Cursor} {token : Token} (held : c.peeked = some token) :
    peek c = .ok token c := by
  rw [peek, held]

theorem advance_held {c : Cursor} {token : Token} (held : c.peeked = some token) :
    advance c = .ok () { c with current := token, peeked := none } := by
  rw [advance, held]

/-- Where no token is held back, the scanner is asked for the one to show. -/
theorem peek_asks {c : Cursor} (empty : c.peeked = none) :
    peek c = match c.scanner.answer with
      | .ok token => .ok token { c with scanner := c.scanner.behind, peeked := some token }
      | .error d => .error (.diagnosed d) { c with scanner := c.scanner.behind } := by
  rw [peek, empty, Scanner.next_eq]
  cases c.scanner.answer <;> rfl

/-- Where no token is held back, the scanner is asked for the one to move to. -/
theorem advance_asks {c : Cursor} (empty : c.peeked = none) :
    advance c = match c.scanner.answer with
      | .ok token => .ok () { c with scanner := c.scanner.behind, current := token }
      | .error d => .error (.diagnosed d) { c with scanner := c.scanner.behind } := by
  rw [advance, empty, Scanner.next_eq]
  cases c.scanner.answer <;> rfl

/-- What an operation can come to. -/
inductive Step (c : Cursor) : Operation → EStateM.Result Failure Cursor (Option Token) → Prop
  | show_held {token : Token} (held : c.peeked = some token) : Step c .peek (.ok (some token) c)
  | look {token : Token} (empty : c.peeked = none) (read : c.scanner.answer = .ok token) :
      Step c .peek
        (.ok (some token) { c with scanner := c.scanner.behind, peeked := some token })
  | take_held {op : Operation} {token : Token} {shown : Option Token} (moves : op.moves)
      (held : c.peeked = some token) :
      Step c op (.ok shown { c with current := token, peeked := none })
  | take {op : Operation} {token : Token} {shown : Option Token} (moves : op.moves)
      (empty : c.peeked = none) (read : c.scanner.answer = .ok token) :
      Step c op (.ok shown { c with scanner := c.scanner.behind, current := token })
  | refused {op : Operation} {d : Diagnostic} (empty : c.peeked = none)
      (refusal : c.scanner.answer = .error d) :
      Step c op (.error (.diagnosed d) { c with scanner := c.scanner.behind })
  | rejected {op : Operation} (token : Token) : Step c op (.error (c.rejection token) c)

theorem peek_step (c : Cursor) : Step c .peek (Operation.peek.run c) := by
  simp only [Operation.run, bind_apply]
  cases held : c.peeked with
  | some token =>
      rw [peek_held held]
      exact .show_held held
  | none =>
      rw [peek_asks held]
      cases read : c.scanner.answer with
      | ok token => exact .look held read
      | error d => exact .refused held read

theorem advance_step {op : Operation} (moves : op.moves = true) (shown : Option Token)
    (c : Cursor) :
    Step c op
      (match advance c with
      | .ok _ after => .ok shown after
      | .error e after => .error e after) := by
  cases held : c.peeked with
  | some token =>
      rw [advance_held held]
      exact .take_held moves held
  | none =>
      rw [advance_asks held]
      cases read : c.scanner.answer with
      | ok token => exact .take moves held read
      | error d => exact .refused held read

theorem expect_step (kind : Token.Kind) (c : Cursor) :
    Step c (.expect kind) ((Operation.expect kind).run c) := by
  simp only [Operation.run, bind_apply]
  by_cases fits : c.current.kind = kind
  · have moved : Step c (.expect kind) _ := advance_step rfl (some c.current) c
    rw [expect_eq fits]
    cases result : advance c <;> rwa [result] at moved
  · rw [expect, if_neg fits]
    exact .rejected c.current

/-- What one operation can do. -/
theorem step (c : Cursor) (op : Operation) : Step c op (op.run c) := by
  cases op with
  | peek => exact peek_step c
  | advance =>
      simp only [Operation.run, bind_apply]
      have moved : Step c .advance _ := advance_step rfl none c
      cases result : advance c <;> rwa [result] at moved
  | expect kind => exact expect_step kind c
  | reject token => exact .rejected (token.getD c.current)

/-- An operation that fails leaves the current token and the one that is held back. -/
theorem fails_in_place {c there : Cursor} {op : Operation} {e : Failure}
    (failed : op.run c = .error e there) :
    there.current = c.current ∧ there.peeked = c.peeked := by
  have can := c.step op
  rw [failed] at can
  cases can <;> exact ⟨rfl, rfl⟩

/-! ## What arrives -/

/-- The answers so far that have arrived at a cursor on a text. -/
structure Follows (text : Text) (arrived : List Answer) (c : Cursor) : Prop where
  /-- Together with the token that is held back they are the answers to the first requests. -/
  answers : ∃ n, c.scanner = behind^[n] ⟨text, 0⟩ ∧
    arrived ++ c.peeked.toList.map Except.ok = outcomes text n
  /-- Nothing but refusals arrived behind the current token. -/
  current : ∃ earlier refusals : List Answer,
    arrived = earlier ++ Except.ok c.current :: refusals ∧
    ∀ answer ∈ refusals, ∃ d, answer = Except.error d

namespace Follows

variable {text : Text} {arrived : List Answer} {c : Cursor}

/-- Where no token is held back, the next answer is the one that is due. -/
theorem request (follows : Follows text arrived c) (empty : c.peeked = none) :
    ∃ n, c.scanner.behind = behind^[n] ⟨text, 0⟩ ∧
      arrived ++ [c.scanner.answer] = outcomes text n := by
  obtain ⟨n, scanner, answers⟩ := follows.answers
  refine ⟨n + 1, by rw [scanner, Function.iterate_succ_apply'], ?_⟩
  rw [empty, Option.toList_none, List.map_nil, List.append_nil] at answers
  rw [Scanner.outcomes_succ, ← answers, scanner]
  rfl

/-- A token arrives and becomes current. -/
theorem moved {scanner : Scanner} {token : Token}
    (answers : ∃ n, scanner = behind^[n] ⟨text, 0⟩ ∧
      arrived ++ [Except.ok token] = outcomes text n) :
    Follows text (arrived ++ [Except.ok token]) ⟨scanner, token, none⟩ := by
  obtain ⟨n, requested, same⟩ := answers
  exact ⟨⟨n, requested, by simpa using same⟩, arrived, [], rfl, by simp⟩

/-- What one operation keeps. -/
theorem step (follows : Follows text arrived c) (op : Operation) :
    Follows text (arrived ++ op.arrival (op.run c)) (remains (op.run c)) := by
  have can := c.step op
  generalize op.run c = result at can
  cases can with
  | show_held held => rwa [Operation.arrival_shown, List.append_nil]
  | look empty read =>
      obtain ⟨n, requested, same⟩ := follows.request empty
      rw [read] at same
      rw [Operation.arrival_shown, List.append_nil]
      exact ⟨⟨n, requested, same⟩, follows.current⟩
  | take_held moves held =>
      have due := follows.answers
      rw [held] at due
      rw [Operation.arrival_moved moves]
      exact moved due
  | take moves empty read =>
      have due := follows.request empty
      rw [read] at due
      rw [Operation.arrival_moved moves, empty]
      exact moved due
  | @refused _ d empty refusal =>
      obtain ⟨n, requested, same⟩ := follows.request empty
      obtain ⟨earlier, refusals, split, refused⟩ := follows.current
      rw [refusal] at same
      rw [Operation.arrival_refused op (Scanner.answer_refused refusal), remains, empty]
      refine ⟨⟨n, requested, by simpa using same⟩, earlier, refusals ++ [.error d], ?_, ?_⟩
      · rw [split, List.append_assoc, List.cons_append]
      · simpa [or_imp, forall_and] using refused
  | rejected token => rwa [Operation.arrival_rejected, List.append_nil]

/-- What operations keep. -/
theorem run (follows : Follows text arrived c) (ops : List Operation) :
    Follows text (arrived ++ delivered ops c) (after ops c) := by
  induction ops generalizing arrived c with
  | nil => simpa using follows
  | cons op ops ih =>
      rw [delivered_cons, after_cons, ← List.append_assoc]
      exact ih (follows.step op)

end Follows

/-- A fresh cursor has read the first token. -/
theorem follows_start {text : Text} {first : Token} (readable : outcome text 0 = .ok first) :
    ∃ c, start text = .ok c ∧ c.current = first ∧ Follows text [.ok first] c := by
  have read := Scanner.next_eq ⟨text, 0⟩
  rw [show Scanner.answer ⟨text, 0⟩ = .ok first from readable] at read
  refine ⟨⟨behind ⟨text, 0⟩, first, none⟩, by rw [start, read], rfl, ?_, [], [], rfl, by simp⟩
  exact ⟨1, rfl, by simp [outcomes, readable]⟩

/-! ## The token that is held back -/

/-- While a token is held back and no move is made, nothing changes. -/
theorem after_eq_of_held {c : Cursor} {token : Token} (held : c.peeked = some token)
    (ops : List Operation) (still : ∀ other, .ok other ∉ delivered ops c) : after ops c = c := by
  induction ops with
  | nil => rfl
  | cons op ops ih =>
      have can := c.step op
      rw [delivered_cons] at still
      rw [after_cons]
      generalize op.run c = result at can still
      cases can with
      | show_held held => exact ih still
      | take_held moves held =>
          rw [Operation.arrival_moved moves] at still
          exact absurd (List.mem_append_left _ (List.mem_singleton_self _)) (still _)
      | rejected token =>
          rw [Operation.arrival_rejected] at still
          exact ih still
      -- the scanner is not asked
      | look empty _ | take _ empty _ | refused empty _ => rw [held] at empty; cases empty

/-- What is shown is held back. -/
theorem peek_ok {c there : Cursor} {token : Token} (looked : peek c = .ok token there) :
    there.peeked = some token := by
  have can := c.step .peek
  rw [Operation.run, bind_apply, looked] at can
  cases can with
  | show_held held => exact held
  | look _ _ => rfl
  | take_held moves _ | take moves _ _ => cases moves

theorem expect_held {c there : Cursor} {kind : Token.Kind} {token taken : Token}
    (held : c.peeked = some token) (moved : expect kind c = .ok taken there) :
    there.current = token := by
  have can := c.step (.expect kind)
  rw [Operation.run, bind_apply, moved] at can
  cases can with
  | take_held _ other => exact Option.some.inj (other.symm.trans held)
  | take _ empty _ => rw [held] at empty; cases empty

/-- The token that is held back is never noticed.  Whatever operations are carried out on a cursor
at the first token of a text, and whichever of them fail:

* what has arrived, and the token that is held back, are the answers to the first requests on a
  fresh scanner, in the same order, and the scanner stands behind these requests;
* what came behind the current token are refusals, and then no more than the token held back;
* where no token is held back, looking ahead and moving on both come to the answer that is due;
* an operation that fails leaves the current token and the one that is held back;
* a token that was looked at is shown again and again until it becomes current, and the next move
  that succeeds makes it current. -/
theorem look_ahead_transparent {text : Text} {first : Token}
    (readable : outcome text 0 = .ok first) :
    ∃ c, start text = .ok c ∧ c.current = first ∧ ∀ (ops : List Operation) (here : Cursor),
      after ops c = here →
      (∃ (n : Nat) (earlier refusals : List Answer), here.scanner = behind^[n] ⟨text, 0⟩ ∧
        outcomes text n = Except.ok first :: delivered ops c ++ here.peeked.toList.map Except.ok ∧
        Except.ok first :: delivered ops c = earlier ++ Except.ok here.current :: refusals ∧
        (∀ answer ∈ refusals, ∃ d, answer = Except.error d) ∧
        (here.peeked = none →
          (∀ token, outcome text n = .ok token → (∃ there, peek here = .ok token there) ∧
            ∃ there, advance here = .ok () there ∧ there.current = token) ∧
          ∀ d, outcome text n = .error d → (∃ there, peek here = .error (.diagnosed d) there) ∧
            ∃ there, advance here = .error (.diagnosed d) there)) ∧
      (∀ (op : Operation) (e : Failure) (there : Cursor), op.run here = .error e there →
        there.current = here.current ∧ there.peeked = here.peeked) ∧
      ∀ (token : Token) (there : Cursor), peek here = .ok token there →
        ∀ more, (∀ other, .ok other ∉ delivered more there) →
          peek (after more there) = .ok token (after more there) ∧
          (∃ final, advance (after more there) = .ok () final ∧ final.current = token) ∧
          ∀ kind taken final, expect kind (after more there) = .ok taken final →
            final.current = token := by
  obtain ⟨c, started, current, follows⟩ := follows_start readable
  refine ⟨c, started, current, ?_⟩
  rintro ops here rfl
  refine ⟨?_, fun op e there => fails_in_place, ?_⟩
  · obtain ⟨⟨n, requested, answers⟩, earlier, refusals, split, refused⟩ := follows.run ops
    refine ⟨n, earlier, refusals, requested, answers.symm, split, refused, fun empty => ?_⟩
    rw [outcome, ← requested, peek_asks empty, advance_asks empty]
    refine ⟨fun token read => ?_, fun d refusal => ?_⟩
    · rw [read]
      exact ⟨⟨_, rfl⟩, _, rfl, rfl⟩
    · rw [refusal]
      exact ⟨⟨_, rfl⟩, _, rfl⟩
  · intro token there looked more still
    have held := peek_ok looked
    rw [after_eq_of_held held more still]
    exact ⟨peek_held held, ⟨_, advance_held held, rfl⟩, fun _ _ _ => expect_held held⟩

/-- Behind `x` a parenthesis is looked at, then looked at again, and `x` is rejected.  The
parenthesis stays what the next move makes current, whereas the character behind it is refused every
time. -/
theorem look_ahead_transparent_parenthesis :
    outcome "x )$".toList 0 = .ok ⟨.identifier ['x'], 0, 1⟩ ∧
      ∃ c there final, start "x )$".toList = .ok c ∧
        peek c = .ok ⟨.symbol .closeParen, 2, 3⟩ there ∧
        advance (after [.peek, .reject none] there) = .ok () final ∧
        final.current = ⟨.symbol .closeParen, 2, 3⟩ ∧
        ∃ n, outcomes "x )$".toList n =
          .ok ⟨.identifier ['x'], 0, 1⟩ :: delivered [.peek, .advance, .peek, .peek] c := by
  have readable : outcome "x )$".toList 0 = .ok ⟨.identifier ['x'], 0, 1⟩ := by cbv
  refine ⟨readable, ?_⟩
  obtain ⟨c, started, -, all⟩ := look_ahead_transparent readable
  obtain rfl : ⟨⟨"x )$".toList, 1⟩, ⟨.identifier ['x'], 0, 1⟩, none⟩ = c := by
    have computed : start "x )$".toList =
        .ok ⟨⟨"x )$".toList, 1⟩, ⟨.identifier ['x'], 0, 1⟩, none⟩ := by cbv
    exact Except.ok.inj (computed.symm.trans started)
  obtain ⟨⟨n, -, -, -, answers, -⟩, -⟩ := all [.peek, .advance, .peek, .peek] _ rfl
  obtain ⟨-, -, held⟩ := all [] _ rfl
  let looked : Cursor :=
    ⟨⟨"x )$".toList, 3⟩, ⟨.identifier ['x'], 0, 1⟩, some ⟨.symbol .closeParen, 2, 3⟩⟩
  have nothing : delivered [.peek, .reject none] looked = [] := by cbv
  obtain ⟨-, ⟨final, moved, current⟩, -⟩ :=
    held ⟨.symbol .closeParen, 2, 3⟩ looked (by cbv) [.peek, .reject none] (by simp [nothing])
  exact ⟨_, _, final, started, by cbv, moved, current, n, answers⟩

end Cursor
end Abacus
