/- # What logging changes

A session that logs its messages reads all tokens of a line before it parses the line.  So it comes
upon a part of the line that is no token even where parsing would have stopped earlier.  Apart from
the log this is all that logging changes: the two ways of queueing a line leave the same session and
the same places, and fail together (`Desk.add_logging`).  They fail differently exactly if what
stands before the first part that is no token could not be completed any more. -/
import Abacus.Proofs.SessionSteps

namespace Abacus
set_option autoImplicit false

open Token (lexemes)

theorem Scanner.tokens?_eq_error_iff {text : Text} {refusal : Diagnostic} :
    tokens? text = .error refusal ↔ (tokens text).2 = some refusal := by
  rw [tokens?]
  split
  · rename_i same
    rw [same]
    simp
  · rename_i same
    rw [same]
    simp

/-- A text with a part that is no token is not parsed. -/
theorem Tree.parse_refused (depth : Nat) {text : Text} {refusal : Diagnostic}
    (refused : (Scanner.tokens text).2 = some refusal) : ∃ e, parse depth text = .error e := by
  cases parsed : parse depth text with
  | error e => exact ⟨e, rfl⟩
  | ok t =>
      obtain ⟨found, stop, tokens, -⟩ := derives_of_parse parsed
      rw [tokens] at refused
      cases refused

namespace Desk

def unlogged (d : Desk) : Desk := { d with console := { d.console with log := [] } }

variable {α : Type}

def failure? : EStateM.Result Failure Desk α → Option Failure
  | .ok _ _ => none
  | .error e _ => some e

/-- What an operation left but for the log. -/
def leaves : EStateM.Result Failure Desk α → Desk
  | .ok _ d => d.unlogged
  | .error _ d => d.unlogged

/-- An operation came to the same in two ways, but for the log. -/
def Agree (first second : EStateM.Result Failure Desk α) : Prop :=
  failure? first = failure? second ∧ leaves first = leaves second

/-- Without the log, queueing with messages is reading all tokens first. -/
theorem add_debug (depth : Nat) (text : Text) (line : Int) (d : Desk) :
    (∃ tokens, Scanner.tokens? text = .ok tokens ∧
      Agree (add ⟨depth, true⟩ text line d) (add ⟨depth, false⟩ text line d)) ∨
    ∃ refusal, Scanner.tokens? text = .error refusal ∧
      add ⟨depth, true⟩ text line d =
        .error (.diagnosed refusal) (d.mark ⟨some text, some line⟩) := by
  have steps : add ⟨depth, true⟩ text line d =
      (do
        noteTokens ⟨depth, true⟩ text line
        let tree ← MonadExcept.ofExcept (Tree.parse depth text)
        let shown ← MonadExcept.ofExcept (tree.display depth 0)
        note ⟨depth, true⟩ line ("tree:\n".toList ++ shown)
        onSession fun s => { s with queue := s.queue.insert line (text, tree) }
        endLine : Action Unit) (d.mark ⟨some text, some line⟩) := rfl
  rw [steps, bind_apply, noteTokens, if_pos rfl]
  cases Scanner.tokens? text with
  | error refusal => exact .inr ⟨refusal, rfl, rfl⟩
  | ok tokens =>
      refine .inl ⟨tokens, rfl, ?_⟩
      rw [add_eq]
      cases Tree.parse depth text with
      | error e => exact ⟨rfl, rfl⟩
      | ok tree =>
          show Agree ((MonadExcept.ofExcept (tree.display depth 0) >>= _ : Action Unit) _) _
          rw [bind_apply]
          dsimp only
          cases tree.display depth 0 with
          | error e => exact ⟨rfl, rfl⟩
          | ok shown =>
              refine ⟨rfl, ?_⟩
              have lifted := mark_mark ⟨d.unlogged.console,
                { d.session with queue := d.session.queue.insert line (text, tree) }⟩
                ⟨some text, some line⟩ {}
              exact lifted

theorem add_unparsed {depth : Nat} {text : Text} {e : Failure}
    (failed : Tree.parse depth text = .error e) (line : Int) (d : Desk) :
    add ⟨depth, false⟩ text line d = .error e (d.mark ⟨some text, some line⟩) := by
  rw [add_eq, failed]

/-- With and without messages, queueing a line leaves the same behind but for the log.  Where the
nesting is not too deep it also fails alike, unless a part of the line is no token and what stands
before it cannot be completed: then the messages make it fail with this part, and else it fails with
an earlier token. -/
theorem add_logging (depth : Nat) (text : Text) (line : Int) (d : Desk)
    (shallow : Tree.parse depth text ≠ .error .tooDeep) :
    leaves (add ⟨depth, true⟩ text line d) = leaves (add ⟨depth, false⟩ text line d) ∧
    (failure? (add ⟨depth, true⟩ text line d) = failure? (add ⟨depth, false⟩ text line d) ↔
      ∀ refusal, (Scanner.tokens text).2 = some refusal →
        Viable .expression (lexemes (Scanner.tokens text).1)) ∧
    ∀ refusal, (Scanner.tokens text).2 = some refusal →
      failure? (add ⟨depth, true⟩ text line d) = some (.diagnosed refusal) ∧
      (¬ Viable .expression (lexemes (Scanner.tokens text).1) →
        ∃ (k : Nat) (token : Token), (Scanner.tokens text).1[k]? = some token ∧
          failure? (add ⟨depth, false⟩ text line d) =
            some (.diagnosed (.rejection text token))) := by
  rcases add_debug depth text line d with ⟨tokens, read, agree⟩ | ⟨refusal, refused, logged⟩
  · have complete : (Scanner.tokens text).2 = none := by
      rw [Scanner.tokens?_eq_ok_iff.mp read]
    refine ⟨agree.2, ⟨fun _ refusal stops => ?_, fun _ => agree.1⟩, fun refusal stops => ?_⟩
    · rw [complete] at stops
      cases stops
    · rw [complete] at stops
      cases stops
  · have stops := Scanner.tokens?_eq_error_iff.mp refused
    obtain ⟨start, stop, lexical⟩ := Scanner.tokens_refused stops
    obtain ⟨e, failed⟩ := Tree.parse_refused depth stops
    have verdict := Tree.parse_verdict depth text
    have quiet := add_unparsed failed line d
    have same := verdict.refused_iff shallow lexical.kind
    rw [failed] at verdict same
    rw [logged, quiet]
    refine ⟨rfl, ⟨fun equal _ _ => ?_, fun viable => ?_⟩, fun refusal' stops' => ?_⟩
    · have equal : .diagnosed refusal = e := Option.some.inj equal
      exact (same.mp (congrArg Except.error equal.symm)).2
    · have equal := same.mpr ⟨stops, viable refusal stops⟩
      exact congrArg Option.some (Except.error.inj equal).symm
    · obtain rfl := Option.some.inj (stops.symm.trans stops')
      refine ⟨rfl, fun dead => ?_⟩
      cases verdict with
      | rejected here viable stuck => exact ⟨_, _, here, rfl⟩
      | refused _ viable => exact absurd viable dead
      | tooDeep short => exact absurd failed shallow

/-- Two integers in a row are rejected at the second one, but not before the messages have come upon
the character behind them. -/
theorem add_logging_late_character :
    Tree.parse 20 "1 2 &".toList ≠ .error .tooDeep ∧
    failure? (add ⟨20, true⟩ "1 2 &".toList 1 ⟨{}, { path := Session.typedPath }⟩) =
      some (.diagnosed (.lexical (.invalidCharacter '&') "1 2 &".toList 4 5)) ∧
    leaves (add ⟨20, true⟩ "1 2 &".toList 1 ⟨{}, { path := Session.typedPath }⟩) =
      leaves (add ⟨20, false⟩ "1 2 &".toList 1 ⟨{}, { path := Session.typedPath }⟩) := by
  have parsed : Tree.parse 20 "1 2 &".toList =
      .error (.diagnosed (.rejection "1 2 &".toList ⟨.integer 2, 2, 3⟩)) := by cbv
  have shallow : Tree.parse 20 "1 2 &".toList ≠ .error .tooDeep := by
    rw [parsed]
    simp
  have tokens : (Scanner.tokens "1 2 &".toList).2 =
      some (.lexical (.invalidCharacter '&') "1 2 &".toList 4 5) := by decide +kernel
  obtain ⟨same, -, refused⟩ :=
    add_logging 20 "1 2 &".toList 1 ⟨{}, { path := Session.typedPath }⟩ shallow
  exact ⟨shallow, (refused _ tokens).1, same⟩

/-- Messages change the kind of a failure. -/
theorem add_changed_by_logging :
    ∃ first second,
      failure? (add ⟨20, true⟩ "1 2 &".toList 1 ⟨{}, { path := Session.typedPath }⟩) =
        some (.diagnosed first) ∧
      failure? (add ⟨20, false⟩ "1 2 &".toList 1 ⟨{}, { path := Session.typedPath }⟩) =
        some (.diagnosed second) ∧
      first.kind = .lexical ∧ second.kind = .invalidSyntax := by
  refine ⟨.lexical (.invalidCharacter '&') "1 2 &".toList 4 5,
    .rejection "1 2 &".toList ⟨.integer 2, 2, 3⟩, ?_, ?_, rfl, rfl⟩
  · decide +kernel
  · decide +kernel

end Desk
end Abacus
