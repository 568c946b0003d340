/- # The steps of a session

What one step of a session does to it, without the log.  A step first marks the line that it works
on (`Desk.mark`).  Queueing a line (`Desk.add_eq`) parses and shows it; if either fails the mark
stays, else the mark is lifted and the queue has one entry more.  Evaluating an entry
(`Desk.runEntry_eq`) takes it from the queue and lifts the mark if there is a value and, where
values are printed, a text of it.

`Tree.interpret_failure`: what interpreting fails with is a diagnostic, which blames the input, or a
fault, or too deep nesting.  A report can tell all of these (`Tree.interpret_reported`). -/
import Abacus.Proofs.WellFormed
import Abacus.Session

namespace Abacus
set_option autoImplicit false

namespace OrderedMap

variable {κ ν : Type} [DecidableEq κ]

theorem put_put (key : κ) (first second : ν) (entries : List (κ × ν)) :
    put key second (put key first entries) = put key second entries := by
  induction entries with
  | nil => simp [put]
  | cons entry rest ih =>
      by_cases here : entry.1 = key
      · simp [put, here]
      · simp [put, here, ih]

/-- Of two values put under one key the later one counts. -/
theorem insert_insert (m : OrderedMap κ ν) (key : κ) (first second : ν) :
    (m.insert key first).insert key second = m.insert key second := by
  simp only [insert, put_put]

/-- A new key goes to the end. -/
theorem insert_fresh (m : OrderedMap κ ν) {key : κ} (fresh : key ∉ m.keys) (value : ν) :
    m.insert key value = ⟨m.entries ++ [(key, value)]⟩ := by
  obtain ⟨entries⟩ := m
  induction entries with
  | nil => rfl
  | cons entry rest ih =>
      simp only [keys, List.map_cons, List.mem_cons, not_or] at fresh
      have away : entry.1 ≠ key := fun same => fresh.1 same.symm
      have later := ih fresh.2
      simp only [insert, mk.injEq] at later
      simp only [insert, put, away, if_false, later, List.cons_append]

end OrderedMap

/-! ## What can be reported -/

/-- The diagnostic that a failure is reported as.  The end of the program is not reported. -/
def Failure.diagnostic? : Failure → Option Diagnostic
  | diagnosed d => some d
  | internal f => some (Console.faultDiagnostic f)
  | tooDeep => some (.plain "maximum nesting depth exceeded".toList)
  | interrupted _ => some (.plain "keyboard interrupt".toList)
  | exit _ => none

theorem Number.text_error {x : Number} {e : Failure} (failed : x.text = .error e) :
    e = .internal .textTooLong := by
  unfold text at failed
  split at failed
  · cases failed
  · cases failed
    rfl

theorem Number.text_reported {x : Number} {e : Failure} (failed : x.text = .error e) :
    e.diagnostic?.isSome := by
  rw [text_error failed]
  rfl

namespace Tree

theorem Blame.reported {depth : Nat} {text : Text} {env : Environment} {e : Failure}
    (blame : Blame depth text env e) : e.diagnostic?.isSome := by
  cases blame with
  | lexical | invalid | tooDeep => rfl
  | evaluation parsed trouble =>
      cases trouble with
      | tooDeep | undefined => rfl
      | operation reached first second barred => cases barred <;> rfl

/-- A text is blamed for not being parsed. -/
theorem parse_outward {depth : Nat} {text : Text} {d : Diagnostic}
    (failed : parse depth text = .error (.diagnosed d)) : d.internal = false := by
  have verdict := parse_verdict depth text
  rw [failed] at verdict
  cases verdict with
  | @rejected k token here viable stuck =>
      by_cases ends : token.kind = .endOfText
      · exact (Diagnostic.rejection_marks_end text ends).outward
      · exact (Diagnostic.rejection_marks_token text ends).outward
  | refused refusal viable =>
      obtain ⟨start, stop, marks⟩ := Scanner.tokens_refused refusal
      exact marks.outward

theorem interpret_failure {depth : Nat} {text : Text} {env after : Environment} {e : Failure}
    (failed : interpret depth text env = .error e after) :
    (∃ d, e = .diagnosed d ∧ d.internal = false) ∨ (∃ f, e = .internal f) ∨ e = .tooDeep := by
  unfold interpret at failed
  cases parsed : parse depth text with
  | error e' =>
      rw [parsed] at failed
      cases failed
      cases parse_blame parsed env with
      | lexical | invalid => exact .inl ⟨_, rfl, parse_outward parsed⟩
      | tooDeep => exact .inr (.inr rfl)
      | evaluation parsed' =>
          rw [parsed] at parsed'
          cases parsed'
  | ok t =>
      rw [parsed] at failed
      have trouble := evaluate_trouble (wellFormed_of_parse parsed) failed
      cases trouble with
      | tooDeep => exact .inr (.inr rfl)
      | undefined reached missing =>
          exact .inl ⟨_, rfl, Diagnostic.undefinedVariable_internal _⟩
      | operation reached first second barred =>
          cases barred with
          | zeroDivisor => exact .inl ⟨_, rfl, Diagnostic.divisionByZero_internal _ _⟩
          | tooLarge | quotientTooLarge | longDividend => exact .inr (.inl ⟨_, rfl⟩)

theorem parse_reported {depth : Nat} {text : Text} {e : Failure}
    (failed : parse depth text = .error e) : e.diagnostic?.isSome :=
  (parse_blame failed .empty).reported

theorem interpret_reported {depth : Nat} {text : Text} {env after : Environment} {e : Failure}
    (failed : interpret depth text env = .error e after) : e.diagnostic?.isSome :=
  (interpret_blame failed).reported

end Tree

/-- What is left of a guarded operation when its failure was dealt with. -/
theorem Console.guard_eq {σ : Type} (console : σ → Console) (put : σ → Console → σ)
    (action : EStateM Failure σ Unit) (s : σ) :
    (do let _ ← guard console put action : EStateM Failure σ Unit) s = match action s with
      | .ok _ after => .ok () after
      | .error e after =>
          match (console after).handle e with
          | (none, c) => .ok () (put after c)
          | (some e, c) => .error e (put after c) := by
  simp only [guard, bind, EStateM.bind]
  cases action s with
  | ok result after => rfl
  | error e after =>
      dsimp only
      cases (console after).handle e with
      | mk stopped after => cases stopped <;> rfl

/-! ## Queueing and evaluating -/

namespace Desk

def mark (d : Desk) (place : Place) : Desk :=
  { d with
    console := { d.console with reporter := d.console.reporter.setLine d.session.path place } }

@[simp] theorem mark_session (d : Desk) (place : Place) : (d.mark place).session = d.session := rfl

@[simp] theorem mark_mark (d : Desk) (first second : Place) :
    (d.mark first).mark second = d.mark second := by
  simp only [mark, Reporter.setLine, OrderedMap.insert_insert]

theorem add_eq (depth : Nat) (text : Text) (line : Int) (d : Desk) :
    add ⟨depth, false⟩ text line d =
      match Tree.parse depth text with
      | .error e => .error e (d.mark ⟨some text, some line⟩)
      | .ok tree =>
          match tree.display depth 0 with
          | .error e => .error e (d.mark ⟨some text, some line⟩)
          | .ok _ => .ok () (mark ⟨d.console,
              { d.session with queue := d.session.queue.insert line (text, tree) }⟩ {}) := by
  have steps : add ⟨depth, false⟩ text line d =
      (do
        let tree ← MonadExcept.ofExcept (Tree.parse depth text)
        let _ ← MonadExcept.ofExcept (tree.display depth 0)
        onSession fun s => { s with queue := s.queue.insert line (text, tree) }
        endLine : Action Unit) (d.mark ⟨some text, some line⟩) := rfl
  rw [steps, bind_apply]
  cases Tree.parse depth text with
  | error e => rfl
  | ok tree =>
      show (MonadExcept.ofExcept (tree.display depth 0) >>= _ : Action Unit) _ = _
      rw [bind_apply]
      dsimp only
      cases tree.display depth 0 with
      | error e => rfl
      | ok shown =>
          have lifted := mark_mark ⟨d.console,
            { d.session with queue := d.session.queue.insert line (text, tree) }⟩
            ⟨some text, some line⟩ {}
          rw [← lifted]
          rfl

def drop (d : Desk) (line : Int) (environment : Environment) : Desk :=
  { d with session := { d.session with environment, queue := d.session.queue.erase line } }

def keep (d : Desk) (value : Number) : Desk :=
  { d with session := { d.session with results := d.session.results ++ [value] } }

theorem runEntry_eq (depth : Nat) (line : Int) (text : Text) (tree : Tree) (d : Desk) :
    runEntry ⟨depth, false⟩ line text tree d =
      match tree.evaluate depth d.session.environment with
      | .error e environment => .error e ((d.mark ⟨some text, some line⟩).drop line environment)
      | .ok value environment =>
          let kept := ((d.mark ⟨some text, some line⟩).drop line environment).keep value
          if d.session.echo then
            match value.text with
            | .error e => .error e kept
            | .ok shown => .ok () (mark { kept with console := kept.console.print shown } {})
          else .ok () (kept.mark {}) := by
  have steps : runEntry ⟨depth, false⟩ line text tree d =
      (do
        let value ← evaluateEntry ⟨depth, false⟩ line tree
        noteResult ⟨depth, false⟩ line value
        onSession fun s => { s with results := s.results ++ [value] }
        if (← get).session.echo then printNumber value
        endLine : Action Unit) (d.mark ⟨some text, some line⟩) := rfl
  have quiet : ∀ value, noteResult ⟨depth, false⟩ line value = pure () := by
    intro value
    unfold noteResult
    split <;> rfl
  rw [steps, bind_apply, evaluateEntry, mark_session]
  cases tree.evaluate depth d.session.environment with
  | error e environment => rfl
  | ok value environment =>
      dsimp only
      rw [quiet]
      have printed : (do
          pure ()
          onSession fun s => { s with results := s.results ++ [value] }
          if (← get).session.echo then printNumber value
          endLine : Action Unit) ((d.mark ⟨some text, some line⟩).drop line environment) =
          (if d.session.echo then printNumber value >>= fun _ => endLine else endLine)
            (((d.mark ⟨some text, some line⟩).drop line environment).keep value) := rfl
      refine printed.trans ?_
      cases d.session.echo with
      | false => rfl
      | true =>
          simp only [if_true]
          rw [bind_apply, printNumber, bind_apply]
          cases value.text with
          | error e => rfl
          | ok shown => rfl

end Desk
end Abacus
