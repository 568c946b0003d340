/- # A shell that asks for a line

Whatever was typed and whatever became of it, a shell that asks for the next line is in order
(`Shell.InOrder`): nothing is queued, no result is left, no line is marked, reports are not fatal,
and the prompt tells whether a line waits.  This holds with logged messages too.

Evaluating a line takes a desk in order through three operations, each of which is described by what
it makes of queue and results (`Desk.Leads`).  They may stop with their line still marked, for they
are guarded, and the report lifts the mark (`Desk.Leads.guarded`).  An operation that is not guarded
has to leave the desk in order by itself (`Desk.Keeps`).

`Shell.inOrder_after` is the main result. -/
import Abacus.Proofs.Agreement
import Abacus.Proofs.Continuation
import Abacus.Proofs.Reports

namespace Abacus
set_option autoImplicit false

open Session (Entry)

/-! ## The desk of a shell -/

/-- Reports are not fatal, and what is typed in is the only file, with the place that is worked
on. -/
structure Reporter.Typed (r : Reporter) (place : Place) : Prop where
  mild : r.fatal = false
  places : r.places = ⟨[(Session.typedPath, place)]⟩

theorem Reporter.Typed.setLine {r : Reporter} {place : Place} (typed : r.Typed place)
    (other : Place) : (r.setLine Session.typedPath other).Typed other := by
  refine ⟨typed.mild, ?_⟩
  rw [Reporter.setLine, typed.places]
  rfl

/-- A report forgets the place. -/
theorem Reporter.Typed.filled {r : Reporter} {place : Place} (typed : r.Typed place) :
    Typed { r with places := r.places.fill {} } {} := by
  refine ⟨typed.mild, ?_⟩
  dsimp only
  rw [typed.places]
  rfl

namespace Desk

/-- The desk of a shell, with what is queued, the results that are left and the place that is worked
on. -/
structure Holds (queue : List Entry) (results : List Number) (place : Place) (d : Desk) : Prop where
  path : d.session.path = Session.typedPath
  quiet : d.session.echo = false
  queue : d.session.queue = ⟨queue⟩
  results : d.session.results = results
  reporter : d.console.reporter.Typed place

/-- Nothing is queued, no result is left and no line is marked. -/
abbrev Clear (d : Desk) : Prop := d.Holds [] [] {}

section

variable {queue : List Entry} {results : List Number} {place : Place} {d : Desk}

theorem Holds.setLine (holds : d.Holds queue results place) (other : Place) :
    (d.console.reporter.setLine d.session.path other).Typed other := by
  rw [holds.path]
  exact holds.reporter.setLine other

theorem Holds.clearLine (holds : d.Holds queue results place) :
    (d.console.reporter.clearLine d.session.path).Typed {} := holds.setLine {}

theorem Holds.print (holds : d.Holds queue results place) (text : Text) :
    Holds queue results place { d with console := d.console.print text } :=
  ⟨holds.path, holds.quiet, holds.queue, holds.results, holds.reporter⟩

end

/-- Where an operation succeeds it leads from one kind of desk to another; where it fails, nothing
is queued and no result is left, and the failure can be reported. -/
def Leads (first : Desk → Prop) (action : Action Unit) (second : Desk → Prop) : Prop :=
  ∀ d, first d → match action d with
    | .ok _ next => second next
    | .error e next => e.diagnostic?.isSome ∧ ∃ place, next.Holds [] [] place

/-- An operation leaves the desk clear, also if it fails. -/
def Keeps (action : Action Unit) : Prop := ∀ d, d.Clear → (remains (action d)).Clear

theorem Leads.bind {first second third : Desk → Prop} {action later : Action Unit}
    (leads : Leads first action second) (leads' : Leads second later third) :
    Leads first (action >>= fun _ => later) third := by
  intro d holds
  have came := leads d holds
  rw [bind_apply]
  cases result : action d with
  | ok value next =>
      rw [result] at came
      exact leads' next came
  | error e next =>
      rw [result] at came
      exact came

/-- The report lifts the mark. -/
theorem Leads.guarded {action : Action Unit} (leads : Leads Clear action Clear) :
    Keeps (Desk.guarded action) := by
  intro d clear
  have came := leads d clear
  rw [Desk.guarded, Console.guard_eq]
  cases result : action d with
  | ok value next =>
      rw [result] at came
      exact came
  | error e next =>
      rw [result] at came
      obtain ⟨reported, place, holds⟩ := came
      obtain ⟨diagnostic, reported⟩ := Option.isSome_iff_exists.mp reported
      dsimp only
      rw [Console.handle_mild holds.reporter.mild reported]
      cases e.passed <;>
        exact ⟨holds.path, holds.quiet, holds.queue, holds.results, holds.reporter.filled⟩

/-! ## Evaluating a line -/

/-- The desk with one line queued, which was parsed. -/
def Loaded (cfg : Settings) (d : Desk) : Prop :=
  ∃ line text tree, Tree.parse cfg.depth text = .ok tree ∧ d.Holds [(line, text, tree)] [] {}

theorem add_leads (cfg : Settings) (text : Text) (line : Int) :
    Leads Clear (add cfg text line) (Loaded cfg) := by
  intro d clear
  have came := add_cases cfg text line d
  generalize add cfg text line d = result at came
  cases came with
  | @queued tree next parsed session reporter out =>
      refine ⟨line, text, tree, parsed, ?_⟩
      have queue : next.session.queue = ⟨[(line, text, tree)]⟩ := by
        rw [session, clear.queue]
        rfl
      exact ⟨by rw [session, clear.path], by rw [session, clear.quiet], queue,
        by rw [session, clear.results], reporter ▸ clear.clearLine⟩
  | failed reported session reporter out =>
      exact ⟨reported, _, by rw [session, clear.path], by rw [session, clear.quiet],
        by rw [session, clear.queue], by rw [session, clear.results], reporter ▸ clear.setLine _⟩

theorem run_leads (cfg : Settings) :
    Leads (Loaded cfg) (run cfg) fun d => ∃ value, d.Holds [] [value] {} := by
  rintro d ⟨line, text, tree, parsed, loaded⟩
  have entries : d.session.queue.entries = [(line, text, tree)] := by rw [loaded.queue]
  have distinct : d.session.queue.keys.Nodup := by
    rw [loaded.queue]
    exact List.nodup_singleton line
  cases ran : run cfg d with
  | ok result next =>
      obtain ⟨-, values, env, evaluates, session, reporter⟩ := run_ok distinct ran
      rw [entries] at evaluates reporter
      cases evaluates with
      | @cons _ _ _ _ _ _ _ value _ first later =>
          cases later
          refine ⟨value, ?_⟩
          have results : next.session.results = [value] := by
            rw [session, loaded.results]
            rfl
          exact ⟨by rw [session, loaded.path], by rw [session, loaded.quiet], by rw [session]; rfl,
            results, reporter ▸ loaded.clearLine⟩
  | error e failed =>
      obtain ⟨before, line', text', tree', rest, split, -, values, env, last, kept, evaluates,
        fails, session, reporter⟩ := run_error distinct ran
      rw [entries] at split
      -- the entry is alone, so there is nothing before it or behind it
      obtain ⟨rfl, same, rfl⟩ : before = [] ∧ (line', text', tree') = (line, text, tree) ∧
          rest = [] := by
        cases before with
        | nil => simpa [eq_comm] using split
        | cons first more => simp at split
      cases same
      cases evaluates
      have reported := fails.reported parsed
      cases fails with
      | unwritten echoes evaluated written =>
          rw [loaded.quiet] at echoes
          cases echoes
      | unevaluated evaluated =>
          exact ⟨reported, _, by rw [session, loaded.path], by rw [session, loaded.quiet],
            by rw [session], by rw [session, loaded.results]; rfl, reporter ▸ loaded.setLine _⟩

theorem printLatest_leads :
    Leads (fun d => ∃ value, d.Holds [] [value] {}) Shell.printLatest Clear := by
  rintro d ⟨value, holds⟩
  have latest : Shell.printLatest d =
      (if d.session.results.isEmpty then pure ()
      else do
        let value ← pop
        printNumber value : Action Unit) d := rfl
  have taken : Clear { d with session := { d.session with results := [] } } :=
    ⟨holds.path, holds.quiet, holds.queue, rfl, holds.reporter⟩
  have popped : Shell.printLatest d =
      printNumber value { d with session := { d.session with results := [] } } := by
    rw [latest, holds.results, if_neg (by simp), bind_apply, pop, holds.results]
    rfl
  rw [popped, printNumber, bind_apply]
  cases written : value.text with
  | error e => exact ⟨Number.text_reported written, {}, taken⟩
  | ok shown => exact taken.print shown

theorem evaluateLine_keeps (cfg : Settings) (text : Text) (number : Int) :
    Keeps (Shell.evaluateLine cfg text number) :=
  ((add_leads cfg text number).bind ((run_leads cfg).bind printLatest_leads)).guarded

/-! ## Commands -/

theorem print_keeps (text : Text) : Keeps (onConsole (·.print text)) :=
  fun _ clear => clear.print text

theorem reset_keeps : Keeps reset :=
  fun _ clear => ⟨clear.path, clear.quiet, clear.queue, clear.results, clear.reporter⟩

theorem printVariables_keeps (entries : List (Text × Number)) :
    Keeps (Shell.printVariables entries) := by
  induction entries with
  | nil => exact fun d clear => clear
  | cons entry rest ih =>
      intro d clear
      rw [Shell.printVariables, bind_apply]
      cases entry.2.text with
      | error e => exact clear
      | ok shown => exact ih _ (clear.print (entry.1 ++ " = ".toList ++ shown))

theorem printTokens_leads (text : Text) : Leads Clear (Shell.printTokens text) Clear := by
  intro d clear
  rw [Shell.printTokens]
  cases Scanner.tokens? text with
  | ok tokens => exact clear.print _
  | error refusal => exact ⟨rfl, {}, clear⟩

theorem printTree_leads (cfg : Settings) (text : Text) :
    Leads Clear (Shell.printTree cfg text) Clear := by
  intro d clear
  rw [Shell.printTree, bind_apply]
  cases parsed : Tree.parse cfg.depth text with
  | error e => exact ⟨Tree.parse_reported parsed, {}, clear⟩
  | ok tree =>
      obtain ⟨w, written, valid⟩ := Tree.writable_of_parse parsed
      show match (MonadExcept.ofExcept (tree.display cfg.depth 0) >>= _ : Action Unit) d with
        | .ok _ next => Clear next
        | .error e next => e.diagnostic?.isSome ∧ ∃ place, next.Holds [] [] place
      rw [bind_apply]
      rcases written.display valid cfg.depth 0 with ⟨deep, -⟩ | ⟨shown, display⟩
      · rw [deep]
        exact ⟨rfl, {}, clear⟩
      · rw [display]
        exact clear.print shown

end Desk

/-! ## The shell -/

namespace Shell

/-- A shell that asks for a line: its desk is clear, and the prompt tells whether a line waits.  A
line that waits has parentheses left open, no comment and no blanks at its end. -/
structure InOrder (s : Shell) : Prop where
  desk : s.desk.Clear
  prompt : s.prompt = (if s.pending = [] then "> " else ". ").toList
  unclosed : s.pending ≠ [] → Script.unclosed s.pending
  plain : '#' ∉ s.pending
  trimmed : ∀ c, s.pending.getLast? = some c → Text.isBlank c = false

theorem left_onDesk (action : Desk.Action Unit) (reply : Reply) (s : Shell) :
    left ((do onDesk action; return reply : Action Reply) s) =
      { s with desk := remains (action s.desk) } := by
  rw [onDesk_eq]
  cases action s.desk <;> rfl

/-- A command leaves what waits alone, and the desk clear. -/
theorem left_command (cfg : Settings) (c : Command) (argument : Text) {s : Shell}
    (clear : s.desk.Clear) :
    ∃ desk, left (command cfg c argument s) = { s with desk } ∧ desk.Clear := by
  have keeps : ∀ {action : Desk.Action Unit} {reply : Reply}, Desk.Keeps action →
      ∃ desk, left ((do onDesk action; return reply : Action Reply) s) = { s with desk } ∧
        desk.Clear := fun keeps => ⟨_, left_onDesk _ _ _, keeps s.desk clear⟩
  cases c with
  | vars =>
      have came := Desk.printVariables_keeps s.desk.session.environment.entries s.desk clear
      exact ⟨_, left_onDesk _ _ _, came⟩
  | reset => exact keeps Desk.reset_keeps
  | tokens => exact keeps (Desk.printTokens_leads argument).guarded
  | ast => exact keeps (Desk.printTree_leads cfg argument).guarded
  | help => exact keeps (Desk.print_keeps helpText)
  | endOfInput => exact keeps (Desk.print_keeps [])
  | exit => exact ⟨s.desk, rfl, clear⟩

/-- A line of an expression leaves the desk clear. -/
theorem clear_expression (cfg : Settings) (text : Text) {s : Shell} (clear : s.desk.Clear) :
    (left (expression cfg text s)).desk.Clear := by
  have keeps := Desk.evaluateLine_keeps cfg (s.logical text) (s.lineNumber + 1 : Nat) s.desk clear
  rw [expression_eq]
  split
  · exact clear
  · dsimp only
    split
    · exact clear
    · cases came : evaluateLine cfg (s.logical text) (s.lineNumber + 1 : Nat) s.desk <;>
        (rw [came] at keeps; exact keeps)

theorem logical_trimmed (s : Shell) (text : Text) {c : Char}
    (last : (s.logical text).getLast? = some c) : Text.isBlank c = false := by
  rw [logical, Script.clean, Text.trimRight, List.getLast?_reverse] at last
  generalize List.reverse _ = backwards at last
  have first := List.head?_dropWhile_not Text.isBlank backwards
  rw [last] at first
  exact first

/-- One line more leaves the shell in order. -/
theorem InOrder.answer {s : Shell} (inOrder : s.InOrder) (cfg : Settings) (line : Text) :
    (left (answer cfg line s)).InOrder := by
  cases asked : request line with
  | nothing =>
      rw [Shell.answer, asked]
      exact inOrder
  | command c argument =>
      obtain ⟨desk, left, clear⟩ := left_command cfg c argument inOrder.desk
      rw [Shell.answer, asked]
      dsimp only
      rw [left]
      exact ⟨clear, inOrder.prompt, inOrder.unclosed, inOrder.plain, inOrder.trimmed⟩
  | expression text =>
      have clear := clear_expression cfg text inOrder.desk
      obtain ⟨pending, prompt⟩ := left_expression cfg text s
      rw [left_answer asked]
      by_cases more : Script.unclosed (s.logical text)
      · rw [if_pos more] at pending prompt
        have waits : s.logical text ≠ [] := by
          intro empty
          rw [empty] at more
          cases more
        exact ⟨clear, by rw [prompt, pending, if_neg waits], fun _ => by rw [pending]; exact more,
          by rw [pending]; exact not_mem_logical s text,
          fun c last => by rw [pending] at last; exact logical_trimmed s text last⟩
      · rw [if_neg more] at pending prompt
        exact ⟨clear, by rw [prompt, pending]; rfl, by simp [pending], by simp [pending],
          by simp [pending]⟩

theorem inOrder_fresh (paint : Text → Text) : (fresh paint).InOrder where
  desk := ⟨rfl, rfl, rfl, rfl, rfl, rfl⟩
  prompt := rfl
  unclosed := by simp [fresh]
  plain := by simp [fresh]
  trimmed := by simp [fresh]

theorem InOrder.after {s : Shell} (inOrder : s.InOrder) (cfg : Settings) (lines : List Text) :
    (after cfg lines s).InOrder := by
  induction lines generalizing s with
  | nil => exact inOrder
  | cons line rest ih => exact ih (inOrder.answer cfg line)

/-- After any lines, whatever became of them, nothing is queued and no result is left; reports are
not fatal and no line is marked, what is typed in being the only file; and the second prompt is
shown if and only if a line waits, which has more opening than closing parentheses, no comment and
no blank at its end. -/
theorem inOrder_after (cfg : Settings) (paint : Text → Text) (read : FileReader)
    (lines : List Text) :
    Session.start cfg read Session.typedPath true false (.opened paint) =
      .ok (fresh paint).desk.session (fresh paint).desk.console ∧
    let s := after cfg lines (fresh paint)
    s.desk.session.queue = .empty ∧ s.desk.session.results = [] ∧
    s.desk.console.reporter.fatal = false ∧
    s.desk.console.reporter.places = ⟨[(Session.typedPath, {})]⟩ ∧
    (s.prompt = ". ".toList ↔ s.pending ≠ []) ∧
    (s.pending ≠ [] →
      s.pending.count ')' < s.pending.count '(' ∧ '#' ∉ s.pending ∧
      ∀ c, s.pending.getLast? = some c → Text.isBlank c = false) := by
  refine ⟨rfl, ?_⟩
  intro s
  have inOrder : s.InOrder := (inOrder_fresh paint).after cfg lines
  refine ⟨inOrder.desk.queue, inOrder.desk.results, inOrder.desk.reporter.mild,
    inOrder.desk.reporter.places, ?_, fun waits => ?_⟩
  · rw [inOrder.prompt]
    split
    · rename_i idle
      simp [idle]
    · rename_i waits
      simp [waits]
  · exact ⟨of_decide_eq_true (inOrder.unclosed waits), inOrder.plain, inOrder.trimmed⟩

/-- A value that is too long to be printed makes the first two lines fail, also the command that
shows the variables; the third is reported and the fourth ends the shell.  The last one waits. -/
theorem inOrder_after_waiting :
    let lines : List Text := [("(x = (x = (x = (x = (x = (x = (x = (x = (x = 1000000000)" ++
        " * x) * x) * x) * x) * x) * x) * x) * x) * x").toList,
      "vars".toList, "10 / 0".toList, "exit".toList, "(x + # more".toList]
    let s := after {} lines (fresh id)
    s.pending = "(x +".toList ∧ s.prompt = ". ".toList ∧ s.desk.session.queue = .empty ∧
      s.pending.count ')' < s.pending.count '(' := by
  intro lines
  have pending : (after {} lines (fresh id)).pending = "(x +".toList := by decide +kernel
  have waits : (after {} lines (fresh id)).pending ≠ [] := by
    rw [pending]
    decide
  obtain ⟨-, queue, -, -, -, prompt, more⟩ := inOrder_after {} id (fun _ => none) lines
  exact ⟨pending, prompt.mpr waits, queue, (more waits).1⟩

end Shell
end Abacus
