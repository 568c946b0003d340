/- # The shell against the evaluator

Between two lines a shell is at rest: nothing is queued, no result is kept, no line is marked, and
all that is left of earlier lines is what was printed, the variables and the line that waits
(`Shell.AtRest`).  Every answer leaves the shell at rest again, also one that ends with a fault, and
takes back nothing that was printed (`Shell.AtRest.answer`); so does every run of lines
(`Shell.atRest_after`).

From there a line that completes a logical line is answered as the evaluator has it: the variables
are those that interpreting the logical line leaves, its value is printed, or its failure is
reported.  The report of a fault has a mark in front that tells it from the others (`Fault.notice`),
and the fault goes on to the caller.  Every other line leaves the variables alone, the command that
forgets them excepted.  This is `Shell.answer_interprets`. -/
import Abacus.Proofs.FileRun

namespace Abacus
set_option autoImplicit false

/-! ## What a line asks for -/

namespace Text

theorem trim_eq_nil_iff {t : Text} : t.trim = [] ↔ t.blank := by
  rw [trim, trimLeft, List.dropWhile_eq_nil_iff, blank, List.all_eq_true]
  constructor
  · intro rest
    apply List.rdropWhile_eq_nil_iff.mp
    by_contra nonempty
    exact List.rdropWhile_last_not isBlank t nonempty (rest _ (List.getLast_mem nonempty))
  · intro all c member
    exact all c ((List.rdropWhile_prefix isBlank t).subset member)

/-- No part at the end of a trimmed text is blank. -/
theorem not_blank_of_trim {t first last : Text} (whole : t.trim = first ++ last)
    (nonempty : last ≠ []) : last.blank = false := by
  have suffix : last <:+ t.trimRight :=
    (List.suffix_append first last).trans (whole ▸ List.dropWhile_suffix isBlank)
  have kept : t.trimRight ≠ [] := fun empty => nonempty (List.suffix_nil.mp (empty ▸ suffix))
  have plain : ¬ isBlank (t.trimRight.getLast kept) := List.rdropWhile_last_not isBlank t kept
  rw [← suffix.getLast nonempty] at plain
  rw [blank, List.all_eq_false]
  exact ⟨_, List.getLast_mem nonempty, plain⟩

end Text

namespace Shell

theorem Command.name_of_ofName? {name : Text} {c : Command} (found : ofName? name = some c) :
    c.name = name := by
  simpa using List.find?_some found

/-- What a line asks for, told by its characters. -/
inductive Asks (line : Text) : Request → Prop
  | nothing (blank : line.blank) : Asks line .nothing
  | expression {text : Text} (same : text = line ∨ text = line.trim) : Asks line (.expression text)
  | help (argument : Text) : Asks line (.command .help argument)
  | command {c : Command} {argument : Text} (name : line.trim.takeWhile isWordChar = c.name)
      (rest : Text.trim (line.trim.dropWhile isWordChar) = argument)
      (bare : c.bare → argument = []) : Asks line (.command c argument)

theorem request_asks (line : Text) : Asks line (request line) := by
  unfold request
  split
  · rename_i empty
    exact .nothing (Text.trim_eq_nil_iff.mp empty)
  · rename_i rest whole
    exact .expression (.inr whole.symm)
  · rename_i first rest _ whole
    dsimp only
    by_cases question : first = '?'
    · rw [if_pos question]
      split
      · exact .expression (.inl rfl)
      · exact .help _
    · rw [if_neg question, ← whole]
      split
      · exact .expression (.inl rfl)
      · unfold commandOf?
        cases found : Command.ofName? (line.trim.takeWhile isWordChar) with
        | none => exact .expression (.inr rfl)
        | some c =>
            dsimp only
            split
            · exact .expression (.inl rfl)
            · rename_i alone
              refine .command (Command.name_of_ofName? found).symm rfl fun bare => ?_
              simpa [bare] using alone

/-- A line asks to forget all variables if it is the name of this command, blanks apart. -/
theorem request_reset_iff {line argument : Text} :
    request line = .command .reset argument ↔ line.trim = "reset".toList ∧ argument = [] := by
  constructor
  · intro asked
    have asks := request_asks line
    rw [asked] at asks
    cases asks with
    | command name rest bare =>
        obtain rfl := bare rfl
        have whole := List.takeWhile_append_dropWhile (p := isWordChar) (l := line.trim)
        have empty : line.trim.dropWhile isWordChar = [] := by
          by_contra nonempty
          have plain := Text.not_blank_of_trim whole.symm nonempty
          rw [Text.trim_eq_nil_iff.mp rest] at plain
          cases plain
        rw [name, empty, List.append_nil] at whole
        exact ⟨whole.symm, rfl⟩
  · rintro ⟨whole, rfl⟩
    rw [request, whole]
    rfl

end Shell

/-! ## The desk of a shell -/

/-- A session with what is typed in, between two lines. -/
def Session.typed (environment : Environment) : Session := { path := typedPath, environment }

/-- The failure that goes on to the caller when a failure was reported and the report is not
fatal. -/
def Failure.passed : Failure → Option Failure
  | internal f => some (internal f)
  | exit status => some (exit status)
  | _ => none

/-- A failure is reported behind the place, and then no line is marked any more. -/
theorem Console.handle_mild {c : Console} (mild : c.reporter.fatal = false) {e : Failure}
    {d : Diagnostic} (reported : e.diagnostic? = some d) :
    c.handle e = (e.passed, { c with
      reporter := { c.reporter with places := c.reporter.places.fill {} }
      out := c.out ++ (c.reporter.trace ++ d.notice c.reporter.paint) }) := by
  have report : ∀ d, c.report d = (none, { c with
      reporter := { c.reporter with places := c.reporter.places.fill {} }
      out := c.out ++ (c.reporter.trace ++ d.notice c.reporter.paint) }) := by
    intro d
    have on : ¬ c.reporter.fatal := by simp [mild]
    rw [Console.report, Reporter.afterReportFailure, Reporter.afterReport, if_neg on, if_neg on,
      Reporter.report_eq]
    rfl
  cases e with
  | exit status => cases reported
  | diagnosed d =>
      cases reported
      exact report d
  | tooDeep =>
      cases reported
      exact report _
  | interrupted message =>
      cases reported
      exact report _
  | internal f =>
      cases reported
      rw [handle, report]
      rfl

namespace Desk

/-- A session with what is typed in, alone at a console that goes on after a report. -/
def typed (paint : Text → Text) (place : Place) (out : Text) (session : Session) : Desk :=
  ⟨{ reporter := { fatal := false, places := ⟨[(Session.typedPath, place)]⟩, paint }, out },
    session⟩

/-- What is left when a failure was reported behind `heading`. -/
def reported (paint : Text → Text) (e : Failure) (d : Diagnostic) (heading out : Text)
    (environment : Environment) : EStateM.Result Failure Desk Unit :=
  match e.passed with
  | none => .ok () (typed paint {} (out ++ (heading ++ d.notice paint)) (.typed environment))
  | some e => .error e (typed paint {} (out ++ (heading ++ d.notice paint)) (.typed environment))

variable {paint : Text → Text}

/-- A fault is reported as internal and goes on to the caller. -/
theorem reported_fault {f : Fault} {d : Diagnostic}
    (diagnostic : (Failure.internal f).diagnostic? = some d) (heading out : Text)
    (environment : Environment) :
    reported paint (.internal f) d heading out environment = .error (.internal f)
      (typed paint {} (out ++ (heading ++ f.notice paint)) (.typed environment)) := by
  cases diagnostic
  rw [← Console.notice_faultDiagnostic]
  rfl

theorem mark_typed {place : Place} {out : Text} {session : Session}
    (here : session.path = Session.typedPath) (other : Place) :
    (typed paint place out session).mark other = typed paint other out session := by
  simp [mark, typed, Reporter.setLine, OrderedMap.insert, OrderedMap.put, here]

theorem handle_typed {place : Place} {heading out : Text} {session : Session} {e : Failure}
    {d : Diagnostic}
    (trace : Reporter.trace ⟨false, ⟨[(Session.typedPath, place)]⟩, paint⟩ = heading)
    (diagnostic : e.diagnostic? = some d) :
    (typed paint place out session).console.handle e =
      (e.passed, (typed paint {} (out ++ (heading ++ d.notice paint)) session).console) := by
  have mild : (typed paint place out session).console.reporter.fatal = false := rfl
  rw [Console.handle_mild mild diagnostic, ← trace]
  rfl

/-- A failure at a place is reported with this place. -/
theorem guarded_typed_error {action : Action Unit} {desk : Desk} {place : Place}
    {heading out : Text} {environment : Environment} {e : Failure} {d : Diagnostic}
    (trace : Reporter.trace ⟨false, ⟨[(Session.typedPath, place)]⟩, paint⟩ = heading)
    (diagnostic : e.diagnostic? = some d)
    (failed : action desk = .error e (typed paint place out (.typed environment))) :
    guarded action desk = reported paint e d heading out environment := by
  rw [guarded, Console.guard_eq, failed]
  dsimp only
  rw [handle_typed trace diagnostic, reported]
  cases e.passed <;> rfl

theorem guarded_ok {action : Action Unit} {desk after : Desk} (ok : action desk = .ok () after) :
    guarded action desk = .ok () after := by
  rw [guarded, Console.guard_eq, ok]

/-! ## Evaluating a line -/

theorem add_typed (depth : Nat) (line : LogicalLine) (out : Text) (env : Environment) :
    add ⟨depth, false⟩ line.text line.number (typed paint {} out (.typed env)) =
      match Tree.parse depth line.text with
      | .error e => .error e (typed paint line.place out (.typed env))
      | .ok t =>
          match t.display depth 0 with
          | .error e => .error e (typed paint line.place out (.typed env))
          | .ok _ => .ok () (typed paint {} out
              { Session.typed env with queue := ⟨[(line.number, line.text, t)]⟩ }) := by
  rw [add_eq, mark_typed rfl]
  rfl

/-- A single queued line is evaluated, and its value is the only result. -/
theorem run_typed (depth : Nat) (line : LogicalLine) (t : Tree) (out : Text) (env : Environment) :
    run ⟨depth, false⟩ (typed paint {} out
        { Session.typed env with queue := ⟨[(line.number, line.text, t)]⟩ }) =
      match t.evaluate depth env with
      | .error e after => .error e (typed paint line.place out (.typed after))
      | .ok value after =>
          .ok () (typed paint {} out { Session.typed after with results := [value] }) := by
  have alone : (OrderedMap.erase ⟨[(line.number, line.text, t)]⟩ line.number :
      OrderedMap Int (Text × Tree)) = .empty := by
    simp [OrderedMap.erase, OrderedMap.empty]
  have ran := runEntry_eq depth line.number line.text t
    (typed paint {} out { Session.typed env with queue := ⟨[(line.number, line.text, t)]⟩ })
  rw [mark_typed rfl] at ran
  show runEntries ⟨depth, false⟩ [(line.number, line.text, t)] _ = _
  rw [runEntries_cons, ran]
  simp only [typed, Session.typed, drop, alone]
  cases t.evaluate depth env <;> rfl

end Desk

namespace Shell

variable {paint : Text → Text}

theorem printLatest_typed (value : Number) (out : Text) (env : Environment) :
    printLatest (Desk.typed paint {} out { Session.typed env with results := [value] }) =
      match value.text with
      | .error e => .error e (Desk.typed paint {} out (.typed env))
      | .ok shown => .ok () (Desk.typed paint {} (out ++ shown.line) (.typed env)) := by
  have popped :
      printLatest (Desk.typed paint {} out { Session.typed env with results := [value] }) =
        Desk.printNumber value (Desk.typed paint {} out (.typed env)) := rfl
  rw [popped, Desk.printNumber, bind_apply]
  cases value.text <;> rfl

/-- What evaluating a line at rest comes to, before its failure is dealt with. -/
theorem evaluate_typed (depth : Nat) (line : LogicalLine) (paint : Text → Text) (out : Text)
    (env : Environment) :
    (do
      Desk.add ⟨depth, false⟩ line.text line.number
      Desk.run ⟨depth, false⟩
      printLatest : Desk.Action Unit) (Desk.typed paint {} out (.typed env)) =
      match Tree.parse depth line.text with
      | .error e => .error e (Desk.typed paint line.place out (.typed env))
      | .ok t =>
          match t.display depth 0 with
          | .error e => .error e (Desk.typed paint line.place out (.typed env))
          | .ok _ =>
              match t.evaluate depth env with
              | .error e after => .error e (Desk.typed paint line.place out (.typed after))
              | .ok value after =>
                  match value.text with
                  | .error e => .error e (Desk.typed paint {} out (.typed after))
                  | .ok shown =>
                      .ok () (Desk.typed paint {} (out ++ shown.line) (.typed after)) := by
  rw [bind_apply, Desk.add_typed]
  cases Tree.parse depth line.text with
  | error e => rfl
  | ok t =>
      dsimp only
      cases t.display depth 0 with
      | error e => rfl
      | ok shown =>
          dsimp only
          rw [bind_apply, Desk.run_typed]
          cases t.evaluate depth env with
          | error e after => rfl
          | ok value after => exact printLatest_typed value out after

/-- How evaluating a line at rest ends. -/
inductive Evaluated (depth : Nat) (line : LogicalLine) (paint : Text → Text) (out : Text)
    (env : Environment) : EStateM.Result Failure Desk Unit → Prop
  | printed {t : Tree} {shown text : Text} {value : Number} {after : Environment}
      (parsed : Tree.parse depth line.text = .ok t) (display : t.display depth 0 = .ok shown)
      (evaluated : t.evaluate depth env = .ok value after) (written : value.text = .ok text) :
      Evaluated depth line paint out env
        (.ok () (Desk.typed paint {} (out ++ text.line) (.typed after)))
  | unparsed {e : Failure} {d : Diagnostic} (parsed : Tree.parse depth line.text = .error e)
      (diagnostic : e.diagnostic? = some d) :
      Evaluated depth line paint out env
        (Desk.reported paint e d (line.heading Session.typedPath) out env)
  | tooHigh {t : Tree} {d : Diagnostic} (parsed : Tree.parse depth line.text = .ok t)
      (display : t.display depth 0 = .error .tooDeep) (high : depth < t.height)
      (diagnostic : Failure.tooDeep.diagnostic? = some d) :
      Evaluated depth line paint out env
        (Desk.reported paint .tooDeep d (line.heading Session.typedPath) out env)
  | failed {t : Tree} {shown : Text} {e : Failure} {d : Diagnostic} {after : Environment}
      (parsed : Tree.parse depth line.text = .ok t) (display : t.display depth 0 = .ok shown)
      (evaluated : t.evaluate depth env = .error e after) (diagnostic : e.diagnostic? = some d) :
      Evaluated depth line paint out env
        (Desk.reported paint e d (line.heading Session.typedPath) out after)
  | unwritten {t : Tree} {shown : Text} {value : Number} {e : Failure} {d : Diagnostic}
      {after : Environment}
      (parsed : Tree.parse depth line.text = .ok t) (display : t.display depth 0 = .ok shown)
      (evaluated : t.evaluate depth env = .ok value after) (written : value.text = .error e)
      (diagnostic : e.diagnostic? = some d) :
      Evaluated depth line paint out env (Desk.reported paint e d [] out after)

theorem evaluateLine_typed (depth : Nat) (line : LogicalLine) (nonempty : line.text ≠ [])
    (paint : Text → Text) (out : Text) (env : Environment) :
    Evaluated depth line paint out env
      (evaluateLine ⟨depth, false⟩ line.text line.number
        (Desk.typed paint {} out (.typed env))) := by
  have inner := evaluate_typed depth line paint out env
  have trace := Reporter.trace_line false Session.typedPath paint line nonempty
  cases parsed : Tree.parse depth line.text with
  | error e =>
      rw [parsed] at inner
      obtain ⟨d, diagnostic⟩ := Option.isSome_iff_exists.mp (Tree.parse_reported parsed)
      rw [evaluateLine, Desk.guarded_typed_error trace diagnostic inner]
      exact .unparsed parsed diagnostic
  | ok t =>
      rw [parsed] at inner
      obtain ⟨w, written, valid⟩ := Tree.writable_of_parse parsed
      rcases written.display valid depth 0 with ⟨deep, high⟩ | ⟨shown, display⟩
      · dsimp only at inner
        rw [deep] at inner
        rw [evaluateLine, Desk.guarded_typed_error trace rfl inner]
        exact .tooHigh parsed deep high rfl
      · dsimp only at inner
        rw [display] at inner
        cases evaluated : t.evaluate depth env with
        | error e after =>
            rw [evaluated] at inner
            have interpreted : Tree.interpret depth line.text env = .error e after := by
              rw [Tree.interpret, parsed, ← evaluated]
            obtain ⟨d, diagnostic⟩ :=
              Option.isSome_iff_exists.mp (Tree.interpret_reported interpreted)
            rw [evaluateLine, Desk.guarded_typed_error trace diagnostic inner]
            exact .failed parsed display evaluated diagnostic
        | ok value after =>
            rw [evaluated] at inner
            dsimp only at inner
            cases text : value.text with
            | error e =>
                rw [text] at inner
                obtain ⟨d, diagnostic⟩ := Option.isSome_iff_exists.mp (Number.text_reported text)
                rw [evaluateLine, Desk.guarded_typed_error rfl diagnostic inner]
                exact .unwritten parsed display evaluated text diagnostic
            | ok text' =>
                rw [text] at inner
                rw [evaluateLine, Desk.guarded_ok inner]
                exact .printed parsed display evaluated text

/-- Where the tree of a line is not too high to be shown, evaluating the line comes to what
interpreting it comes to. -/
theorem Evaluated.interprets {depth : Nat} {line : LogicalLine} {out : Text} {env : Environment}
    {r : EStateM.Result Failure Desk Unit} (evaluated : Evaluated depth line paint out env r)
    (low : ∀ t, Tree.parse depth line.text = .ok t → t.height ≤ depth) :
    match Tree.interpret depth line.text env with
    | .ok value after =>
        match value.text with
        | .ok shown => r = .ok () (Desk.typed paint {} (out ++ shown.line) (.typed after))
        | .error e => ∃ d, e.diagnostic? = some d ∧ r = Desk.reported paint e d [] out after
    | .error e after => ∃ d, e.diagnostic? = some d ∧
        r = Desk.reported paint e d (line.heading Session.typedPath) out after := by
  cases evaluated with
  | printed parsed display evaluated written =>
      simp only [Tree.interpret, parsed, evaluated, written]
  | @unparsed e d parsed diagnostic =>
      rw [Tree.interpret, parsed]
      exact ⟨d, diagnostic, rfl⟩
  | @tooHigh t d parsed display high diagnostic =>
      have := low t parsed
      omega
  | @failed t shown e d after parsed display evaluated diagnostic =>
      simp only [Tree.interpret, parsed, evaluated]
      exact ⟨d, diagnostic, rfl⟩
  | @unwritten t shown value e d after parsed display evaluated written diagnostic =>
      simp only [Tree.interpret, parsed, evaluated, written]
      exact ⟨d, diagnostic, rfl⟩

/-! ## Commands -/

/-- At rest, an operation only prints, and what it fails with can be reported. -/
def OnlyPrints (action : Desk.Action Unit) : Prop :=
  ∀ paint out env, ∃ more,
    action (Desk.typed paint {} out (.typed env)) =
        .ok () (Desk.typed paint {} (out ++ more) (.typed env)) ∨
    ∃ e d, e.diagnostic? = some d ∧
      action (Desk.typed paint {} out (.typed env)) =
        .error e (Desk.typed paint {} (out ++ more) (.typed env))

namespace OnlyPrints

theorem print (text : Text) : OnlyPrints (Desk.onConsole (·.print text)) :=
  fun _ _ _ => ⟨text.line, .inl rfl⟩

theorem refuse {e : Failure} {d : Diagnostic} (diagnostic : e.diagnostic? = some d) :
    OnlyPrints (throw e) := by
  intro paint out env
  refine ⟨[], .inr ⟨e, d, diagnostic, ?_⟩⟩
  rw [List.append_nil]
  rfl

theorem guarded {action : Desk.Action Unit} (prints : OnlyPrints action) :
    OnlyPrints (Desk.guarded action) := by
  intro paint out env
  obtain ⟨more, ok | ⟨e, d, diagnostic, failed⟩⟩ := prints paint out env
  · exact ⟨more, .inl (Desk.guarded_ok ok)⟩
  · refine ⟨more ++ ([] ++ d.notice paint), ?_⟩
    rw [Desk.guarded_typed_error rfl diagnostic failed, Desk.reported, List.append_assoc]
    cases e with
    | internal f => exact .inr ⟨.internal f, d, diagnostic, rfl⟩
    | exit status => cases diagnostic
    | _ => exact .inl rfl

theorem printVariables (entries : List (Text × Number)) :
    OnlyPrints (Shell.printVariables entries) := by
  induction entries with
  | nil =>
      intro paint out env
      refine ⟨[], .inl ?_⟩
      rw [List.append_nil]
      rfl
  | cons entry rest ih =>
      intro paint out env
      obtain ⟨name, value⟩ := entry
      cases text : value.text with
      | error e =>
          obtain ⟨d, diagnostic⟩ := Option.isSome_iff_exists.mp (Number.text_reported text)
          refine ⟨[], .inr ⟨e, d, diagnostic, ?_⟩⟩
          rw [Shell.printVariables, bind_apply, text, List.append_nil]
          rfl
      | ok shown =>
          obtain ⟨more, later⟩ := ih paint (out ++ (name ++ " = ".toList ++ shown).line) env
          refine ⟨(name ++ " = ".toList ++ shown).line ++ more, ?_⟩
          rw [Shell.printVariables, bind_apply, text, ← List.append_assoc]
          exact later

theorem printTokens (text : Text) : OnlyPrints (Shell.printTokens text) := by
  unfold Shell.printTokens
  split
  · exact print _
  · exact refuse rfl

theorem printTree (depth : Nat) (text : Text) :
    OnlyPrints (Shell.printTree ⟨depth, false⟩ text) := by
  have shows : ∀ t : Tree, (do
      let shown ← MonadExcept.ofExcept (t.display depth 0)
      Desk.onConsole (·.print shown) : Desk.Action Unit) =
        match t.display depth 0 with
        | .error e => throw e
        | .ok shown => Desk.onConsole (·.print shown) := by
    intro t
    cases t.display depth 0 <;> rfl
  cases parsed : Tree.parse depth text with
  | error e =>
      have steps : Shell.printTree ⟨depth, false⟩ text = throw e := by
        rw [Shell.printTree, parsed]
        rfl
      obtain ⟨d, diagnostic⟩ := Option.isSome_iff_exists.mp (Tree.parse_reported parsed)
      rw [steps]
      exact refuse diagnostic
  | ok t =>
      have steps : Shell.printTree ⟨depth, false⟩ text = (do
          let shown ← MonadExcept.ofExcept (t.display depth 0)
          Desk.onConsole (·.print shown)) := by
        rw [Shell.printTree, parsed]
        rfl
      obtain ⟨w, written, valid⟩ := Tree.writable_of_parse parsed
      rw [steps, shows]
      rcases written.display valid depth 0 with ⟨deep, -⟩ | ⟨shown, display⟩
      · rw [deep]
        exact refuse rfl
      · rw [display]
        exact print shown

end OnlyPrints

/-! ## Answers -/

def left {α : Type} : EStateM.Result Failure Shell α → Shell
  | .ok _ s => s
  | .error _ s => s

/-- A shell between two lines, with what was printed and the variables. -/
def AtRest (s : Shell) (paint : Text → Text) (out : Text) (env : Environment) : Prop :=
  s.desk = Desk.typed paint {} out (.typed env)

/-- The text that a line of an expression makes with the lines that wait. -/
def logical (s : Shell) (text : Text) : Text :=
  Script.clean (if s.pending.isEmpty then text else s.pending ++ [' '] ++ text)

/-- The logical line that a line completes, if it completes one. -/
def completes (s : Shell) (line : Text) : Option Text :=
  match request line with
  | .expression text =>
      if Script.unclosed (s.logical text) || (s.logical text).blank then none
      else some (s.logical text)
  | _ => none

theorem onDesk_eq (action : Desk.Action Unit) (reply : Reply) (s : Shell) :
    (do onDesk action; return reply : Action Reply) s = match action s.desk with
      | .ok _ desk => .ok reply { s with desk }
      | .error e desk => .error e { s with desk } := by
  rw [bind_apply, onDesk]
  cases action s.desk <;> rfl

theorem OnlyPrints.onDesk {action : Desk.Action Unit} (prints : OnlyPrints action) (reply : Reply)
    {s : Shell} {out : Text} {env : Environment} (rest : s.AtRest paint out env) :
    ∃ more,
      (left ((do onDesk action; return reply : Action Reply) s)).AtRest paint (out ++ more)
        env := by
  obtain ⟨more, ok | ⟨e, d, -, failed⟩⟩ := prints paint out env
  · refine ⟨more, ?_⟩
    rw [onDesk_eq, rest, ok]
    rfl
  · refine ⟨more, ?_⟩
    rw [onDesk_eq, rest, failed]
    rfl

theorem AtRest.unchanged {s : Shell} {out : Text} {env : Environment}
    (rest : s.AtRest paint out env) : ∃ more, s.AtRest paint (out ++ more) env :=
  ⟨[], by rw [List.append_nil]; exact rest⟩

/-- Commands leave the variables alone, except for the one that forgets them. -/
theorem AtRest.command {s : Shell} {out : Text} {env : Environment} (rest : s.AtRest paint out env)
    (depth : Nat) (c : Command) (argument : Text) :
    ∃ more, (left (command ⟨depth, false⟩ c argument s)).AtRest paint (out ++ more)
      (if c = .reset then .empty else env) := by
  cases c with
  | vars =>
      obtain ⟨more, after⟩ := (OnlyPrints.printVariables env.entries).onDesk .nothing rest
      refine ⟨more, ?_⟩
      have entries : s.desk.session.environment.entries = env.entries := by rw [rest]; rfl
      rw [← entries] at after
      exact after
  | reset =>
      refine ⟨[], ?_⟩
      show { s.desk with session := { s.desk.session with environment := .empty } } = _
      rw [rest, List.append_nil]
      rfl
  | tokens => exact (OnlyPrints.printTokens argument).guarded.onDesk .nothing rest
  | ast => exact (OnlyPrints.printTree depth argument).guarded.onDesk .nothing rest
  | help => exact (OnlyPrints.print helpText).onDesk .nothing rest
  | endOfInput => exact (OnlyPrints.print []).onDesk .stop rest
  | exit => exact rest.unchanged

/-- A line of an expression waits, is dropped, or is evaluated. -/
theorem expression_eq (cfg : Settings) (text : Text) (s : Shell) :
    expression cfg text s =
      if Script.unclosed (s.logical text) then
        .ok () { s with
          lineNumber := s.lineNumber + 1, pending := s.logical text, prompt := ". ".toList }
      else
        let next : Shell :=
          { s with lineNumber := s.lineNumber + 1, pending := [], prompt := "> ".toList }
        if (s.logical text).blank then .ok () next
        else
          match evaluateLine cfg (s.logical text) (s.lineNumber + 1 : Nat) s.desk with
          | .ok _ desk => .ok () { next with desk }
          | .error e desk => .error e { next with desk } := by
  have steps : expression cfg text s =
      (if Script.unclosed (s.logical text) then
        set { s with
          lineNumber := s.lineNumber + 1, pending := s.logical text, prompt := ". ".toList }
      else do
        set { s with lineNumber := s.lineNumber + 1, pending := [], prompt := "> ".toList }
        if (s.logical text).blank then pure ()
        else onDesk (evaluateLine cfg (s.logical text) (s.lineNumber + 1 : Nat)) :
          Action Unit) s := rfl
  rw [steps]
  split
  · rfl
  · rw [bind_apply]
    show (if _ then _ else _ : Action Unit) _ = _
    split
    · rfl
    · rfl

/-- A line that completes a logical line is answered by evaluating it. -/
theorem answer_completes (cfg : Settings) {s : Shell} {line text : Text}
    (completes : s.completes line = some text) :
    text ≠ [] ∧ answer cfg line s =
      match evaluateLine cfg text (s.lineNumber + 1 : Nat) s.desk with
      | .ok _ desk => .ok .nothing
          ⟨desk, [], s.lineNumber + 1, "> ".toList⟩
      | .error e desk => .error e ⟨desk, [], s.lineNumber + 1, "> ".toList⟩ := by
  unfold Shell.completes at completes
  split at completes
  · rename_i typed asked
    split at completes
    · cases completes
    · rename_i closed
      cases completes
      simp only [Bool.or_eq_true, not_or, Bool.not_eq_true] at closed
      obtain ⟨closed, written⟩ := closed
      refine ⟨fun empty => ?_, ?_⟩
      · rw [empty] at written
        cases written
      · rw [answer, asked]
        show (expression cfg typed >>= fun _ => pure Reply.nothing) s = _
        rw [bind_apply, expression_eq, closed, written]
        cases evaluateLine cfg (s.logical typed) (s.lineNumber + 1 : Nat) s.desk <;> rfl
  · cases completes

/-- Any other line leaves the shell at rest, and leaves the variables alone unless it asks to forget
them. -/
theorem AtRest.answer_other {s : Shell} {out : Text} {env : Environment}
    (rest : s.AtRest paint out env) (depth : Nat) {line : Text} (other : s.completes line = none) :
    ∃ more, (left (answer ⟨depth, false⟩ line s)).AtRest paint (out ++ more)
      (if line.trim = "reset".toList then .empty else env) := by
  have reset : line.trim = "reset".toList ↔ ∃ argument, request line = .command .reset argument :=
    ⟨fun whole => ⟨[], request_reset_iff.mpr ⟨whole, rfl⟩⟩,
      fun ⟨_, asked⟩ => (request_reset_iff.mp asked).1⟩
  rw [answer]
  cases asked : request line with
  | nothing =>
      rw [if_neg (by rw [reset, asked]; simp)]
      exact rest.unchanged
  | command c argument =>
      have same : (line.trim = "reset".toList) = (c = .reset) := by
        rw [reset, asked]
        simp
      simp only [same]
      exact rest.command depth c argument
  | expression text =>
      rw [if_neg (by rw [reset, asked]; simp)]
      show ∃ more,
        (left ((expression ⟨depth, false⟩ text >>= fun _ => pure Reply.nothing) s)).AtRest
          paint (out ++ more) env
      rw [completes, asked] at other
      rw [bind_apply, expression_eq]
      by_cases waits : Script.unclosed (s.logical text)
      · rw [if_pos waits]
        exact rest.unchanged
      · rw [if_neg waits]
        have blank : (s.logical text).blank := by
          by_contra written
          simp [waits, written] at other
        dsimp only
        rw [if_pos blank]
        exact rest.unchanged

/-- Evaluating a line leaves the desk at rest, also with a failure. -/
theorem Evaluated.atRest {depth : Nat} {line : LogicalLine} {out : Text} {env : Environment}
    {r : EStateM.Result Failure Desk Unit} (evaluated : Evaluated depth line paint out env r) :
    ∃ more after, r = .ok () (Desk.typed paint {} (out ++ more) (.typed after)) ∨
      ∃ e, r = .error e (Desk.typed paint {} (out ++ more) (.typed after)) := by
  have settled : ∀ e d heading after, ∃ more after',
      Desk.reported paint e d heading out after =
          .ok () (Desk.typed paint {} (out ++ more) (.typed after')) ∨
      ∃ e', Desk.reported paint e d heading out after =
        .error e' (Desk.typed paint {} (out ++ more) (.typed after')) := by
    intro e d heading after
    rw [Desk.reported]
    split
    · exact ⟨_, _, .inl rfl⟩
    · exact ⟨_, _, .inr ⟨_, rfl⟩⟩
  cases evaluated with
  | printed => exact ⟨_, _, .inl rfl⟩
  | unparsed | tooHigh | failed | unwritten => exact settled _ _ _ _

theorem AtRest.answer {s : Shell} {out : Text} {env : Environment} (rest : s.AtRest paint out env)
    (depth : Nat) (line : Text) :
    ∃ more after, (left (answer ⟨depth, false⟩ line s)).AtRest paint (out ++ more) after := by
  cases completes : s.completes line with
  | none =>
      obtain ⟨more, after⟩ := rest.answer_other depth completes
      exact ⟨more, _, after⟩
  | some text =>
      obtain ⟨written, answered⟩ := answer_completes ⟨depth, false⟩ completes
      have evaluated :=
        evaluateLine_typed depth ⟨text, (s.lineNumber + 1 : Nat)⟩ written paint out env
      obtain ⟨more, after, ok | ⟨e, failed⟩⟩ := evaluated.atRest
      · refine ⟨more, after, ?_⟩
        rw [answered, rest, ok]
        rfl
      · refine ⟨more, after, ?_⟩
        rw [answered, rest, failed]
        rfl

/-! ## Runs -/

/-- The shell after some lines, whatever became of them. -/
def after (cfg : Settings) : List Text → Shell → Shell
  | [], s => s
  | line :: rest, s => after cfg rest (left (answer cfg line s))

def fresh (paint : Text → Text) : Shell := { desk := Desk.typed paint {} [] (.typed .empty) }

theorem AtRest.after {s : Shell} {out : Text} {env : Environment} (rest : s.AtRest paint out env)
    (depth : Nat) (lines : List Text) :
    ∃ more last, (after ⟨depth, false⟩ lines s).AtRest paint more last := by
  induction lines generalizing s out env with
  | nil => exact ⟨out, env, rest⟩
  | cons line lines ih =>
      obtain ⟨more, last, next⟩ := rest.answer depth line
      exact ih next

/-- After any lines the shell is at rest. -/
theorem atRest_after (depth : Nat) (paint : Text → Text) (lines : List Text) :
    ∃ out env, (after ⟨depth, false⟩ lines (fresh paint)).AtRest paint out env :=
  AtRest.after (s := fresh paint) rfl depth lines

/-- From one shell to the next, the variables are now these, and this was printed. -/
def Gains (s next : Shell) (env : Environment) (printed : Text) : Prop :=
  next.desk.session.environment = env ∧
    next.desk.console.out = s.desk.console.out ++ printed

/-- After any lines, a line that completes a logical line is answered as the evaluator has it, if
the tree of the logical line is not too high to be shown: its value is all that is printed; a
diagnostic is reported and the shell goes on; a fault is reported as internal and goes on to the
caller, as does the fault that the value is too long to be written.  Any other line leaves the
variables alone, unless it asks to forget them. -/
theorem answer_interprets (depth : Nat) (paint : Text → Text) (read : FileReader)
    (lines : List Text) (line : Text) :
    let s := after ⟨depth, false⟩ lines (fresh paint)
    Session.start ⟨depth, false⟩ read Session.typedPath true false (.opened paint) =
      .ok (fresh paint).desk.session (fresh paint).desk.console ∧
    (∀ text, s.completes line = some text →
      (∀ t, Tree.parse depth text = .ok t → t.height ≤ depth) →
      (∀ value env, Tree.interpret depth text s.desk.session.environment = .ok value env →
        (∀ shown, value.text = .ok shown → ∃ next, s.Gains next env shown.line ∧
          answer ⟨depth, false⟩ line s = .ok .nothing next) ∧
        ∀ e, value.text = .error e → e = .internal .textTooLong ∧
          ∃ next, s.Gains next env (Fault.textTooLong.notice paint) ∧
            answer ⟨depth, false⟩ line s = .error e next) ∧
      ∀ e env, Tree.interpret depth text s.desk.session.environment = .error e env →
        let typed : LogicalLine := ⟨text, (s.lineNumber + 1 : Nat)⟩
        ∃ next, match e with
          | .diagnosed d => d.internal = false ∧
              s.Gains next env (typed.report Session.typedPath d paint) ∧
              answer ⟨depth, false⟩ line s = .ok .nothing next
          | .tooDeep =>
              s.Gains next env (typed.report Session.typedPath
                (.plain "maximum nesting depth exceeded".toList) paint) ∧
              answer ⟨depth, false⟩ line s = .ok .nothing next
          | .internal f =>
              s.Gains next env (typed.heading Session.typedPath ++ f.notice paint) ∧
              answer ⟨depth, false⟩ line s = .error (.internal f) next
          | _ => False) ∧
    (s.completes line = none →
      (left (answer ⟨depth, false⟩ line s)).desk.session.environment =
        if line.trim = "reset".toList then .empty else s.desk.session.environment) := by
  dsimp only
  obtain ⟨out, env, rest⟩ := atRest_after depth paint lines
  generalize after ⟨depth, false⟩ lines (fresh paint) = s at rest
  have known : s.desk.session.environment = env := by rw [rest]; rfl
  have printed : s.desk.console.out = out := by rw [rest]; rfl
  refine ⟨rfl, fun text completes low => ?_, fun other => ?_⟩
  · obtain ⟨written, answered⟩ := answer_completes ⟨depth, false⟩ completes
    rw [rest] at answered
    have evaluated :=
      evaluateLine_typed depth ⟨text, (s.lineNumber + 1 : Nat)⟩ written paint out env
    have interprets := evaluated.interprets low
    rw [known]
    refine ⟨fun value after interpreted => ?_, fun e after interpreted => ?_⟩
    · rw [interpreted] at interprets
      dsimp only at interprets
      refine ⟨fun shown written => ?_, fun e unwritten => ?_⟩
      · rw [written] at interprets
        rw [interprets] at answered
        exact ⟨_, ⟨rfl, congrArg (· ++ _) printed.symm⟩, answered⟩
      · rw [unwritten] at interprets
        obtain ⟨d, diagnostic, result⟩ := interprets
        obtain rfl := Number.text_error unwritten
        rw [result, Desk.reported_fault diagnostic] at answered
        exact ⟨rfl, _, ⟨rfl, congrArg (· ++ _) printed.symm⟩, answered⟩
    · have failure := Tree.interpret_failure interpreted
      rw [interpreted] at interprets
      obtain ⟨d, diagnostic, result⟩ := interprets
      rw [result] at answered
      rcases failure with ⟨d', rfl, outward⟩ | ⟨f, rfl⟩ | rfl
      · cases diagnostic
        exact ⟨_, outward, ⟨rfl, congrArg (· ++ _) printed.symm⟩, answered⟩
      · rw [Desk.reported_fault diagnostic] at answered
        exact ⟨_, ⟨rfl, congrArg (· ++ _) printed.symm⟩, answered⟩
      · cases diagnostic
        exact ⟨_, ⟨rfl, congrArg (· ++ _) printed.symm⟩, answered⟩
  · obtain ⟨more, next⟩ := rest.answer_other depth other
    rw [next, known]
    rfl

/-- A logical line over two lines is reported, under the number of the second. -/
theorem answer_interprets_undefined_name :
    (after ⟨20, false⟩ ["x = 7".toList, "(x / # by".toList] (fresh id)).completes
      "(y - 7))".toList = some "(x / (y - 7))".toList ∧
    ∃ next, (after ⟨20, false⟩ ["x = 7".toList, "(x / # by".toList] (fresh id)).Gains next
        ⟨[("x".toList, .int 7)]⟩
        (LogicalLine.report ⟨"(x / (y - 7))".toList, 3⟩ Session.typedPath
          (.undefinedVariable "y".toList) id) ∧
      answer ⟨20, false⟩ "(y - 7))".toList
        (after ⟨20, false⟩ ["x = 7".toList, "(x / # by".toList] (fresh id)) =
          .ok .nothing next := by
  have completes : (after ⟨20, false⟩ ["x = 7".toList, "(x / # by".toList] (fresh id)).completes
      "(y - 7))".toList = some "(x / (y - 7))".toList := by decide +kernel
  have known : (after ⟨20, false⟩ ["x = 7".toList, "(x / # by".toList]
      (fresh id)).desk.session.environment = ⟨[("x".toList, .int 7)]⟩ := by decide +kernel
  have number : (after ⟨20, false⟩ ["x = 7".toList, "(x / # by".toList]
      (fresh id)).lineNumber = 2 := by decide +kernel
  have parsed : Tree.parse 20 "(x / (y - 7))".toList =
      .ok (.binary (.symbol .slash) (.reference "x".toList)
        (.binary (.symbol .minus) (.reference "y".toList) (.literal (.int 7)))) := by cbv
  have low : ∀ t, Tree.parse 20 "(x / (y - 7))".toList = .ok t → t.height ≤ 20 := by
    intro t same
    rw [parsed] at same
    cases same
    decide
  have interpreted : Tree.interpret 20 "(x / (y - 7))".toList ⟨[("x".toList, .int 7)]⟩ =
      .error (.diagnosed (.undefinedVariable "y".toList)) ⟨[("x".toList, .int 7)]⟩ := by
    rw [Tree.interpret, parsed]
    rfl
  obtain ⟨-, answered, -⟩ := answer_interprets 20 id (fun _ => none)
    ["x = 7".toList, "(x / # by".toList] "(y - 7))".toList
  rw [← known] at interpreted
  obtain ⟨next, -, gains, answered⟩ := (answered _ completes low).2 _ _ interpreted
  rw [number, known] at gains
  exact ⟨completes, next, gains, answered⟩

end Shell
end Abacus
