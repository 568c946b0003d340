/- # Running a file

What the program does with a file: it parses all logical lines and stops at the first that is not
parsed; else it evaluates them one after the other, in one environment that is empty at first, and
prints the values up to the first line without one (`Script.values`).  If it stops, it reports the
line at which it does (`LogicalLine.report`, with the paint that the program runs with) and ends
with status 1.

The main result, `Program.run_file`, puts this together.  While a file is worked on, the desk has
one shape throughout (`Desk.ofFile`): the reporter is fatal and the file is the only one open, so
that what is reported is the line marked last.  Queueing keeps all lines apart because their numbers
increase (`Session.addLines_ofFile`), and evaluating them goes hand in hand with `Script.values`
(`Desk.runEntries_ofFile`). -/
import Abacus.Program
import Abacus.Proofs.LogicalLines
import Abacus.Proofs.SessionSteps
import Abacus.Proofs.Writing

namespace Abacus
set_option autoImplicit false

/-! ## What is printed -/

namespace LogicalLine

/-- How a report names a line of a file. -/
def heading (line : LogicalLine) (path : Text) : Text :=
  Text.line ("  File ".toList ++ Text.inQuotes path ++ ", line ".toList ++
    Text.ofInt line.number ++ ":".toList) ++ Text.line ("    ".toList ++ line.text)

def place (line : LogicalLine) : Place := ⟨some line.text, some line.number⟩

end LogicalLine

/-- A line that is the only place is shown without a heading. -/
theorem Reporter.trace_line (fatal : Bool) (path : Text) (paint : Text → Text) (line : LogicalLine)
    (written : line.text ≠ []) :
    Reporter.trace ⟨fatal, ⟨[(path, line.place)]⟩, paint⟩ = line.heading path := by
  have shown : placeText path line.place = some (line.heading path) := by
    obtain ⟨c, more, text⟩ := List.exists_cons_of_ne_nil written
    simp only [LogicalLine.place, placeText, text, LogicalLine.heading]
  simp [trace, shown]

/-- What a report says about a diagnostic, behind the place. -/
def Diagnostic.notice (d : Diagnostic) (paint : Text → Text) : Text :=
  (if d.internal then paint "[internal] ".toList else []) ++
    Text.line (paint "error: ".toList ++ d.message) ++
    (if !d.internal && !d.source.isEmpty && d.pointed then (d.caret paint).line else [])

/-- What a report says about a fault, behind the place: it starts with a mark that tells a fault of
the program from one of its input. -/
def Fault.notice (f : Fault) (paint : Text → Text) : Text :=
  paint "[internal] ".toList ++ Text.line (paint "error: ".toList ++
    ("unknown error: ".toList ++ Text.inQuotes (f.title ++ ": ".toList ++ f.message)))

theorem Console.notice_faultDiagnostic (f : Fault) (paint : Text → Text) :
    (faultDiagnostic f).notice paint = f.notice paint := by
  simp [Diagnostic.notice, Fault.notice]

theorem Reporter.report_eq (r : Reporter) (d : Diagnostic) :
    r.report d = r.trace ++ d.notice r.paint := by
  simp only [report, Diagnostic.notice, List.append_assoc]

/-- The report of a diagnostic at a line of a file. -/
def LogicalLine.report (line : LogicalLine) (path : Text) (d : Diagnostic)
    (paint : Text → Text) : Text :=
  line.heading path ++ d.notice paint

def Text.printed (shown : List Text) : Text := (shown.map Text.line).flatten

/-- The texts of the values of logical lines, evaluated one after the other in one environment, up
to the first line without a value or a text of it; and this line with the failure, if there is
one. -/
def Script.values (depth : Nat) : Environment → List LogicalLine →
    List Text × Option (LogicalLine × Failure)
  | _, [] => ([], none)
  | env, line :: rest =>
      match Tree.interpret depth line.text env with
      | .error e _ => ([], some (line, e))
      | .ok value after =>
          match value.text with
          | .error e => ([], some (line, e))
          | .ok shown =>
              let later := values depth after rest
              (shown :: later.1, later.2)

namespace Script

/-- Where the values stop is a line, and the failure can be reported. -/
theorem values_stop {depth : Nat} {env : Environment} {lines : List LogicalLine}
    {line : LogicalLine} {e : Failure} (stops : (values depth env lines).2 = some (line, e)) :
    line ∈ lines ∧ e.diagnostic?.isSome := by
  induction lines generalizing env with
  | nil => cases stops
  | cons first rest ih =>
      rw [values] at stops
      split at stops
      · rename_i failed
        cases stops
        exact ⟨List.mem_cons_self, Tree.interpret_reported failed⟩
      · split at stops
        · rename_i failed
          cases stops
          exact ⟨List.mem_cons_self, Number.text_reported failed⟩
        · obtain ⟨member, reported⟩ := ih stops
          exact ⟨List.mem_cons_of_mem _ member, reported⟩

/-- Without a failure there is one value for every line. -/
theorem length_values {depth : Nat} {env : Environment} {lines : List LogicalLine}
    (finished : (values depth env lines).2 = none) :
    (values depth env lines).1.length = lines.length := by
  induction lines generalizing env with
  | nil => rfl
  | cons line rest ih =>
      rw [values] at finished ⊢
      split at finished
      · cases finished
      · rename_i value after evaluated
        split at finished
        · cases finished
        · exact congrArg (· + 1) (ih finished)

/-- If not all lines are parsed, there is a first that is not. -/
theorem first_unparsed {depth : Nat} {lines : List LogicalLine}
    (unparsed : ¬ ∀ line ∈ lines, ∃ t, Tree.parse depth line.text = .ok t) :
    ∃ before line after e, lines = before ++ line :: after ∧
      (∀ l ∈ before, ∃ t, Tree.parse depth l.text = .ok t) ∧
      Tree.parse depth line.text = .error e := by
  induction lines with
  | nil => exact absurd (by simp) unparsed
  | cons first rest ih =>
      cases parsed : Tree.parse depth first.text with
      | error e => exact ⟨[], first, rest, e, rfl, by simp, parsed⟩
      | ok t =>
          obtain ⟨before, line, after, e, rfl, earlier, failed⟩ := ih (by
            intro all
            refine unparsed fun line member => ?_
            rcases List.mem_cons.mp member with rfl | member
            · exact ⟨t, parsed⟩
            · exact all line member)
          refine ⟨first :: before, line, after, e, rfl, fun l member => ?_, failed⟩
          rcases List.mem_cons.mp member with rfl | member
          · exact ⟨t, parsed⟩
          · exact earlier l member

/-- A line that is not parsed has no value. -/
theorem parses_of_values {depth : Nat} {env : Environment} {lines : List LogicalLine}
    (finished : (values depth env lines).2 = none) :
    ∀ line ∈ lines, ∃ t, Tree.parse depth line.text = .ok t := by
  induction lines generalizing env with
  | nil => simp
  | cons line rest ih =>
      rw [values] at finished
      split at finished
      · cases finished
      · rename_i value after evaluated
        split at finished
        · cases finished
        · intro other member
          rcases List.mem_cons.mp member with rfl | member
          · cases parsed : Tree.parse depth other.text with
            | ok t => exact ⟨t, rfl⟩
            | error e =>
                rw [Tree.interpret, parsed] at evaluated
                cases evaluated
          · exact ih finished other member

end Script

/-! ## The desk while a file is worked on -/

namespace Desk

/-- A session on the only open file, with a fatal reporter. -/
def ofFile (paint : Text → Text) (path : Text) (place : Place) (out : Text) (session : Session) :
    Desk :=
  ⟨{ reporter := { places := ⟨[(path, place)]⟩, paint }, out }, session⟩

variable {paint : Text → Text} {path out : Text} {place : Place} {session : Session} {depth : Nat}

theorem mark_ofFile (here : session.path = path) (other : Place) :
    (ofFile paint path place out session).mark other = ofFile paint path other out session := by
  simp [mark, ofFile, Reporter.setLine, OrderedMap.insert, OrderedMap.put, here]

theorem add_ofFile_error (here : session.path = path) (line : LogicalLine) {e : Failure}
    (failed : Tree.parse depth line.text = .error e) :
    add ⟨depth, false⟩ line.text line.number (ofFile paint path place out session) =
      .error e (ofFile paint path line.place out session) := by
  rw [add_eq, failed]
  exact congrArg _ (mark_ofFile here _)

theorem add_ofFile (here : session.path = path) (line : LogicalLine) {t : Tree}
    (parsed : Tree.parse depth line.text = .ok t) (low : t.height ≤ depth) :
    add ⟨depth, false⟩ line.text line.number (ofFile paint path place out session) =
      .ok () (ofFile paint path {} out
        { session with queue := session.queue.insert line.number (line.text, t) }) := by
  obtain ⟨w, written, valid⟩ := Tree.writable_of_parse parsed
  rcases written.display valid depth 0 with ⟨-, high⟩ | ⟨shown, ok⟩
  · omega
  · rw [add_eq, parsed]
    dsimp only
    rw [ok]
    exact congrArg _ (@mark_ofFile paint path out place
      { session with queue := session.queue.insert line.number (line.text, t) } here {})

/-- One place is shown without a heading. -/
theorem trace_ofFile (line : LogicalLine) (written : line.text ≠ []) :
    (ofFile paint path line.place out session).console.reporter.trace = line.heading path :=
  Reporter.trace_line true path paint line written

/-- The report of a diagnostic names the line that is marked. -/
theorem report_ofFile (line : LogicalLine) (written : line.text ≠ []) (d : Diagnostic) :
    (ofFile paint path line.place out session).console.report d =
      (some (.exit "1".toList),
        (ofFile paint path line.place (out ++ line.report path d paint) session).console) := by
  have text : (ofFile paint path line.place out session).console.reporter.report d =
      line.report path d paint := by
    rw [Reporter.report_eq, trace_ofFile line written, LogicalLine.report]
    rfl
  rw [Console.report, text]
  rfl

/-- The reporter of a file ends the program with status 1. -/
theorem handle_ofFile (line : LogicalLine) (written : line.text ≠ []) {e : Failure}
    {d : Diagnostic} (reported : e.diagnostic? = some d) :
    (ofFile paint path line.place out session).console.handle e =
      (some (.exit "1".toList),
        (ofFile paint path line.place (out ++ line.report path d paint) session).console) := by
  have report := @report_ofFile paint path out session line written
  cases e with
  | exit status => cases reported
  | diagnosed d =>
      cases reported
      exact report d
  | tooDeep =>
      cases reported
      exact report _
  | interrupted message =>
      cases reported
      exact report _
  | internal f =>
      cases reported
      rw [Console.handle, report]

end Desk

/-! ## Queueing the lines -/

/-- Whether a queued entry is a parsed logical line. -/
def Script.Loads (depth : Nat) (line : LogicalLine) (entry : Int × (Text × Tree)) : Prop :=
  entry.1 = line.number ∧ entry.2.1 = line.text ∧ Tree.parse depth line.text = .ok entry.2.2

namespace Session

variable {paint : Text → Text} {path out : Text} {depth : Nat}

theorem addLines_cons (cfg : Settings) (line : LogicalLine) (rest : List LogicalLine) (d : Desk) :
    addLines cfg (line :: rest) d = match Desk.add cfg line.text line.number d with
      | .ok _ after => addLines cfg rest after
      | .error e after => .error e after := by
  rw [addLines, bind_apply]
  cases Desk.add cfg line.text line.number d <;> rfl

/-- Queueing stops at the first line that is not parsed, which stays marked. -/
theorem addLines_ofFile_error (before : List LogicalLine) (line : LogicalLine)
    (rest : List LogicalLine) {e : Failure}
    (parses : ∀ l ∈ before, ∃ t, Tree.parse depth l.text = .ok t)
    (shallow : ∀ l ∈ before, ∀ t, Tree.parse depth l.text = .ok t → t.height ≤ depth)
    (failed : Tree.parse depth line.text = .error e) (session : Session)
    (here : session.path = path) :
    ∃ last, addLines ⟨depth, false⟩ (before ++ line :: rest)
      (Desk.ofFile paint path {} out session) =
      .error e (Desk.ofFile paint path line.place out last) := by
  induction before generalizing session with
  | nil =>
      refine ⟨session, ?_⟩
      rw [List.nil_append, addLines_cons, Desk.add_ofFile_error here line failed]
  | cons first before ih =>
      obtain ⟨t, parsed⟩ := parses first List.mem_cons_self
      have low := shallow first List.mem_cons_self t parsed
      rw [List.cons_append, addLines_cons, Desk.add_ofFile here first parsed low]
      exact ih (fun l member => parses l (List.mem_cons_of_mem _ member))
        (fun l member => shallow l (List.mem_cons_of_mem _ member)) _ here

/-- Where numbers go up, the first goes to the end of a queue of lower ones, and all others stay
above the queue. -/
theorem insert_below {queue : OrderedMap Int (Text × Tree)} {first : LogicalLine}
    {rest : List LogicalLine}
    (sorted : (first :: rest).Pairwise fun first second => first.number < second.number)
    (fresh : ∀ l ∈ first :: rest, ∀ key ∈ queue.keys, key < l.number) (entry : Text × Tree) :
    queue.insert first.number entry = ⟨queue.entries ++ [(first.number, entry)]⟩ ∧
      ∀ l ∈ rest, ∀ key ∈ (queue.insert first.number entry).keys, key < l.number := by
  have new : first.number ∉ queue.keys := fun member =>
    Int.lt_irrefl _ (fresh first List.mem_cons_self _ member)
  refine ⟨queue.insert_fresh new entry, fun l member key isKey => ?_⟩
  rw [OrderedMap.keys_insert, if_neg new, List.mem_append, List.mem_singleton] at isKey
  rcases isKey with isKey | rfl
  · exact fresh l (List.mem_cons_of_mem _ member) key isKey
  · exact (List.pairwise_cons.mp sorted).1 l member

/-- If all lines are parsed, they are queued in their order: no number comes twice. -/
theorem addLines_ofFile (lines : List LogicalLine)
    (parses : ∀ l ∈ lines, ∃ t, Tree.parse depth l.text = .ok t)
    (shallow : ∀ l ∈ lines, ∀ t, Tree.parse depth l.text = .ok t → t.height ≤ depth)
    (sorted : lines.Pairwise fun first second => first.number < second.number)
    (session : Session) (here : session.path = path)
    (fresh : ∀ l ∈ lines, ∀ key ∈ session.queue.keys, key < l.number) :
    ∃ entries, List.Forall₂ (Script.Loads depth) lines entries ∧
      addLines ⟨depth, false⟩ lines (Desk.ofFile paint path {} out session) =
        .ok () (Desk.ofFile paint path {} out
          { session with queue := ⟨session.queue.entries ++ entries⟩ }) := by
  induction lines generalizing session with
  | nil =>
      refine ⟨[], .nil, ?_⟩
      rw [List.append_nil]
      rfl
  | cons first rest ih =>
      obtain ⟨t, parsed⟩ := parses first List.mem_cons_self
      have low := shallow first List.mem_cons_self t parsed
      obtain ⟨queued, later⟩ := insert_below sorted fresh (first.text, t)
      have sorted := (List.pairwise_cons.mp sorted).2
      obtain ⟨entries, loads, loaded⟩ := ih
        (fun l member => parses l (List.mem_cons_of_mem _ member))
        (fun l member => shallow l (List.mem_cons_of_mem _ member)) sorted
        { session with queue := session.queue.insert first.number (first.text, t) } here later
      refine ⟨(first.number, first.text, t) :: entries, .cons ⟨rfl, rfl, parsed⟩ loads, ?_⟩
      rw [addLines_cons, Desk.add_ofFile here first parsed low]
      dsimp only
      rw [loaded, queued]
      simp only [List.append_assoc, List.singleton_append]

end Session

/-! ## Evaluating the queue -/

namespace Desk

/-- How evaluating the lines of a file ends that prints the given values. -/
def finished (paint : Text → Text) (path out : Text)
    (values : List Text × Option (LogicalLine × Failure)) (session : Session) :
    EStateM.Result Failure Desk Unit :=
  match values.2 with
  | none => .ok () (ofFile paint path {} (out ++ Text.printed values.1) session)
  | some (line, e) => .error e (ofFile paint path line.place (out ++ Text.printed values.1) session)

variable {paint : Text → Text} {path out : Text} {depth : Nat}

theorem runEntries_cons (cfg : Settings) (line : Int) (text : Text) (tree : Tree)
    (rest : List (Int × (Text × Tree))) (d : Desk) :
    runEntries cfg ((line, text, tree) :: rest) d = match runEntry cfg line text tree d with
      | .ok _ after => runEntries cfg rest after
      | .error e after => .error e after := by
  rw [runEntries, bind_apply]
  cases runEntry cfg line text tree d <;> rfl

theorem finished_cons (shown : Text) (values : List Text × Option (LogicalLine × Failure))
    (session : Session) :
    finished paint path out (shown :: values.1, values.2) session =
      finished paint path (out ++ shown.line) values session := by
  obtain ⟨texts, stop⟩ := values
  cases stop with
  | none => simp [finished, Text.printed]
  | some last => simp [finished, Text.printed]

theorem runEntries_ofFile {lines : List LogicalLine} {entries : List (Int × (Text × Tree))}
    (loads : List.Forall₂ (Script.Loads depth) lines entries) (out : Text) (session : Session)
    (here : session.path = path) (echo : session.echo) :
    ∃ last, runEntries ⟨depth, false⟩ entries (ofFile paint path {} out session) =
      finished paint path out (Script.values depth session.environment lines) last := by
  induction loads generalizing out session with
  | nil =>
      refine ⟨session, ?_⟩
      simp only [Script.values, finished, Text.printed, List.map_nil, List.flatten_nil,
        List.append_nil]
      rfl
  | @cons line entry lines entries load loads ih =>
      obtain ⟨number, text, t⟩ := entry
      obtain ⟨rfl, rfl, parsed⟩ := load
      have interpreted : Tree.interpret depth line.text = t.evaluate depth := by
        rw [Tree.interpret, parsed]
      have ran := runEntry_eq depth line.number line.text t (ofFile paint path {} out session)
      have known : (ofFile paint path {} out session).session = session := rfl
      rw [mark_ofFile here, known] at ran
      rw [runEntries_cons, ran, Script.values, interpreted]
      cases t.evaluate depth session.environment with
      | error e environment =>
          refine ⟨{ session with environment, queue := session.queue.erase line.number }, ?_⟩
          simp only [finished, Text.printed, List.map_nil, List.flatten_nil, List.append_nil]
          rfl
      | ok value environment =>
          let kept : Session := { session with
            environment
            queue := session.queue.erase line.number
            results := session.results ++ [value] }
          dsimp only
          rw [if_pos echo]
          cases value.text with
          | error e =>
              refine ⟨kept, ?_⟩
              simp only [finished, Text.printed, List.map_nil, List.flatten_nil, List.append_nil]
              rfl
          | ok shown =>
              have lifted : (ofFile paint path line.place (out ++ shown.line) kept).mark {} =
                  ofFile paint path {} (out ++ shown.line) kept :=
                @mark_ofFile paint path (out ++ shown.line) line.place kept here {}
              obtain ⟨last, rest⟩ := ih (out ++ shown.line) kept here echo
              refine ⟨last, ?_⟩
              rw [finished_cons]
              exact (congrArg (runEntries ⟨depth, false⟩ entries) lifted).trans rest

end Desk

/-! ## The program -/

/-- A single word is taken as the file. -/
theorem CommandLine.parse_word {path : Text} (word : classify path = .ok (.word path)) :
    parse [path] = .run { file := some path } := by
  have notDivider : path ≠ "--".toList := by
    rintro rfl
    have ambiguous : (classify "--".toList).toOption = none := by decide +kernel
    rw [word] at ambiguous
    cases ambiguous
  rw [parse, classifyAll, if_neg notDivider, word]
  rfl

theorem Session.start_file {depth : Nat} {read : FileReader} {path text : Text}
    {paint : Text → Text}
    (named : path ≠ typedPath) (readable : readFile read path = .ok text) :
    start ⟨depth, false⟩ read path false true (.opened paint) =
      match addLines ⟨depth, false⟩ (Script.ofLines text.lines)
          (Desk.ofFile paint path {} [] { path, echo := true }) with
      | .ok _ d => .ok d.session d.console
      | .error e d => .error e d.console := by
  rw [start, load, if_neg named, readable]
  rfl

theorem Session.perform_run (cfg : Settings) (session : Session) (c : Console) :
    session.perform (Desk.run cfg) c =
      match Desk.runEntries cfg session.queue.entries ⟨c, session⟩ with
      | .ok _ d => .ok () d.console
      | .error e d => .error e d.console := by
  have queue : Desk.run cfg ⟨c, session⟩ = Desk.runEntries cfg session.queue.entries ⟨c, session⟩ :=
    rfl
  rw [perform, queue]
  cases Desk.runEntries cfg session.queue.entries ⟨c, session⟩ <;> rfl

namespace Program

/-- What is left of an operation when its failure was dealt with. -/
theorem guarded_eq (action : EStateM Failure Console Unit) (c : Console) :
    guarded action c = match action c with
      | .ok _ after => .ok () after
      | .error e after =>
          match after.handle e with
          | (none, c) => .ok () c
          | (some e, c) => .error e c := by
  rw [guarded, Console.guard_eq]
  cases action c <;> rfl

theorem run_word {path : Text} (word : CommandLine.classify path = .ok (.word path)) (depth : Nat)
    (read : FileReader) (input : List Text) (paint : Text → Text) :
    run depth read input [path] paint =
      match guarded (runFile ⟨depth, false⟩ read path) (.opened paint) with
      | .ok _ c => { status := .ok 0, out := c.out, log := c.log }
      | .error e c => { status := .error e, out := c.out, log := c.log } := by
  rw [run, CommandLine.parse_word word]
  rfl

theorem runFile_eq (depth : Nat) (read : FileReader) (path : Text) (c : Console) :
    runFile ⟨depth, false⟩ read path c =
      match Session.start ⟨depth, false⟩ read path false true c with
      | .ok session after => session.perform (Desk.run ⟨depth, false⟩) after
      | .error e after => .error e after := by
  have steps : runFile ⟨depth, false⟩ read path c =
      (do
        let session ← Session.start ⟨depth, false⟩ read path false true
        session.perform (Desk.run ⟨depth, false⟩) : EStateM Failure Console Unit) c := rfl
  rw [steps]
  simp only [bind, EStateM.bind]
  cases Session.start ⟨depth, false⟩ read path false true c <;> rfl

theorem run_stopped {depth : Nat} {read : FileReader} {path out : Text} {paint : Text → Text}
    (word : CommandLine.classify path = .ok (.word path)) (input : List Text)
    {line : LogicalLine} {e : Failure} (written : line.text ≠ [])
    (reported : e.diagnostic?.isSome) (session : Session)
    (ran : runFile ⟨depth, false⟩ read path (.opened paint) =
      .error e (Desk.ofFile paint path line.place out session).console) :
    ∃ d, e.diagnostic? = some d ∧ run depth read input [path] paint =
      { status := .error (.exit "1".toList), out := out ++ line.report path d paint } := by
  obtain ⟨d, reported⟩ := Option.isSome_iff_exists.mp reported
  refine ⟨d, reported, ?_⟩
  rw [run_word word, guarded_eq, ran]
  dsimp only
  rw [Desk.handle_ofFile line written reported]
  rfl

theorem run_done {depth : Nat} {read : FileReader} {path out : Text} {paint : Text → Text}
    (word : CommandLine.classify path = .ok (.word path)) (input : List Text) (session : Session)
    (ran : runFile ⟨depth, false⟩ read path (.opened paint) =
      .ok () (Desk.ofFile paint path {} out session).console) :
    run depth read input [path] paint = { status := .ok 0, out } := by
  rw [run_word word, guarded_eq, ran]
  rfl

section

variable {depth : Nat} {read : FileReader} {path text : Text} {paint : Text → Text}
  (word : CommandLine.classify path = .ok (.word path)) (named : path ≠ Session.typedPath)
  (readable : Session.readFile read path = .ok text)
  (shallow : ∀ line ∈ Script.ofLines text.lines, ∀ t,
    Tree.parse depth line.text = .ok t → t.height ≤ depth)

include named readable shallow

theorem runFile_unparsed {before after : List LogicalLine} {line : LogicalLine} {e : Failure}
    (split : Script.ofLines text.lines = before ++ line :: after)
    (parses : ∀ l ∈ before, ∃ t, Tree.parse depth l.text = .ok t)
    (failed : Tree.parse depth line.text = .error e) :
    ∃ last, runFile ⟨depth, false⟩ read path (.opened paint) =
      .error e (Desk.ofFile paint path line.place [] last).console := by
  have inside : ∀ l ∈ before, l ∈ Script.ofLines text.lines := by
    intro l member
    rw [split]
    exact List.mem_append_left _ member
  have loaded : ∃ last, Session.addLines ⟨depth, false⟩ (before ++ line :: after)
      (Desk.ofFile paint path {} [] { path, echo := true }) =
        .error e (Desk.ofFile paint path line.place [] last) :=
    Session.addLines_ofFile_error before line after parses
      (fun l member => shallow l (inside l member)) failed { path, echo := true } rfl
  obtain ⟨last, loaded⟩ := loaded
  refine ⟨last, ?_⟩
  rw [runFile_eq, Session.start_file named readable, split, loaded]

theorem runFile_parsed
    (parses : ∀ l ∈ Script.ofLines text.lines, ∃ t, Tree.parse depth l.text = .ok t) :
    ∃ last, runFile ⟨depth, false⟩ read path (.opened paint) =
      match Desk.finished paint path []
          (Script.values depth .empty (Script.ofLines text.lines)) last with
      | .ok _ d => .ok () d.console
      | .error e d => .error e d.console := by
  have loaded : ∃ entries, List.Forall₂ (Script.Loads depth) (Script.ofLines text.lines) entries ∧
      Session.addLines ⟨depth, false⟩ (Script.ofLines text.lines)
        (Desk.ofFile paint path {} [] { path, echo := true }) =
          .ok () (Desk.ofFile paint path {} []
            { path, echo := true, queue := ⟨[] ++ entries⟩ }) :=
    Session.addLines_ofFile (Script.ofLines text.lines) parses shallow
      (Script.ofLines_ordered text.lines).1 { path, echo := true } rfl
      (by simp [OrderedMap.keys, OrderedMap.empty])
  obtain ⟨entries, loads, loaded⟩ := loaded
  obtain ⟨last, ran⟩ := Desk.runEntries_ofFile loads [] { path, echo := true, queue := ⟨entries⟩ }
    (rfl : _ = path) rfl
  refine ⟨last, ?_⟩
  rw [runFile_eq, Session.start_file named readable, loaded]
  dsimp only
  rw [Session.perform_run, ← ran]
  rfl

include word

/-- If a line is not parsed, the report of the first such line is all that is printed. -/
theorem run_unparsed (input : List Text) {before after : List LogicalLine} {line : LogicalLine}
    {e : Failure} (split : Script.ofLines text.lines = before ++ line :: after)
    (parses : ∀ l ∈ before, ∃ t, Tree.parse depth l.text = .ok t)
    (failed : Tree.parse depth line.text = .error e) :
    ∃ d, e.diagnostic? = some d ∧ run depth read input [path] paint =
      { status := .error (.exit "1".toList), out := line.report path d paint } := by
  have written : line.text ≠ [] := by
    apply (Script.ofLines_ordered text.lines).2
    rw [split]
    simp
  obtain ⟨last, ran⟩ := runFile_unparsed named readable shallow split parses failed
  exact run_stopped word input written (Tree.parse_reported failed) last ran

/-- If all lines are parsed and one has no value, the values before it and its report are
printed. -/
theorem run_parsed_stopped (input : List Text)
    (parses : ∀ l ∈ Script.ofLines text.lines, ∃ t, Tree.parse depth l.text = .ok t)
    {shown : List Text} {line : LogicalLine} {e : Failure}
    (values : Script.values depth .empty (Script.ofLines text.lines) = (shown, some (line, e))) :
    ∃ d, e.diagnostic? = some d ∧ run depth read input [path] paint =
      { status := .error (.exit "1".toList)
        out := Text.printed shown ++ line.report path d paint } := by
  obtain ⟨member, reported⟩ := Script.values_stop (congrArg Prod.snd values)
  have written := (Script.ofLines_ordered text.lines).2 line member
  obtain ⟨last, ran⟩ := runFile_parsed named readable shallow parses
  rw [values] at ran
  exact run_stopped word input written reported last ran

/-- If all lines have values, these are all that is printed. -/
theorem run_parsed_done (input : List Text) {shown : List Text}
    (values : Script.values depth .empty (Script.ofLines text.lines) = (shown, none)) :
    run depth read input [path] paint = { status := .ok 0, out := Text.printed shown } := by
  have parses := Script.parses_of_values (congrArg Prod.snd values)
  obtain ⟨last, ran⟩ := runFile_parsed named readable shallow parses
  rw [values] at ran
  exact run_done word input last ran

end

/-- The program on a readable file, where no tree is higher than the allowance, with any paint for
its reports.  It ends with status
1 and the report of the first line that is not parsed, if there is one; else it prints the values up
to the first line without one, and ends with the report of this line and status 1 if there is one.
The status is 0 exactly if all lines have values, and then nothing else is printed. -/
theorem run_file (depth : Nat) (read : FileReader) (input : List Text) (path text : Text)
    (paint : Text → Text)
    (word : CommandLine.classify path = .ok (.word path)) (named : path ≠ Session.typedPath)
    (readable : Session.readFile read path = .ok text)
    (shallow : ∀ line ∈ Script.ofLines text.lines, ∀ t,
      Tree.parse depth line.text = .ok t → t.height ≤ depth) :
    (∀ before line after e, Script.ofLines text.lines = before ++ line :: after →
      (∀ l ∈ before, ∃ t, Tree.parse depth l.text = .ok t) →
      Tree.parse depth line.text = .error e →
      ∃ d, e.diagnostic? = some d ∧ run depth read input [path] paint =
        { status := .error (.exit "1".toList), out := line.report path d paint }) ∧
    ((∀ l ∈ Script.ofLines text.lines, ∃ t, Tree.parse depth l.text = .ok t) →
      ∀ shown line e,
        Script.values depth .empty (Script.ofLines text.lines) = (shown, some (line, e)) →
        ∃ d, e.diagnostic? = some d ∧ run depth read input [path] paint =
          { status := .error (.exit "1".toList)
            out := Text.printed shown ++ line.report path d paint }) ∧
    (∀ shown, Script.values depth .empty (Script.ofLines text.lines) = (shown, none) →
      shown.length = (Script.ofLines text.lines).length ∧
      run depth read input [path] paint = { status := .ok 0, out := Text.printed shown }) ∧
    ((run depth read input [path] paint).status = .ok 0 ↔
      (Script.values depth .empty (Script.ofLines text.lines)).2 = none) := by
  refine ⟨?_, ?_, ?_, ?_, ?_⟩
  · intro before line after e split parses failed
    exact run_unparsed word named readable shallow input split parses failed
  · intro parses shown line e values
    exact run_parsed_stopped word named readable shallow input parses values
  · intro shown values
    have size := Script.length_values (congrArg Prod.snd values)
    rw [values] at size
    exact ⟨size, run_parsed_done word named readable shallow input values⟩
  · intro success
    by_cases parses : ∀ l ∈ Script.ofLines text.lines, ∃ t, Tree.parse depth l.text = .ok t
    · cases values : Script.values depth .empty (Script.ofLines text.lines) with
      | mk shown stop =>
          cases stop with
          | none => rfl
          | some last =>
              obtain ⟨d, -, stopped⟩ :=
                run_parsed_stopped word named readable shallow input parses values
              rw [stopped] at success
              cases success
    · obtain ⟨before, line, after, e, split, earlier, failed⟩ := Script.first_unparsed parses
      obtain ⟨d, -, stopped⟩ := run_unparsed word named readable shallow input split earlier failed
      rw [stopped] at success
      cases success
  · intro all
    rw [run_parsed_done word named readable shallow input (Prod.ext rfl all)]

/-- Two values are printed before the third line is reported. -/
theorem run_file_undefined_name :
    CommandLine.classify "calc.txt".toList = .ok (.word "calc.txt".toList) ∧
    Session.readFile (fun _ => some "x = 5\n(x +\n1)\ny\n".toUTF8.toList) "calc.txt".toList =
      .ok "x = 5\n(x +\n1)\ny\n".toList ∧
    run 20 (fun _ => some "x = 5\n(x +\n1)\ny\n".toUTF8.toList) [] ["calc.txt".toList] id =
      { status := .error (.exit "1".toList)
        out := Text.printed ["5".toList, "6".toList] ++
          LogicalLine.report ⟨"y".toList, 4⟩ "calc.txt".toList
            (.undefinedVariable "y".toList) id } := by
  have word : CommandLine.classify "calc.txt".toList = .ok (.word "calc.txt".toList) := by cbv
  have readable : Session.readFile (fun _ => some "x = 5\n(x +\n1)\ny\n".toUTF8.toList)
      "calc.txt".toList = .ok "x = 5\n(x +\n1)\ny\n".toList := by cbv
  have lines : Script.ofLines (Text.lines "x = 5\n(x +\n1)\ny\n".toList) =
      [⟨"x = 5".toList, 1⟩, ⟨"(x + 1)".toList, 3⟩, ⟨"y".toList, 4⟩] := by decide +kernel
  -- every line with its tree, from which both hypotheses on the lines follow
  have parsed : ∀ line ∈ ([⟨"x = 5".toList, 1⟩, ⟨"(x + 1)".toList, 3⟩, ⟨"y".toList, 4⟩] :
      List LogicalLine), ∃ t, Tree.parse 20 line.text = .ok t ∧ t.height ≤ 20 := by
    intro line member
    simp only [List.mem_cons, List.not_mem_nil, or_false] at member
    rcases member with rfl | rfl | rfl
    · exact ⟨.assignment (.reference "x".toList) (.literal (.int 5)), by cbv, by decide⟩
    · exact ⟨.binary (.symbol .plus) (.reference "x".toList) (.literal (.int 1)), by cbv,
        by decide⟩
    · exact ⟨.reference "y".toList, by cbv, by decide⟩
  have values : Script.values 20 .empty
      [⟨"x = 5".toList, 1⟩, ⟨"(x + 1)".toList, 3⟩, ⟨"y".toList, 4⟩] =
        (["5".toList, "6".toList],
          some (⟨"y".toList, 4⟩, .diagnosed (.undefinedVariable "y".toList))) := by
    decide +kernel
  rw [← lines] at parsed values
  have shallow : ∀ line ∈ Script.ofLines (Text.lines "x = 5\n(x +\n1)\ny\n".toList), ∀ t,
      Tree.parse 20 line.text = .ok t → t.height ≤ 20 := by
    intro line member t same
    obtain ⟨t', found, low⟩ := parsed line member
    rw [found] at same
    cases same
    exact low
  obtain ⟨-, stops, -⟩ := run_file 20 _ [] "calc.txt".toList _ id word (by decide) readable shallow
  obtain ⟨d, reported, stopped⟩ := stops
    (fun line member => (parsed line member).imp fun t found => found.1) _ _ _ values
  cases reported
  exact ⟨word, readable, stopped⟩

end Program
end Abacus
