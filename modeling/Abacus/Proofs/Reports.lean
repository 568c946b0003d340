/- # Reports name what failed

Sessions that share one console are taken through deeds: a session is opened, or one of them takes a
step.  Each deed is guarded, so a failure is reported at once, and the next deed follows whether or
not the failure goes on to the caller (`Office.after`).

`Office.report_names_blamed`: between two deeds no line is marked in any file.  So a report shows
the one line at which the deed failed, with its path and number, and it shows none where the deed
did not fail at a line.

One console serves all sessions, and two of them may work on one path.  The proof does not depend on
which marks belong to which session: an attempt starts with no mark at all, sets one at most, and
lifts it unless it fails (`Settles`); a report lifts all of them. -/
import Abacus.Proofs.Conversation
import Abacus.Proofs.Queue

namespace Abacus
set_option autoImplicit false

open Session (Entry)

/-! ## A reporter without marks -/

theorem OrderedMap.mem_put {κ ν : Type} [DecidableEq κ] {key : κ} {value : ν}
    {entries : List (κ × ν)} {entry : κ × ν} (member : entry ∈ put key value entries) :
    entry = (key, value) ∨ entry ∈ entries := by
  induction entries with
  | nil => exact .inl (List.mem_singleton.mp member)
  | cons first rest ih =>
      rw [put] at member
      split at member
      · exact (List.mem_cons.mp member).imp_right (List.mem_cons_of_mem _)
      · rcases List.mem_cons.mp member with rfl | member
        · exact .inr List.mem_cons_self
        · exact (ih member).imp_right (List.mem_cons_of_mem _)

namespace Reporter

/-- Reports are not fatal and come with a given paint. -/
structure Mild (paint : Text → Text) (r : Reporter) : Prop where
  fatal : r.fatal = false
  painted : r.paint = paint

/-- No line is worked on in any open file. -/
structure Idle (paint : Text → Text) (r : Reporter) : Prop extends r.Mild paint where
  clear : ∀ entry ∈ r.places.entries, entry.2 = {}

namespace Idle

variable {paint : Text → Text} {r : Reporter}

theorem clearLine (idle : r.Idle paint) (path : Text) : (r.clearLine path).Idle paint := by
  refine ⟨⟨idle.fatal, idle.painted⟩, fun entry member => ?_⟩
  rcases OrderedMap.mem_put member with rfl | member
  · rfl
  · exact idle.clear entry member

theorem filled (mild : r.Mild paint) : Idle paint { r with places := r.places.fill {} } := by
  refine ⟨⟨mild.fatal, mild.painted⟩, fun entry member => ?_⟩
  obtain ⟨old, -, rfl⟩ := List.mem_map.mp member
  rfl

theorem shown (idle : r.Idle paint) :
    r.places.entries.filterMap (fun entry => placeText entry.1 entry.2) = [] := by
  rw [List.filterMap_eq_nil_iff]
  intro entry member
  rw [idle.clear entry member]
  rfl

/-- Where nothing is marked, no place is shown. -/
theorem trace (idle : r.Idle paint) : r.trace = [] := by
  rw [Reporter.trace, idle.shown]
  rfl

/-- Where nothing else is marked, one place is shown at most. -/
theorem shown_setLine (idle : r.Idle paint) (path : Text) (place : Place) :
    (r.setLine path place).places.entries.filterMap (fun entry => placeText entry.1 entry.2) =
      (placeText path place).toList := by
  have alone : ∀ entries : List (Text × Place), (∀ entry ∈ entries, entry.2 = {}) →
      (OrderedMap.put path place entries).filterMap (fun entry => placeText entry.1 entry.2) =
        (placeText path place).toList := by
    intro entries clear
    induction entries with
    | nil => cases shown : placeText path place <;> simp [OrderedMap.put, shown]
    | cons first rest ih =>
        have later : ∀ entry ∈ rest, entry.2 = {} :=
          fun entry member => clear entry (List.mem_cons_of_mem _ member)
        rw [OrderedMap.put]
        split
        · have others : rest.filterMap (fun entry => placeText entry.1 entry.2) = [] :=
            @shown paint ⟨false, ⟨rest⟩, paint⟩ ⟨⟨rfl, rfl⟩, later⟩
          cases shown : placeText path place <;> simp [shown, others]
        · have hidden : placeText first.1 first.2 = none := by
            rw [clear first List.mem_cons_self]
            rfl
          rw [List.filterMap_cons, hidden]
          exact ih later
  exact alone r.places.entries idle.clear

theorem trace_setLine (idle : r.Idle paint) (path : Text) (place : Place) :
    (r.setLine path place).trace = (placeText path place).getD [] := by
  rw [Reporter.trace, idle.shown_setLine]
  cases placeText path place <;> simp

end Idle

end Reporter

/-- What a guarded operation leaves, whether or not its failure goes on to the caller. -/
theorem Console.remains_guard {σ α : Type} (console : σ → Console) (put : σ → Console → σ)
    (action : EStateM Failure σ α) (s : σ) :
    remains (guard console put action s) = match action s with
      | .ok _ after => after
      | .error e after => put after ((console after).handle e).2 := by
  unfold guard
  cases action s with
  | ok result after => rfl
  | error e after =>
      dsimp only
      cases (console after).handle e with
      | mk passed c => cases passed <;> rfl

/-! ## What is to blame -/

/-- A line of a file, with the path of the file, if a failure is tied to one. -/
abbrev Blame := Option (Text × LogicalLine)

/-- How a report names what is to blame. -/
def Blame.heading : Blame → Text
  | none => []
  | some (path, line) => line.heading path

/-- How an attempt ends that started without marks: without marks, or with a failure that can be
reported, and then all that a report shows is what is to blame. -/
def Settles {σ α : Type} (paint : Text → Text) (console : σ → Console) (Sound : σ → Prop)
    (Blames : Failure → Blame → Prop) : EStateM.Result Failure σ α → Prop
  | .ok _ next => (console next).reporter.Idle paint ∧ Sound next
  | .error e next => e.diagnostic?.isSome ∧ (console next).reporter.Mild paint ∧ Sound next ∧
      ∃ blame, Blames e blame ∧ (console next).reporter.trace = blame.heading

theorem Settles.imp {σ α : Type} {paint : Text → Text} {console : σ → Console} {Sound : σ → Prop}
    {Blames Blames' : Failure → Blame → Prop} {result : EStateM.Result Failure σ α}
    (settles : Settles paint console Sound Blames result)
    (weaker : ∀ e blame, Blames e blame → Blames' e blame) :
    Settles paint console Sound Blames' result := by
  cases result with
  | ok value next => exact settles
  | error e failed =>
      obtain ⟨reported, mild, sound, blame, blames, trace⟩ := settles
      exact ⟨reported, mild, sound, blame, weaker e blame blames, trace⟩

/-- What is queued was parsed, each line under a number of its own. -/
structure Session.Sound (cfg : Settings) (s : Session) : Prop where
  distinct : s.queue.keys.Nodup
  parsed : ∀ entry ∈ s.queue.entries, Tree.parse cfg.depth entry.2.1 = .ok entry.2.2

theorem Tree.parse_nil (depth : Nat) : ∃ e, parse depth [] = .error e := by
  match depth with
  | 0 | 1 | 2 | 3 | 4 | 5 => exact ⟨_, rfl⟩
  | depth + 6 => exact ⟨_, rfl⟩

namespace Session.Sound

variable {cfg : Settings} {s : Session}

theorem queued (sound : s.Sound cfg) {text : Text} {tree : Tree}
    (parsed : Tree.parse cfg.depth text = .ok tree) (line : Int) :
    Sound cfg { s with queue := s.queue.insert line (text, tree) } := by
  refine ⟨OrderedMap.nodup_insert sound.distinct _ _, fun entry member => ?_⟩
  rcases OrderedMap.mem_put member with rfl | member
  · exact parsed
  · exact sound.parsed entry member

theorem left (sound : s.Sound cfg) {before rest : List Entry}
    (split : s.queue.entries = before ++ rest) {next : Session} (queue : next.queue = ⟨rest⟩) :
    next.Sound cfg := by
  have distinct := sound.distinct
  rw [OrderedMap.keys, split, List.map_append] at distinct
  refine ⟨?_, fun entry member => ?_⟩
  · rw [queue]
    exact (List.nodup_append.mp distinct).2.1
  · rw [queue] at member
    apply sound.parsed
    rw [split]
    exact List.mem_append_right _ member

theorem written (sound : s.Sound cfg) {entry : Entry} (member : entry ∈ s.queue.entries) :
    entry.2.1 ≠ [] := by
  intro empty
  have parsed := sound.parsed entry member
  obtain ⟨e, failed⟩ := Tree.parse_nil cfg.depth
  rw [empty, failed] at parsed
  cases parsed

end Session.Sound

/-- A line that is marked is shown. -/
theorem Reporter.Idle.heading_setLine {paint : Text → Text} {r : Reporter}
    (idle : r.Idle paint) (path : Text) {line : LogicalLine} (written : line.text ≠ []) :
    (r.setLine path line.place).trace = line.heading path := by
  obtain ⟨c, more, text⟩ := List.exists_cons_of_ne_nil written
  rw [idle.trace_setLine]
  simp only [LogicalLine.place, placeText, text, LogicalLine.heading, Option.getD_some]

/-! ## The steps of one session -/

namespace Desk

/-- What is to blame where a step fails. -/
inductive Blames (cfg : Settings) (d : Desk) : Step → Failure → Blame → Prop
  /-- The line that is not queued. -/
  | add {text : Text} {line : Int} {e : Failure} (written : text ≠ []) :
      Blames cfg d (.add text line) e (some (d.session.path, ⟨text, line⟩))
  | empty {line : Int} {e : Failure} : Blames cfg d (.add [] line) e none
  /-- The line of the last entry that the run reaches. -/
  | run {before : List Entry} {line : Int} {text : Text} {tree : Tree} {values kept : List Number}
      {env last : Environment} {e : Failure}
      (reaches : reached cfg d.session.queue.entries d = before ++ [(line, text, tree)])
      (evaluates : Evaluates cfg.depth d.session.environment before values env)
      (fails : Fails cfg.depth d.session.echo tree env e last kept) :
      Blames cfg d .run e (some (d.session.path, ⟨text, line⟩))
  | pop (lacking : d.session.results = []) : Blames cfg d .pop (.internal .noResult) none

theorem Blames.of_add {cfg : Settings} {d : Desk} {text : Text} {line : Int} {e : Failure}
    {blame : Blame} (blames : Blames cfg d (.add text line) e blame) (written : text ≠ []) :
    blame = some (d.session.path, ⟨text, line⟩) := by
  cases blames with
  | add written => rfl
  | empty => exact absurd rfl written

theorem Fails.reported {depth : Nat} {echo : Bool} {text : Text} {tree : Tree}
    {env last : Environment} {e : Failure} {kept : List Number}
    (fails : Fails depth echo tree env e last kept) (parsed : Tree.parse depth text = .ok tree) :
    e.diagnostic?.isSome := by
  cases fails with
  | unevaluated evaluated =>
      have interpreted : Tree.interpret depth text env = .error e last := by
        rw [Tree.interpret, parsed]
        exact evaluated
      exact Tree.interpret_reported interpreted
  | unwritten echoes evaluated written => exact Number.text_reported written

def Sound (cfg : Settings) (d : Desk) : Prop := d.session.Sound cfg

variable {cfg : Settings} {paint : Text → Text} {d : Desk}
  (idle : d.console.reporter.Idle paint) (sound : d.Sound cfg)

include idle sound

theorem add_settles (text : Text) (line : Int) :
    Settles paint Desk.console (Sound cfg) (Blames cfg d (.add text line))
      (add cfg text line d) := by
  have came := add_cases cfg text line d
  generalize add cfg text line d = result at came
  cases came with
  | queued parsed session reporter out =>
      refine ⟨?_, ?_⟩
      · rw [reporter]
        exact idle.clearLine _
      · rw [Sound, session]
        exact sound.queued parsed line
  | failed reported session reporter out =>
      refine ⟨reported, ?_, ?_, ?_⟩
      · rw [reporter]
        exact ⟨idle.fatal, idle.painted⟩
      · rw [Sound, session]
        exact sound
      · rw [reporter]
        by_cases written : text = []
        · subst written
          exact ⟨none, .empty, idle.trace_setLine _ _⟩
        · exact ⟨_, .add written, @Reporter.Idle.heading_setLine _ _ idle _ ⟨text, line⟩ written⟩

theorem run_settles :
    Settles paint Desk.console (Sound cfg) (Blames cfg d .run) (run cfg d) := by
  cases ran : run cfg d with
  | ok result next =>
      obtain ⟨-, values, env, evaluates, session, reporter⟩ := run_ok sound.distinct ran
      refine ⟨?_, ?_⟩
      · rw [reporter]
        split
        · exact idle
        · exact idle.clearLine _
      · exact sound.left (List.append_nil _).symm (congrArg Session.queue session)
  | error e failed =>
      obtain ⟨before, line, text, tree, rest, split, reaches, values, env, last, kept, evaluates,
        fails, session, reporter⟩ := run_error sound.distinct ran
      have member : (line, text, tree) ∈ d.session.queue.entries := by simp [split]
      refine ⟨fails.reported (sound.parsed _ member), ?_, ?_, _, .run reaches evaluates fails, ?_⟩
      · rw [reporter]
        exact ⟨idle.fatal, idle.painted⟩
      · rw [List.append_cons] at split
        exact sound.left split (congrArg Session.queue session)
      · rw [reporter]
        exact @Reporter.Idle.heading_setLine _ _ idle _ ⟨text, line⟩ (sound.written member)

theorem step_settles (step : Step) :
    Settles paint Desk.console (Sound cfg) (Blames cfg d step) (step.action cfg d) := by
  cases step with
  | add text line => exact add_settles idle sound text line
  | run => exact run_settles idle sound
  | pop =>
      show Settles _ _ _ _ ((Desk.pop >>= fun _ => pure () : Action Unit) d)
      rw [bind_apply, Desk.pop]
      cases latest : d.session.results.getLast? with
      | some value => exact ⟨idle, sound.distinct, sound.parsed⟩
      | none =>
          have lacking := List.getLast?_eq_none_iff.mp latest
          exact ⟨rfl, idle.toMild, sound, none, .pop lacking, idle.trace⟩
  | reset => exact ⟨idle, sound.distinct, sound.parsed⟩

end Desk

/-! ## Opening a session -/

/-- The desk of a session before its file is read. -/
def Session.opening (path : Text) (interactive echo : Bool) (c : Console) : Desk :=
  let opened := c.reporter.clearLine path
  ⟨{ c with reporter := if interactive then { opened with fatal := false } else opened },
    { path, echo }⟩

/-- What is to blame if a session cannot be opened. -/
inductive Session.Blames (cfg : Settings) (read : FileReader) (path : Text)
    (interactive echo : Bool) (c : Console) : Failure → Blame → Prop
  /-- The first line of the file that is not queued. -/
  | line {text : Text} {before rest : List LogicalLine} {line : LogicalLine} {middle failed : Desk}
      {e : Failure} (named : path ≠ typedPath) (readable : readFile read path = .ok text)
      (split : Script.ofLines text.lines = before ++ line :: rest)
      (earlier : addLines cfg before (opening path interactive echo c) = .ok () middle)
      (here : Desk.add cfg line.text line.number middle = .error e failed) :
      Blames cfg read path interactive echo c e (some (path, line))
  | unreadable {e : Failure} (named : path ≠ typedPath) (failed : readFile read path = .error e) :
      Blames cfg read path interactive echo c e none
  | reserved (typed : path = typedPath) (uncalled : interactive = false) :
      Blames cfg read path interactive echo c
        (.diagnosed (.bare (Text.inQuotes typedPath ++ " is a reserved filename".toList))) none

namespace Session

theorem readFile_reported {read : FileReader} {path : Text} {e : Failure}
    (failed : readFile read path = .error e) : e.diagnostic?.isSome := by
  unfold readFile at failed
  split at failed
  · cases failed
    rfl
  · split at failed
    · cases failed
      rfl
    · split at failed
      · cases failed
      · cases failed
        rfl

variable {cfg : Settings} {paint : Text → Text}

/-- Lines of a file are queued one after the other, up to the first that is not. -/
theorem addLines_settles {lines : List LogicalLine} (written : ∀ line ∈ lines, line.text ≠ [])
    {d : Desk} (idle : d.console.reporter.Idle paint) (sound : d.Sound cfg) :
    Settles paint Desk.console (Desk.Sound cfg) (fun e blame => ∃ before line rest middle failed,
      lines = before ++ line :: rest ∧ addLines cfg before d = .ok () middle ∧
      Desk.add cfg line.text line.number middle = .error e failed ∧
      blame = some (d.session.path, line)) (addLines cfg lines d) := by
  induction lines generalizing d with
  | nil => exact ⟨idle, sound⟩
  | cons first rest ih =>
      have settles := Desk.add_settles idle sound first.text first.number
      have came := Desk.add_cases cfg first.text first.number d
      rw [addLines_cons]
      cases added : Desk.add cfg first.text first.number d with
      | error e failed =>
          rw [added] at settles
          obtain ⟨reported, mild, sound', blame, blames, trace⟩ := settles
          exact ⟨reported, mild, sound', blame, ⟨[], first, rest, d, failed, rfl, rfl, added,
            blames.of_add (written first List.mem_cons_self)⟩, trace⟩
      | ok result next =>
          rw [added] at settles came
          have path : next.session.path = d.session.path := by
            cases came with
            | queued parsed session reporter out => rw [session]
          refine (ih (fun line member => written line (List.mem_cons_of_mem _ member)) settles.1
            settles.2).imp ?_
          rintro e blame ⟨before, line, rest', middle, failed, rfl, earlier, here, rfl⟩
          refine ⟨first :: before, line, rest', middle, failed, rfl, ?_, here, by rw [path]⟩
          rw [addLines_cons, added]
          exact earlier

theorem load_settles {c : Console} (idle : c.reporter.Idle paint) (read : FileReader)
    (path : Text) (interactive echo : Bool) :
    Settles paint Desk.console (Desk.Sound cfg) (Blames cfg read path interactive echo c)
      (load cfg read path interactive (opening path interactive echo c)) := by
  have idle : (opening path interactive echo c).console.reporter.Idle paint := by
    have opened := idle.clearLine path
    cases interactive with
    | false => exact opened
    | true => exact ⟨⟨rfl, opened.painted⟩, opened.clear⟩
  have sound : (opening path interactive echo c).Sound cfg :=
    ⟨List.nodup_nil, by simp [opening, OrderedMap.empty]⟩
  unfold load
  split
  · rename_i typed
    cases interactive with
    | true => exact ⟨idle, sound⟩
    | false => exact ⟨rfl, idle.toMild, sound, none, .reserved typed rfl, idle.trace⟩
  · rename_i named
    cases readable : readFile read path with
    | error e =>
        exact ⟨readFile_reported readable, idle.toMild, sound, none, .unreadable named readable,
          idle.trace⟩
    | ok text =>
        refine (addLines_settles (Script.ofLines_ordered text.lines).2 idle sound).imp ?_
        rintro e blame ⟨before, line, rest, middle, failed, split, earlier, here, rfl⟩
        exact .line named readable split earlier here

end Session

/-! ## Sessions at one console -/

/-- Sessions that share a console. -/
structure Office where
  console : Console
  sessions : List Session

namespace Office

def empty (paint : Text → Text) : Office := ⟨{ reporter := { fatal := false, paint } }, []⟩

inductive Deed where
  /-- A session is opened, and files are as they are at this time. -/
  | opening (read : FileReader) (path : Text) (interactive echo : Bool)
  /-- The session with this number, if there is one, takes a step. -/
  | work (i : Nat) (step : Desk.Step)

/-- A deed before its failure is dealt with.  A session that cannot be opened is not there. -/
def attempt (cfg : Settings) (deed : Deed) : EStateM Failure Office Unit := fun o =>
  match deed with
  | .opening read path interactive echo =>
      match Session.start cfg read path interactive echo o.console with
      | .ok session console => .ok () ⟨console, o.sessions ++ [session]⟩
      | .error e console => .error e { o with console }
  | .work i step =>
      match o.sessions[i]? with
      | none => .ok () o
      | some session =>
          match step.action cfg ⟨o.console, session⟩ with
          | .ok _ d => .ok () ⟨d.console, o.sessions.set i d.session⟩
          | .error e d => .error e ⟨d.console, o.sessions.set i d.session⟩

def act (cfg : Settings) (deed : Deed) : EStateM Failure Office (Option Unit) :=
  Console.guard Office.console (fun o console => { o with console }) (attempt cfg deed)

def after (cfg : Settings) (deeds : List Deed) (o : Office) : Office :=
  deeds.foldl (fun o deed => remains (act cfg deed o)) o

/-- What is to blame for the failure of a deed. -/
inductive Blames (cfg : Settings) (o : Office) : Deed → Failure → Blame → Prop
  | opening {read : FileReader} {path : Text} {interactive echo : Bool} {e : Failure}
      {blame : Blame}
      (blames : Session.Blames cfg read path interactive echo o.console e blame) :
      Blames cfg o (.opening read path interactive echo) e blame
  | work {i : Nat} {step : Desk.Step} {session : Session} {e : Failure} {blame : Blame}
      (found : o.sessions[i]? = some session)
      (blames : Desk.Blames cfg ⟨o.console, session⟩ step e blame) :
      Blames cfg o (.work i step) e blame

def Sound (cfg : Settings) (o : Office) : Prop := ∀ session ∈ o.sessions, session.Sound cfg

variable {cfg : Settings} {paint : Text → Text} {o : Office}

theorem attempt_settles (idle : o.console.reporter.Idle paint) (sound : o.Sound cfg)
    (deed : Deed) :
    Settles paint Office.console (Sound cfg) (Blames cfg o deed) (attempt cfg deed o) := by
  cases deed with
  | opening read path interactive echo =>
      have settles := @Session.load_settles cfg paint o.console idle read path interactive echo
      have start : Session.start cfg read path interactive echo o.console =
          match Session.load cfg read path interactive
              (Session.opening path interactive echo o.console) with
          | .ok _ d => .ok d.session d.console
          | .error e d => .error e d.console := rfl
      rw [attempt, start]
      cases loaded : Session.load cfg read path interactive
          (Session.opening path interactive echo o.console) with
      | ok result d =>
          rw [loaded] at settles
          refine ⟨settles.1, fun session member => ?_⟩
          rcases List.mem_append.mp member with old | new
          · exact sound session old
          · rw [List.mem_singleton.mp new]
            exact settles.2
      | error e d =>
          rw [loaded] at settles
          obtain ⟨reported, mild, -, blame, blames, trace⟩ := settles
          exact ⟨reported, mild, sound, blame, .opening blames, trace⟩
  | work i step =>
      rw [attempt]
      cases found : o.sessions[i]? with
      | none => exact ⟨idle, sound⟩
      | some session =>
          have settles := @Desk.step_settles cfg paint ⟨o.console, session⟩ idle
            (sound session (List.mem_of_getElem? found)) step
          have kept : ∀ d : Desk, d.Sound cfg →
              Sound cfg ⟨d.console, o.sessions.set i d.session⟩ := by
            intro d sound' other member
            rcases List.mem_or_eq_of_mem_set member with old | rfl
            · exact sound other old
            · exact sound'
          dsimp only
          cases came : step.action cfg ⟨o.console, session⟩ with
          | ok result d =>
              rw [came] at settles
              exact ⟨settles.1, kept d settles.2⟩
          | error e d =>
              rw [came] at settles
              obtain ⟨reported, mild, sound', blame, blames, trace⟩ := settles
              exact ⟨reported, mild, kept d sound', blame, .work found blames, trace⟩

/-- What becomes of a deed: if its attempt succeeds nothing is reported, and else the failure is
reported behind what is to blame. -/
def Reports (cfg : Settings) (paint : Text → Text) (o : Office) (deed : Deed) : Prop :=
  (∀ next, attempt cfg deed o = .ok () next → act cfg deed o = .ok (some ()) next) ∧
  ∀ e failed, attempt cfg deed o = .error e failed →
    ∃ d blame, e.diagnostic? = some d ∧ Blames cfg o deed e blame ∧
      (remains (act cfg deed o)).console.out =
        failed.console.out ++ (blame.heading ++ d.notice paint)

theorem act_reports (idle : o.console.reporter.Idle paint) (sound : o.Sound cfg) (deed : Deed) :
    (remains (act cfg deed o)).console.reporter.Idle paint ∧
      (remains (act cfg deed o)).Sound cfg ∧ Reports cfg paint o deed := by
  have settles := attempt_settles idle sound deed
  unfold Reports
  rw [act, Console.remains_guard]
  cases came : attempt cfg deed o with
  | ok result next =>
      rw [came] at settles
      refine ⟨settles.1, settles.2, ?_, by simp⟩
      rintro _ ⟨⟩
      rw [Console.guard, came]
  | error e failed =>
      rw [came] at settles
      obtain ⟨reported, mild, sound, blame, blames, trace⟩ := settles
      obtain ⟨d, reported⟩ := Option.isSome_iff_exists.mp reported
      dsimp only
      rw [Console.handle_mild mild.fatal reported, trace, mild.painted]
      refine ⟨.filled mild, sound, by simp, ?_⟩
      rintro _ _ ⟨⟩
      exact ⟨d, blame, reported, blames, rfl⟩

theorem after_settled (cfg : Settings) (paint : Text → Text) (deeds : List Deed) :
    (after cfg deeds (.empty paint)).console.reporter.Idle paint ∧
      (after cfg deeds (.empty paint)).Sound cfg := by
  induction deeds using List.reverseRecOn with
  | nil =>
      exact ⟨⟨⟨rfl, rfl⟩, by simp [after, empty, OrderedMap.empty]⟩, by simp [after, empty, Sound]⟩
  | append_singleton deeds deed ih =>
      obtain ⟨idle, sound, -⟩ := act_reports ih.1 ih.2 deed
      rw [after, List.foldl_concat]
      exact ⟨idle, sound⟩

/-- Take an office through any deeds, and then through one more.  Before it reports are not fatal
and no line is marked in any file.  If it fails, its report shows the line at which it failed and no
other, or none at all if it did not fail at a line. -/
theorem report_names_blamed (cfg : Settings) (paint : Text → Text) (deeds : List Deed) :
    let o := after cfg deeds (.empty paint)
    (o.console.reporter.fatal = false ∧
      ∀ entry ∈ o.console.reporter.places.entries, entry.2 = {}) ∧
    ∀ deed, Reports cfg paint o deed := by
  intro o
  obtain ⟨idle, sound⟩ := after_settled cfg paint deeds
  exact ⟨⟨idle.fatal, idle.clear⟩, fun deed => (act_reports idle sound deed).2.2⟩

/-- Two sessions work on one path.  The line that the second could not queue is forgotten when the
first fails at its own. -/
theorem report_names_blamed_two_sessions :
    let typing := Deed.opening (fun _ => none) Session.typedPath true false
    let o := after ⟨20, false⟩
      [typing, typing, .work 0 (.add "y".toList 3), .work 1 (.add "1 +".toList 7)] (.empty id)
    let d := Diagnostic.undefinedVariable "y".toList
    (∀ entry ∈ o.console.reporter.places.entries, entry.2 = {}) ∧
    (remains (act ⟨20, false⟩ (.work 0 .run) o)).console.out =
      o.console.out ++ (LogicalLine.heading ⟨"y".toList, 3⟩ Session.typedPath ++ d.notice id) ∧
    ∃ blame, Blames ⟨20, false⟩ o (.work 0 .run) (.diagnosed d) blame ∧
      (remains (act ⟨20, false⟩ (.work 0 .run) o)).console.out =
        o.console.out ++ (blame.heading ++ d.notice id) := by
  intro typing o d
  obtain ⟨⟨-, clear⟩, reports⟩ := report_names_blamed ⟨20, false⟩ id
    [typing, typing, .work 0 (.add "y".toList 3), .work 1 (.add "1 +".toList 7)]
  have failed : attempt ⟨20, false⟩ (.work 0 .run) o =
      .error (.diagnosed d) (remains (attempt ⟨20, false⟩ (.work 0 .run) o)) := rfl
  have quiet : (remains (attempt ⟨20, false⟩ (.work 0 .run) o)).console.out = o.console.out := by
    decide +kernel
  obtain ⟨_, blame, reported, blames, out⟩ := (reports (.work 0 .run)).2 _ _ failed
  cases reported
  rw [quiet] at out
  exact ⟨clear, by decide +kernel, blame, blames, out⟩

end Office
end Abacus
