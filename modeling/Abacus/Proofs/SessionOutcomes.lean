/- # How the operations of a session end

`Desk.Added` and `Desk.Ran` list what queueing a line and evaluating an entry can come to, whether
messages are logged or not: where it fails, the line stays marked, and else no line is marked any
more.

A run goes through the queue as it was at its start.  If no line number stands there twice, each
entry that is evaluated leaves the queue and those behind it stay (`Desk.runEntries_ok`); so a run
that comes to its end leaves the queue empty (`Desk.run_ok`), and one that fails leaves what stands
behind the entry at which it fails (`Desk.run_error`). -/
import Abacus.Proofs.FileRun

namespace Abacus
set_option autoImplicit false

/-- A parsed line of a queue, under its line number. -/
abbrev Session.Entry := Int × (Text × Tree)

open Session (Entry)

namespace OrderedMap

variable {κ ν : Type} [DecidableEq κ]

theorem nodup_insert {m : OrderedMap κ ν} (distinct : m.keys.Nodup) (key : κ) (value : ν) :
    (m.insert key value).keys.Nodup := by
  rw [keys_insert]
  split
  · exact distinct
  · rename_i fresh
    rw [List.nodup_append]
    refine ⟨distinct, List.nodup_singleton key, ?_⟩
    rintro old member new isNew rfl
    exact fresh (List.mem_singleton.mp isNew ▸ member)

/-- Where no key stands twice, the first entry is all that its key takes away. -/
theorem erase_first {key : κ} {value : ν} {rest : List (κ × ν)}
    (distinct : (keys ⟨(key, value) :: rest⟩).Nodup) :
    erase ⟨(key, value) :: rest⟩ key = ⟨rest⟩ := by
  have fresh : key ∉ rest.map Prod.fst := (List.nodup_cons.mp distinct).1
  have others : rest.filter (fun entry => entry.1 ≠ key) = rest := by
    rw [List.filter_eq_self]
    intro entry member
    simp only [decide_eq_true_eq]
    rintro rfl
    exact fresh (List.mem_map_of_mem member)
  simpa [erase] using others

end OrderedMap

/-- Of two places noted in one file the later one counts. -/
theorem Reporter.setLine_setLine (r : Reporter) (path : Text) (first second : Place) :
    (r.setLine path first).setLine path second = r.setLine path second := by
  simp only [setLine, OrderedMap.insert_insert]

open Reporter (setLine_setLine)

namespace Desk

/-! ## Queueing a line -/

def logging (d : Desk) (log : List LogEntry) : Desk :=
  { d with console := { d.console with log } }

theorem note_logging (cfg : Settings) (line : Int) (message : Text) (d : Desk) :
    ∃ log, note cfg line message d = .ok () (d.logging log) := by
  unfold note
  split
  · exact ⟨_, rfl⟩
  · exact ⟨d.console.log, rfl⟩

theorem noteTokens_logging (cfg : Settings) (text : Text) (line : Int) (d : Desk) :
    (∃ log, noteTokens cfg text line d = .ok () (d.logging log)) ∨
      ∃ refusal, noteTokens cfg text line d = .error (.diagnosed refusal) d := by
  unfold noteTokens
  split
  · cases Scanner.tokens? text with
    | ok tokens => exact .inl (note_logging cfg line _ d)
    | error refusal => exact .inr ⟨refusal, rfl⟩
  · exact .inl ⟨d.console.log, rfl⟩

theorem noteResult_logging (cfg : Settings) (line : Int) (value : Number) (d : Desk) :
    ∃ log, noteResult cfg line value d = .ok () (d.logging log) := by
  unfold noteResult
  cases value.text? with
  | some text => exact note_logging cfg line _ d
  | none => exact ⟨d.console.log, rfl⟩

/-- What queueing a line can come to: the line stands in the queue and none is marked, or it stays
marked and the session is as it was. -/
inductive Added (cfg : Settings) (text : Text) (line : Int) (d : Desk) :
    EStateM.Result Failure Desk Unit → Prop
  | queued {tree : Tree} {next : Desk} (parsed : Tree.parse cfg.depth text = .ok tree)
      (session : next.session =
        { d.session with queue := d.session.queue.insert line (text, tree) })
      (reporter : next.console.reporter = d.console.reporter.clearLine d.session.path)
      (out : next.console.out = d.console.out) : Added cfg text line d (.ok () next)
  | failed {e : Failure} {next : Desk} (reported : e.diagnostic?.isSome)
      (session : next.session = d.session)
      (reporter : next.console.reporter =
        d.console.reporter.setLine d.session.path ⟨some text, some line⟩)
      (out : next.console.out = d.console.out) : Added cfg text line d (.error e next)

theorem add_cases (cfg : Settings) (text : Text) (line : Int) (d : Desk) :
    Added cfg text line d (add cfg text line d) := by
  have steps : add cfg text line d =
      (do
        noteTokens cfg text line
        let tree ← MonadExcept.ofExcept (Tree.parse cfg.depth text)
        let shown ← MonadExcept.ofExcept (tree.display cfg.depth 0)
        note cfg line ("tree:\n".toList ++ shown)
        onSession fun s => { s with queue := s.queue.insert line (text, tree) }
        endLine : Action Unit) (d.mark ⟨some text, some line⟩) := rfl
  have failed : ∀ e log, e.diagnostic?.isSome → Added cfg text line d
      (.error e ((d.mark ⟨some text, some line⟩).logging log)) :=
    fun e log reported => .failed reported rfl rfl rfl
  rw [steps, bind_apply]
  rcases noteTokens_logging cfg text line (d.mark ⟨some text, some line⟩) with
    ⟨log, noted⟩ | ⟨refusal, refused⟩
  · rw [noted]
    cases parsed : Tree.parse cfg.depth text with
    | error e => exact failed e log (Tree.parse_reported parsed)
    | ok tree =>
        obtain ⟨w, written, valid⟩ := Tree.writable_of_parse parsed
        show Added cfg text line d ((MonadExcept.ofExcept (tree.display cfg.depth 0) >>= _ :
          Action Unit) ((d.mark ⟨some text, some line⟩).logging log))
        rw [bind_apply]
        rcases written.display valid cfg.depth 0 with ⟨deep, -⟩ | ⟨shown, display⟩
        · rw [deep]
          exact failed .tooDeep log rfl
        · rw [display]
          obtain ⟨log', noted⟩ := note_logging cfg line ("tree:\n".toList ++ shown)
            ((d.mark ⟨some text, some line⟩).logging log)
          show Added cfg text line d ((note cfg line ("tree:\n".toList ++ shown) >>= _ :
            Action Unit) ((d.mark ⟨some text, some line⟩).logging log))
          rw [bind_apply, noted]
          exact .queued parsed rfl (setLine_setLine _ _ _ _) rfl
  · rw [refused]
    exact failed (.diagnosed refusal) d.console.log rfl

/-! ## Evaluating entries -/

/-- Why evaluating an entry fails, with the variables and the results that it leaves: its tree has
no value, or the value is kept and has no text that could be printed. -/
inductive Fails (depth : Nat) (echo : Bool) (tree : Tree) (env : Environment) (e : Failure) :
    Environment → List Number → Prop
  | unevaluated {last : Environment} (evaluated : tree.evaluate depth env = .error e last) :
      Fails depth echo tree env e last []
  | unwritten {value : Number} {last : Environment} (echoes : echo)
      (evaluated : tree.evaluate depth env = .ok value last) (written : value.text = .error e) :
      Fails depth echo tree env e last [value]

/-- What evaluating an entry can come to: it has a value and no line is marked, or it fails and
stays marked.  The queue loses the entry in any case. -/
inductive Ran (cfg : Settings) (line : Int) (text : Text) (tree : Tree) (d : Desk) :
    EStateM.Result Failure Desk Unit → Prop
  | done {value : Number} {env : Environment} {next : Desk}
      (evaluated : tree.evaluate cfg.depth d.session.environment = .ok value env)
      (session : next.session = { d.session with
        environment := env, queue := d.session.queue.erase line,
        results := d.session.results ++ [value] })
      (reporter : next.console.reporter = d.console.reporter.clearLine d.session.path) :
      Ran cfg line text tree d (.ok () next)
  | failed {e : Failure} {env : Environment} {kept : List Number} {next : Desk}
      (fails : Fails cfg.depth d.session.echo tree d.session.environment e env kept)
      (session : next.session = { d.session with
        environment := env, queue := d.session.queue.erase line,
        results := d.session.results ++ kept })
      (reporter : next.console.reporter =
        d.console.reporter.setLine d.session.path ⟨some text, some line⟩) :
      Ran cfg line text tree d (.error e next)

theorem runEntry_cases (cfg : Settings) (line : Int) (text : Text) (tree : Tree) (d : Desk) :
    Ran cfg line text tree d (runEntry cfg line text tree d) := by
  have steps : runEntry cfg line text tree d =
      (do
        let value ← evaluateEntry cfg line tree
        noteResult cfg line value
        onSession fun s => { s with results := s.results ++ [value] }
        if (← get).session.echo then printNumber value
        endLine : Action Unit) (d.mark ⟨some text, some line⟩) := rfl
  rw [steps, bind_apply, evaluateEntry, mark_session]
  cases evaluated : tree.evaluate cfg.depth d.session.environment with
  | error e env =>
      refine .failed (.unevaluated evaluated) ?_ rfl
      rw [List.append_nil]
  | ok value env =>
      obtain ⟨log, noted⟩ := noteResult_logging cfg line value
        ((d.mark ⟨some text, some line⟩).drop line env)
      show Ran cfg line text tree d ((noteResult cfg line value >>= _ : Action Unit)
        ((d.mark ⟨some text, some line⟩).drop line env))
      rw [bind_apply, noted]
      show Ran cfg line text tree d
        ((if d.session.echo then printNumber value >>= fun _ => endLine else endLine)
          ((((d.mark ⟨some text, some line⟩).drop line env).logging log).keep value))
      by_cases echo : d.session.echo
      · rw [if_pos echo, bind_apply, printNumber, bind_apply]
        cases written : value.text with
        | error e => exact .failed (.unwritten echo evaluated written) rfl rfl
        | ok shown => exact .done evaluated rfl (setLine_setLine _ _ _ _)
      · rw [if_neg echo]
        exact .done evaluated rfl (setLine_setLine _ _ _ _)

/-- Entries have values one after the other, each in the variables that the one before it left. -/
inductive Evaluates (depth : Nat) : Environment → List Entry → List Number → Environment → Prop
  | nil {env : Environment} : Evaluates depth env [] [] env
  | cons {env next last : Environment} {line : Int} {text : Text} {tree : Tree} {rest : List Entry}
      {value : Number} {values : List Number} (first : tree.evaluate depth env = .ok value next)
      (later : Evaluates depth next rest values last) :
      Evaluates depth env ((line, text, tree) :: rest) (value :: values) last

/-- The entries that are evaluated: all up to the first that fails, and this one. -/
def reached (cfg : Settings) : List Entry → Desk → List Entry
  | [], _ => []
  | (line, text, tree) :: rest, d =>
      (line, text, tree) :: match runEntry cfg line text tree d with
        | .ok _ next => reached cfg rest next
        | .error _ _ => []

variable {cfg : Settings} {d : Desk}

/-- Entries at the front of a queue that are all evaluated leave what stands behind them. -/
theorem runEntries_ok {before rest : List Entry} {next : Desk}
    (queue : d.session.queue = ⟨before ++ rest⟩) (distinct : d.session.queue.keys.Nodup)
    (ran : runEntries cfg before d = .ok () next) :
    ∃ values env, Evaluates cfg.depth d.session.environment before values env ∧
      next.session = { d.session with
        environment := env, queue := ⟨rest⟩, results := d.session.results ++ values } ∧
      next.console.reporter =
        if before = [] then d.console.reporter
        else d.console.reporter.clearLine d.session.path := by
  induction before generalizing d with
  | nil =>
      cases ran
      refine ⟨[], _, .nil, ?_, rfl⟩
      rw [List.append_nil, ← List.nil_append rest, ← queue]
  | cons entry before ih =>
      obtain ⟨line, text, tree⟩ := entry
      have first := runEntry_cases cfg line text tree d
      rw [runEntries_cons] at ran
      rw [queue] at distinct
      generalize runEntry cfg line text tree d = result at first ran
      cases first with
      | failed => cases ran
      | @done value env middle evaluated session reporter =>
          have left : middle.session.queue = ⟨before ++ rest⟩ := by
            rw [session, queue]
            exact OrderedMap.erase_first distinct
          obtain ⟨values, last, evaluates, session', reporter'⟩ := ih left
            (by rw [left]; exact (List.nodup_cons.mp distinct).2) ran
          rw [session] at evaluates session' reporter'
          refine ⟨value :: values, last, .cons evaluated evaluates, ?_, ?_⟩
          · rw [session', List.append_assoc, List.singleton_append]
          · rw [reporter', reporter, if_neg (List.cons_ne_nil _ _)]
            split
            · rfl
            · exact Reporter.setLine_setLine _ _ _ _

/-- Evaluating entries fails at one of them; those before it are evaluated. -/
theorem runEntries_error {entries : List Entry} {e : Failure} {failed : Desk}
    (ran : runEntries cfg entries d = .error e failed) :
    ∃ before line text tree rest middle, entries = before ++ (line, text, tree) :: rest ∧
      runEntries cfg before d = .ok () middle ∧
      runEntry cfg line text tree middle = .error e failed := by
  induction entries generalizing d with
  | nil => cases ran
  | cons entry rest ih =>
      obtain ⟨line, text, tree⟩ := entry
      rw [runEntries_cons] at ran
      cases came : runEntry cfg line text tree d with
      | error e' failed' =>
          rw [came] at ran
          cases ran
          exact ⟨[], line, text, tree, rest, d, rfl, rfl, came⟩
      | ok result next =>
          rw [came] at ran
          obtain ⟨before, line', text', tree', rest', middle, rfl, earlier, here⟩ := ih ran
          refine ⟨(line, text, tree) :: before, line', text', tree', rest', middle, rfl, ?_, here⟩
          rw [runEntries_cons, came]
          exact earlier

/-- Behind entries that are all evaluated, the next one is reached. -/
theorem reached_append {before rest : List Entry} {next : Desk}
    (ran : runEntries cfg before d = .ok () next) :
    reached cfg (before ++ rest) d = before ++ reached cfg rest next := by
  induction before generalizing d with
  | nil =>
      cases ran
      rfl
  | cons entry before ih =>
      obtain ⟨line, text, tree⟩ := entry
      rw [runEntries_cons] at ran
      rw [List.cons_append, List.cons_append, reached]
      cases came : runEntry cfg line text tree d with
      | error e failed =>
          rw [came] at ran
          cases ran
      | ok result middle =>
          rw [came] at ran
          exact congrArg _ (ih ran)

section

variable (distinct : d.session.queue.keys.Nodup)

include distinct

/-- A run that comes to its end has evaluated the whole queue. -/
theorem run_ok {next : Desk} (ran : run cfg d = .ok () next) :
    reached cfg d.session.queue.entries d = d.session.queue.entries ∧
    ∃ values env,
      Evaluates cfg.depth d.session.environment d.session.queue.entries values env ∧
      next.session = { d.session with
        environment := env, queue := .empty, results := d.session.results ++ values } ∧
      next.console.reporter =
        if d.session.queue.entries = [] then d.console.reporter
        else d.console.reporter.clearLine d.session.path := by
  have whole : d.session.queue = ⟨d.session.queue.entries ++ []⟩ := by rw [List.append_nil]
  have all := @reached_append cfg d d.session.queue.entries [] next ran
  rw [List.append_nil] at all
  refine ⟨all.trans (List.append_nil _), ?_⟩
  exact runEntries_ok whole distinct ran

/-- A run that fails has evaluated the entries before the one at which it fails, and leaves those
behind it. -/
theorem run_error {e : Failure} {failed : Desk} (ran : run cfg d = .error e failed) :
    ∃ before line text tree rest,
      d.session.queue.entries = before ++ (line, text, tree) :: rest ∧
      reached cfg d.session.queue.entries d = before ++ [(line, text, tree)] ∧
      ∃ values env last kept, Evaluates cfg.depth d.session.environment before values env ∧
        Fails cfg.depth d.session.echo tree env e last kept ∧
        failed.session = { d.session with
          environment := last, queue := ⟨rest⟩
          results := d.session.results ++ (values ++ kept) } ∧
        failed.console.reporter =
          d.console.reporter.setLine d.session.path ⟨some text, some line⟩ := by
  obtain ⟨before, line, text, tree, rest, middle, split, earlier, here⟩ :=
    @runEntries_error cfg d d.session.queue.entries e failed ran
  have whole : d.session.queue = ⟨before ++ (line, text, tree) :: rest⟩ := by rw [← split]
  obtain ⟨values, env, evaluates, session, reporter⟩ := runEntries_ok whole distinct earlier
  have stop := runEntry_cases cfg line text tree middle
  rw [here] at stop
  refine ⟨before, line, text, tree, rest, split, ?_, ?_⟩
  · rw [split, reached_append earlier, reached, here]
  · cases stop with
    | @failed _ last kept _ fails session' reporter' =>
        rw [session] at fails session' reporter'
        refine ⟨values, env, last, kept, evaluates, fails, ?_, ?_⟩
        · have alone : (OrderedMap.keys ⟨(line, text, tree) :: rest⟩).Nodup := by
            rw [whole, OrderedMap.keys, List.map_append] at distinct
            exact (List.nodup_append.mp distinct).2.1
          rw [session', List.append_assoc, OrderedMap.erase_first alone]
        · rw [reporter', reporter]
          split
          · rfl
          · exact setLine_setLine _ _ _ _

end

end Desk
end Abacus
