/- # Every queued line is evaluated once

A session is taken through steps: lines are queued, the queue is run, results are taken, variables
are forgotten.  The steps go on after one that fails.  A ledger is kept beside the session
(`Desk.ledger`): it knows a line by the number of the step that queued it, and says which lines were
evaluated, which were replaced by a later line of the same number, and which still wait.

`Desk.evaluated_once`: the three together are the lines that were queued, each of them once; the
entries of the queue are those of the waiting lines, in their order, and the entries that runs have
evaluated are those of the evaluated lines.  It also says what a run leaves, whether it comes to its
end or fails at an entry, and that a line which cannot be queued changes nothing in the session.

What carries this over a run of steps is `Desk.Accounts`, which one step keeps
(`Desk.Accounts.step`). -/
import Abacus.Proofs.Logging
import Abacus.Proofs.SessionOutcomes

namespace Abacus
set_option autoImplicit false

open Session (Entry)

namespace OrderedMap

variable {κ ν μ : Type} [DecidableEq κ]

/-- Two lists of entries that go together still do so when both get an entry of the same key. -/
theorem put_forall₂ {R : κ × ν → κ × μ → Prop} (keys : ∀ x y, R x y → x.1 = y.1) {key : κ} {v : ν}
    {w : μ} (new : R (key, v) (key, w)) {xs : List (κ × ν)} {ys : List (κ × μ)}
    (all : List.Forall₂ R xs ys) : List.Forall₂ R (put key v xs) (put key w ys) := by
  induction all with
  | nil => exact .cons new .nil
  | @cons x y xs ys first later ih =>
      rw [put, put, keys x y first]
      split
      · exact .cons new later
      · exact .cons first ih

/-- An entry that is put takes the place of the one with its key, if there is one. -/
theorem put_perm (key : κ) (value : ν) (entries : List (κ × ν)) :
    (((entries.find? fun entry => entry.1 = key).map Prod.snd).toList ++
      (put key value entries).map Prod.snd).Perm (entries.map Prod.snd ++ [value]) := by
  induction entries with
  | nil => exact .refl _
  | cons entry rest ih =>
      by_cases here : entry.1 = key
      · simp only [here, put, if_true, decide_true, List.find?_cons_of_pos, Option.map_some,
          Option.toList_some, List.map_cons, List.cons_append]
        exact (List.perm_append_singleton _ _).symm.cons _
      · simp only [here, put, if_false, decide_false, Bool.false_eq_true, not_false_eq_true,
          List.find?_cons_of_neg, List.map_cons, List.cons_append]
        exact List.perm_middle.trans (ih.cons _)

end OrderedMap

namespace Desk

/-! ## Steps and the ledger -/

inductive Step where
  | add (text : Text) (line : Int)
  | run
  | pop
  | reset

def Step.action (cfg : Settings) : Step → Action Unit
  | .add text line => Desk.add cfg text line
  | .run => Desk.run cfg
  | .pop => do let _ ← Desk.pop
  | .reset => Desk.reset

/-- A session after steps, whatever became of them. -/
def after (cfg : Settings) (steps : List Step) (d : Desk) : Desk :=
  steps.foldl (fun d step => remains (step.action cfg d)) d

/-- What became of the lines that were queued.  A line is known by the number of the step that
queued it, the first step having the number 0. -/
structure Ledger where
  /-- How many steps were taken. -/
  taken : Nat := 0
  /-- The lines that were queued. -/
  queued : List Nat := []
  /-- Those that were evaluated, in this order. -/
  evaluated : List Nat := []
  /-- The entries that were evaluated, in this order. -/
  entries : List Entry := []
  /-- Those in whose place a later line was queued. -/
  replaced : List Nat := []
  /-- Those that wait in the queue, under their line numbers. -/
  waiting : OrderedMap Int Nat := .empty

/-- Enters a step that is taken from a desk. -/
def Ledger.enter (cfg : Settings) (d : Desk) (l : Ledger) : Step → Ledger
  | .add text line =>
      match Desk.add cfg text line d with
      | .ok _ _ => { l with
          taken := l.taken + 1
          queued := l.queued ++ [l.taken]
          replaced := l.replaced ++ (l.waiting.find? line).toList
          waiting := l.waiting.insert line l.taken }
      | .error _ _ => { l with taken := l.taken + 1 }
  | .run =>
      let entries := reached cfg d.session.queue.entries d
      { l with
        taken := l.taken + 1
        evaluated := l.evaluated ++ (l.waiting.entries.take entries.length).map Prod.snd
        entries := l.entries ++ entries
        waiting := ⟨l.waiting.entries.drop entries.length⟩ }
  | .pop => { l with taken := l.taken + 1 }
  | .reset => { l with taken := l.taken + 1 }

def account (cfg : Settings) (state : Desk × Ledger) (step : Step) : Desk × Ledger :=
  (remains (step.action cfg state.1), state.2.enter cfg state.1 step)

def ledger (cfg : Settings) (steps : List Step) (d : Desk) : Ledger :=
  (steps.foldl (account cfg) (d, {})).2

theorem foldl_account (cfg : Settings) (steps : List Step) (d : Desk) (l : Ledger) :
    (steps.foldl (account cfg) (d, l)).1 = after cfg steps d := by
  induction steps generalizing d l with
  | nil => rfl
  | cons step rest ih => exact ih _ _

theorem after_concat (cfg : Settings) (steps : List Step) (step : Step) (d : Desk) :
    after cfg (steps ++ [step]) d = remains (step.action cfg (after cfg steps d)) := by
  rw [after, List.foldl_concat]
  rfl

theorem ledger_concat (cfg : Settings) (steps : List Step) (step : Step) (d : Desk) :
    ledger cfg (steps ++ [step]) d =
      (ledger cfg steps d).enter cfg (after cfg steps d) step := by
  rw [ledger, List.foldl_concat, account, foldl_account]
  rfl

/-! ## What the ledger keeps -/

/-- An entry is the parsed line that a step queued. -/
def IsFrom (cfg : Settings) (steps : List Step) (entry : Entry) (k : Nat) : Prop :=
  steps[k]? = some (.add entry.2.1 entry.1) ∧ Tree.parse cfg.depth entry.2.1 = .ok entry.2.2

/-- An entry of the queue is the parsed line that waits under its number. -/
def Waits (cfg : Settings) (steps : List Step) (entry : Entry) (waiting : Int × Nat) : Prop :=
  entry.1 = waiting.1 ∧ IsFrom cfg steps entry waiting.2

/-- A later step has a line of the same number. -/
def Replaces (steps : List Step) (k j : Nat) : Prop :=
  k < j ∧ ∃ line text text', steps[k]? = some (.add text line) ∧ steps[j]? = some (.add text' line)

/-- A step queues a line, where it stands among steps from a desk on. -/
def Queues (cfg : Settings) (steps : List Step) (start : Desk) (k : Nat) : Prop :=
  ∃ text line next, steps[k]? = some (.add text line) ∧
    add cfg text line (after cfg (steps.take k) start) = .ok () next

/-- A ledger fits steps from a desk on and the queue that they leave. -/
structure Accounts (cfg : Settings) (start : Desk) (steps : List Step) (l : Ledger) : Prop where
  taken : l.taken = steps.length
  queued : ∀ k, k ∈ l.queued ↔ Queues cfg steps start k
  once : l.queued.Nodup
  settled : (l.evaluated ++ l.replaced ++ l.waiting.entries.map Prod.snd).Perm l.queued
  replaced : ∀ k ∈ l.replaced, ∃ j ∈ l.queued, Replaces steps k j
  evaluated : List.Forall₂ (IsFrom cfg steps) l.entries l.evaluated
  waits : List.Forall₂ (Waits cfg steps) (after cfg steps start).session.queue.entries
    l.waiting.entries
  distinct : (after cfg steps start).session.queue.keys.Nodup

section

variable {cfg : Settings} {start : Desk} {steps : List Step} {l : Ledger}

theorem getElem?_concat {k : Nat} {x : Step} (here : steps[k]? = some x) (step : Step) :
    (steps ++ [step])[k]? = some x := by
  obtain ⟨inside, -⟩ := List.getElem?_eq_some_iff.mp here
  rw [List.getElem?_append_left inside, here]

theorem IsFrom.concat {entry : Entry} {k : Nat} (origin : IsFrom cfg steps entry k) (step : Step) :
    IsFrom cfg (steps ++ [step]) entry k :=
  ⟨getElem?_concat origin.1 step, origin.2⟩

theorem Waits.concat {entry : Entry} {waiting : Int × Nat} (waits : Waits cfg steps entry waiting)
    (step : Step) : Waits cfg (steps ++ [step]) entry waiting :=
  ⟨waits.1, waits.2.concat step⟩

theorem Replaces.concat {k j : Nat} (replaces : Replaces steps k j) (step : Step) :
    Replaces (steps ++ [step]) k j := by
  obtain ⟨later, line, text, text', old, new⟩ := replaces
  exact ⟨later, line, text, text', getElem?_concat old step, getElem?_concat new step⟩

/-- The lines that are queued with one step more. -/
theorem queues_concat {step : Step} {k : Nat} :
    Queues cfg (steps ++ [step]) start k ↔ Queues cfg steps start k ∨
      k = steps.length ∧ ∃ text line next, step = .add text line ∧
        add cfg text line (after cfg steps start) = .ok () next := by
  unfold Queues
  rcases Nat.lt_trichotomy k steps.length with inside | rfl | outside
  · rw [List.getElem?_append_left inside, List.take_append_of_le_length (Nat.le_of_lt inside)]
    constructor
    · exact .inl
    · rintro (old | ⟨rfl, -⟩)
      · exact old
      · exact absurd inside (Nat.lt_irrefl _)
  · simp
  · have beyond : (steps ++ [step])[k]? = none := by
      rw [List.getElem?_eq_none_iff, List.length_append, List.length_singleton]
      omega
    have beyond' : steps[k]? = none := by
      rw [List.getElem?_eq_none_iff]
      omega
    rw [beyond, beyond']
    constructor
    · rintro ⟨text, line, next, beyond, -⟩
      cases beyond
    · rintro (⟨text, line, next, beyond, -⟩ | ⟨rfl, -⟩)
      · cases beyond
      · exact absurd outside (Nat.lt_irrefl _)

/-- A step that queues nothing and leaves the queue alone is only counted. -/
theorem Accounts.idle (accounts : Accounts cfg start steps l) {step : Step}
    (idle : ∀ text line next, step = .add text line →
      add cfg text line (after cfg steps start) ≠ .ok () next)
    (same : (after cfg (steps ++ [step]) start).session.queue =
      (after cfg steps start).session.queue) :
    Accounts cfg start (steps ++ [step]) { l with taken := l.taken + 1 } where
  taken := by simp [accounts.taken]
  queued k := by
    rw [accounts.queued, queues_concat]
    constructor
    · exact .inl
    · rintro (old | ⟨-, text, line, next, isAdd, added⟩)
      · exact old
      · exact absurd added (idle text line next isAdd)
  once := accounts.once
  settled := accounts.settled
  replaced k member := by
    obtain ⟨j, later, replaces⟩ := accounts.replaced k member
    exact ⟨j, later, replaces.concat step⟩
  evaluated := accounts.evaluated.imp fun _ _ origin => origin.concat step
  waits := by
    rw [same]
    exact accounts.waits.imp fun _ _ waits => waits.concat step
  distinct := by
    rw [same]
    exact accounts.distinct

/-- A line that waits was queued under its number by its step. -/
theorem Accounts.origin (accounts : Accounts cfg start steps l) {line : Int} {k : Nat}
    (found : l.waiting.find? line = some k) : ∃ text, steps[k]? = some (.add text line) := by
  have origin : ∀ w ∈ l.waiting.entries, ∃ text, steps[w.2]? = some (.add text w.1) := by
    have waits := accounts.waits
    generalize (after cfg steps start).session.queue.entries = entries at waits
    generalize l.waiting.entries = waiting at waits
    induction waits with
    | nil => simp
    | @cons entry w entries waiting first later ih =>
        intro other member
        rcases List.mem_cons.mp member with rfl | member
        · exact ⟨entry.2.1, first.1 ▸ first.2.1⟩
        · exact ih other member
  obtain ⟨w, isFirst, rfl⟩ := Option.map_eq_some_iff.mp found
  have key : w.1 = line := by simpa using List.find?_some isFirst
  exact key ▸ origin w (List.mem_of_find?_eq_some isFirst)

/-- A line that is queued waits behind all others, or in place of the one with its number. -/
theorem Accounts.add (accounts : Accounts cfg start steps l) {text : Text} {line : Int}
    {next : Desk} (added : Desk.add cfg text line (after cfg steps start) = .ok () next) :
    Accounts cfg start (steps ++ [.add text line])
      { l with
        taken := l.taken + 1
        queued := l.queued ++ [l.taken]
        replaced := l.replaced ++ (l.waiting.find? line).toList
        waiting := l.waiting.insert line l.taken } := by
  have here : (steps ++ [.add text line])[l.taken]? = some (.add text line) := by
    rw [accounts.taken, List.getElem?_concat_length]
  have reaches : after cfg (steps ++ [.add text line]) start = next := by
    rw [after_concat, Step.action, added]
    rfl
  have came := add_cases cfg text line (after cfg steps start)
  rw [added] at came
  cases came with
  | @queued tree _ parsed session reporter out =>
      refine ⟨?_, fun k => ?_, ?_, ?_, fun k member => ?_, ?_, ?_, ?_⟩
      · simp [accounts.taken]
      · rw [List.mem_append, List.mem_singleton, accounts.queued, queues_concat, accounts.taken]
        have success : ∃ text' line' next', Step.add text line = .add text' line' ∧
            Desk.add cfg text' line' (after cfg steps start) = .ok () next' :=
          ⟨text, line, next, rfl, added⟩
        simp only [success, and_true]
      · rw [List.nodup_append]
        refine ⟨accounts.once, List.nodup_singleton _, ?_⟩
        rintro old member new isNew rfl
        obtain ⟨_, _, _, inside, -⟩ := (accounts.queued old).mp member
        obtain ⟨inside, -⟩ := List.getElem?_eq_some_iff.mp inside
        rw [List.mem_singleton.mp isNew, accounts.taken] at inside
        exact Nat.lt_irrefl _ inside
      · have moved := (OrderedMap.put_perm line l.taken l.waiting.entries).append_left
          (l.evaluated ++ l.replaced)
        rw [← List.append_assoc (l.evaluated ++ l.replaced) (l.waiting.entries.map _)] at moved
        have all := moved.trans (accounts.settled.append_right [l.taken])
        simp only [List.append_assoc] at all ⊢
        exact all
      · rcases List.mem_append.mp member with old | old
        · obtain ⟨j, later, replaces⟩ := accounts.replaced k old
          exact ⟨j, List.mem_append_left _ later, replaces.concat _⟩
        · obtain ⟨text', origin⟩ := accounts.origin (Option.mem_toList.mp old)
          obtain ⟨inside, -⟩ := List.getElem?_eq_some_iff.mp origin
          rw [← accounts.taken] at inside
          exact ⟨l.taken, by simp, inside, line, text', text, getElem?_concat origin _, here⟩
      · exact accounts.evaluated.imp fun _ _ origin => origin.concat _
      · rw [reaches, session]
        exact OrderedMap.put_forall₂ (fun _ _ waits => waits.1) ⟨rfl, here, parsed⟩
          (accounts.waits.imp fun _ _ waits => waits.concat _)
      · rw [reaches, session]
        exact OrderedMap.nodup_insert accounts.distinct _ _

/-- The entries that a run reaches and those that it leaves make up the queue. -/
theorem reached_append_remains {d : Desk} (distinct : d.session.queue.keys.Nodup) :
    reached cfg d.session.queue.entries d ++ (remains (run cfg d)).session.queue.entries =
      d.session.queue.entries := by
  cases ran : run cfg d with
  | ok result next =>
      obtain ⟨all, values, env, evaluates, session, reporter⟩ := run_ok distinct ran
      rw [all, remains, session]
      exact List.append_nil _
  | error e failed =>
      obtain ⟨before, line, text, tree, rest, split, all, values, env, last, kept, evaluates, fails,
        session, reporter⟩ := run_error distinct ran
      rw [all, remains, session, split, List.append_assoc, List.singleton_append]

/-- A run evaluates the lines that waited longest. -/
theorem Accounts.run (accounts : Accounts cfg start steps l) :
    Accounts cfg start (steps ++ [.run]) (l.enter cfg (after cfg steps start) .run) := by
  have split := @reached_append_remains cfg _ accounts.distinct
  have reaches : after cfg (steps ++ [.run]) start =
      remains (Desk.run cfg (after cfg steps start)) := after_concat cfg steps .run start
  have waits : List.Forall₂ (Waits cfg (steps ++ [.run])) _ l.waiting.entries :=
    accounts.waits.imp fun _ _ waits => waits.concat .run
  rw [Ledger.enter]
  rw [← split] at waits
  generalize reached cfg _ _ = entries at split waits ⊢
  have first := List.forall₂_take entries.length waits
  have later := List.forall₂_drop entries.length waits
  rw [List.take_left] at first
  rw [List.drop_left] at later
  refine ⟨?_, fun k => ?_, accounts.once, ?_, fun k member => ?_, ?_, ?_, ?_⟩
  · simp [accounts.taken]
  · rw [accounts.queued, queues_concat]
    simp
  · have whole := accounts.settled
    rw [← List.take_append_drop entries.length l.waiting.entries, List.map_append] at whole
    refine List.Perm.trans ?_ whole
    simp only [List.append_assoc]
    refine List.Perm.append_left _ ?_
    simp only [← List.append_assoc]
    exact List.perm_append_comm.append_right _
  · obtain ⟨j, member, replaces⟩ := accounts.replaced k member
    exact ⟨j, member, replaces.concat .run⟩
  · refine List.rel_append (accounts.evaluated.imp fun _ _ origin => origin.concat .run) ?_
    exact List.forall₂_map_right_iff.mpr (first.imp fun _ _ waits => waits.2)
  · rw [reaches]
    exact later
  · have distinct := accounts.distinct
    rw [OrderedMap.keys, ← split, List.map_append] at distinct
    rw [reaches]
    exact (List.nodup_append.mp distinct).2.1

/-- One step keeps the ledger. -/
theorem Accounts.step (accounts : Accounts cfg start steps l) (step : Step) :
    Accounts cfg start (steps ++ [step]) (l.enter cfg (after cfg steps start) step) := by
  have reaches := after_concat cfg steps step start
  cases step with
  | add text line =>
      rw [Step.action] at reaches
      cases added : Desk.add cfg text line (after cfg steps start) with
      | ok result next =>
          rw [Ledger.enter, added]
          exact accounts.add added
      | error e failed =>
          have came := add_cases cfg text line (after cfg steps start)
          rw [added] at came reaches
          rw [Ledger.enter, added]
          refine accounts.idle ?_ ?_
          · rintro _ _ next ⟨⟩ ok
            rw [added] at ok
            cases ok
          · cases came with
            | failed reported session reporter out =>
                rw [reaches]
                exact congrArg Session.queue session
  | run => exact accounts.run
  | pop =>
      refine accounts.idle (by simp) ?_
      rw [reaches]
      generalize after cfg steps start = d
      show (remains ((Desk.pop >>= fun _ => pure () : Action Unit) d)).session.queue = _
      rw [bind_apply, Desk.pop]
      cases d.session.results.getLast? <;> rfl
  | reset =>
      refine accounts.idle (by simp) ?_
      rw [reaches]
      rfl

end

/-- Steps from a session in which nothing is queued keep their ledger. -/
theorem accounts_ledger (cfg : Settings) {start : Desk} (free : start.session.queue = .empty)
    (steps : List Step) : Accounts cfg start steps (ledger cfg steps start) := by
  induction steps using List.reverseRecOn with
  | nil =>
      have entries : start.session.queue.entries = [] := by rw [free]; rfl
      refine ⟨rfl, fun k => ?_, List.nodup_nil, .refl _, by simp [ledger], .nil, ?_, ?_⟩
      · simp [ledger, Queues]
      · show List.Forall₂ _ start.session.queue.entries []
        rw [entries]
        exact .nil
      · show (start.session.queue.entries.map Prod.fst).Nodup
        rw [entries]
        exact List.nodup_nil
  | append_singleton steps step ih =>
      rw [ledger_concat]
      exact ih.step step

/-- Take a session in which nothing is queued through any steps, and then through one more.

Every line that was queued was evaluated once, or a later line of the same number took its place, or
it waits.  The entries that runs have evaluated are those of the evaluated lines, and the queue is
made of those of the lines that wait, in order.  A line that cannot be queued leaves the session as
it was.  A run that comes to its end has evaluated the whole queue; unless the queue was empty, no
line is marked any more.  A run that fails has evaluated the entries before the one at which it
fails, adds their values to the results, and leaves the entries behind it in the queue.  The entry
at which it fails is marked; it has a result only if this is a value that cannot be printed. -/
theorem evaluated_once (cfg : Settings) (start : Desk) (free : start.session.queue = .empty)
    (steps : List Step) :
    let l := ledger cfg steps start
    let now := after cfg steps start
    ((∀ k, k ∈ l.queued ↔ Queues cfg steps start k) ∧ l.queued.Nodup ∧
      (l.evaluated ++ l.replaced ++ l.waiting.entries.map Prod.snd).Perm l.queued ∧
      (∀ k ∈ l.replaced, ∃ j ∈ l.queued, Replaces steps k j) ∧
      List.Forall₂ (IsFrom cfg steps) l.entries l.evaluated ∧
      List.Forall₂ (Waits cfg steps) now.session.queue.entries l.waiting.entries) ∧
    (∀ text line e next, add cfg text line now = .error e next → next.session = now.session) ∧
    (∀ next, run cfg now = .ok () next →
      reached cfg now.session.queue.entries now = now.session.queue.entries ∧
      ∃ values env,
        Evaluates cfg.depth now.session.environment now.session.queue.entries values env ∧
        next.session = { now.session with
          environment := env, queue := .empty, results := now.session.results ++ values } ∧
        next.console.reporter =
          if now.session.queue.entries = [] then now.console.reporter
          else now.console.reporter.clearLine now.session.path) ∧
    ∀ e next, run cfg now = .error e next →
      ∃ before line text tree rest,
        now.session.queue.entries = before ++ (line, text, tree) :: rest ∧
        reached cfg now.session.queue.entries now = before ++ [(line, text, tree)] ∧
        ∃ values env last kept, Evaluates cfg.depth now.session.environment before values env ∧
          Fails cfg.depth now.session.echo tree env e last kept ∧
          next.session = { now.session with
            environment := last, queue := ⟨rest⟩
            results := now.session.results ++ (values ++ kept) } ∧
          next.console.reporter =
            now.console.reporter.setLine now.session.path ⟨some text, some line⟩ := by
  intro l now
  have accounts : Accounts cfg start steps l := accounts_ledger cfg free steps
  refine ⟨⟨accounts.queued, accounts.once, accounts.settled, accounts.replaced, accounts.evaluated,
    accounts.waits⟩, fun text line e next failed => ?_, fun next ran => ?_, fun e next ran => ?_⟩
  · have came := add_cases cfg text line now
    rw [failed] at came
    cases came with
    | failed reported session reporter out => exact session
  · exact run_ok accounts.distinct ran
  · exact run_error accounts.distinct ran

def opened (echo : Bool) : Desk :=
  ⟨{ reporter := { fatal := false, places := ⟨[(Session.typedPath, {})]⟩ } },
    { path := Session.typedPath, echo }⟩

/-- Of four lines that are queued the first is replaced by the last.  The first run stops at the
second line, the next one goes on behind it. -/
theorem evaluated_once_replaced :
    let steps : List Step := [.add "1 +".toList 1, .add "x = 6".toList 1, .add "y".toList 2,
      .add "x".toList 3, .add "x = 7".toList 1, .run, .pop, .run]
    let l := ledger ⟨20, false⟩ steps (opened false)
    l.evaluated = [4, 2, 3] ∧ l.replaced = [1] ∧ l.waiting = .empty ∧
      ([4, 2, 3] ++ [1] ++ []).Perm l.queued ∧
      (after ⟨20, false⟩ steps (opened false)).session.results = [.int 7] := by
  intro steps l
  have evaluated : l.evaluated = [4, 2, 3] := by decide +kernel
  have replaced : l.replaced = [1] := by decide +kernel
  have waiting : l.waiting = .empty := by decide +kernel
  obtain ⟨⟨-, -, settled, -⟩, -⟩ := evaluated_once ⟨20, false⟩ (opened false) rfl steps
  refine ⟨evaluated, replaced, waiting, ?_, by decide +kernel⟩
  have settled : (l.evaluated ++ l.replaced ++ l.waiting.entries.map Prod.snd).Perm l.queued :=
    settled
  rw [evaluated, replaced, waiting] at settled
  exact settled

/-- A run with nothing to evaluate leaves the line marked that could not be queued before, and a run
that prints its results keeps the one that is too long to be printed. -/
theorem run_leaves_mark_and_result :
    (∀ echo, Session.start {} (fun _ => none) Session.typedPath true echo {} =
      .ok (opened echo).session (opened echo).console) ∧
    (let d := after {} [.add "(3 + 4".toList 1] (opened false);
      failure? (run {} d) = none ∧
      (remains (run {} d)).console.reporter.places.find? Session.typedPath =
        some ⟨some "(3 + 4".toList, some 1⟩) ∧
    (let d := after {} [.add ("(x = (x = (x = (x = (x = (x = (x = (x = (x = 1000000000)" ++
        " * x) * x) * x) * x) * x) * x) * x) * x) * x").toList 1] (opened true);
      failure? (run {} d) = some (.internal .textTooLong) ∧
      (remains (run {} d)).session.results = d.session.results ++ [.int (10 ^ 4608)]) := by
  refine ⟨fun echo => by cases echo <;> rfl, ?_, ?_⟩
  · decide +kernel
  · decide +kernel

end Desk
end Abacus
