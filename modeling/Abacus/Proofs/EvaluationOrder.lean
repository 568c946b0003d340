/- # The order of evaluation

Evaluating a tree goes through its nodes one by one (`Tree.nodes`): the operands of a node from left
to right and then the node itself, the value of an assignment before the assignment.  What was
evaluated so far is a history, the nodes in this order with their values.  It tells which
assignments were made, and these tell the variables.

An evaluation that has a value went through all nodes.  One that fails went through the nodes in
front of the one that fails, and so had values for everything below it (`Tree.Traced`).  The
variables that an evaluation leaves are therefore those at its start, updated by the first
assignments of the tree: all of them, or those in front of the node that fails.  This is the main
result, `Tree.evaluate_updates`. -/
import Abacus.Proofs.EvaluationRules

namespace Abacus
set_option autoImplicit false

namespace OrderedMap

variable {κ ν : Type} [DecidableEq κ]

/-! ## Several insertions -/

def insertAll (m : OrderedMap κ ν) (bindings : List (κ × ν)) : OrderedMap κ ν :=
  bindings.foldl (fun m binding => m.insert binding.1 binding.2) m

@[simp] theorem insertAll_nil (m : OrderedMap κ ν) : m.insertAll [] = m := rfl

theorem insertAll_cons (m : OrderedMap κ ν) (binding : κ × ν) (rest : List (κ × ν)) :
    m.insertAll (binding :: rest) = (m.insert binding.1 binding.2).insertAll rest := rfl

theorem insertAll_append (m : OrderedMap κ ν) (first second : List (κ × ν)) :
    m.insertAll (first ++ second) = (m.insertAll first).insertAll second :=
  List.foldl_append

theorem mem_keys_insert {m : OrderedMap κ ν} {key other : κ} {value : ν} :
    other ∈ (m.insert key value).keys ↔ other ∈ m.keys ∨ other = key := by
  rw [keys_insert]
  split
  · rename_i old
    constructor
    · exact .inl
    · rintro (here | rfl)
      · exact here
      · exact old
  · simp

theorem mem_keys_insertAll {m : OrderedMap κ ν} {bindings : List (κ × ν)} {key : κ} :
    key ∈ (m.insertAll bindings).keys ↔ key ∈ m.keys ∨ key ∈ bindings.map Prod.fst := by
  induction bindings generalizing m with
  | nil => simp
  | cons binding rest ih =>
      rw [insertAll_cons, ih, mem_keys_insert, List.map_cons, List.mem_cons, or_assoc]

/-- Old keys keep their places, and new ones stand behind them in the order in which they were
first inserted. -/
theorem keys_insertAll [BEq κ] [LawfulBEq κ] (m : OrderedMap κ ν) (bindings : List (κ × ν)) :
    (m.insertAll bindings).keys =
      m.keys ++ ((bindings.map Prod.fst).filter (· ∉ m.keys)).eraseDups := by
  induction bindings using List.reverseRecOn with
  | nil => simp
  | append_singleton rest binding ih =>
      obtain ⟨key, value⟩ := binding
      have step : m.insertAll (rest ++ [(key, value)]) = (m.insertAll rest).insert key value :=
        insertAll_append m rest [(key, value)]
      rw [step, keys_insert]
      simp only [ih, List.map_append, List.filter_append]
      by_cases old : key ∈ m.keys
      · simp [old]
      · by_cases again : key ∈ rest.map Prod.fst <;>
          simp [old, again, List.eraseDups_append, List.eraseDups_cons, List.removeAll]

theorem find?_insertAll_of_not_mem {m : OrderedMap κ ν} {bindings : List (κ × ν)} {key : κ}
    (untouched : key ∉ bindings.map Prod.fst) : (m.insertAll bindings).find? key = m.find? key := by
  induction bindings generalizing m with
  | nil => rfl
  | cons binding rest ih =>
      simp only [List.map_cons, List.mem_cons, not_or] at untouched
      rw [insertAll_cons, ih untouched.2, find?_insert, if_neg untouched.1]

end OrderedMap

namespace Tree

/-! ## Nodes and histories -/

/-- The nodes of a tree in the order in which they are evaluated.  The target of an assignment is
not evaluated. -/
def nodes : Tree → List Tree
  | unary operator operand => operand.nodes ++ [.unary operator operand]
  | binary operator left right => left.nodes ++ (right.nodes ++ [.binary operator left right])
  | assignment target value => value.nodes ++ [.assignment target value]
  | t => [t]

def assigned? : Tree → Option (Text × Tree)
  | assignment target value => target.name?.map fun name => (name, value)
  | _ => none

/-- The assignments of a tree, in the order in which they are made. -/
def assignments (t : Tree) : List (Text × Tree) := t.nodes.filterMap assigned?

def targets (t : Tree) : List Text := t.assignments.map Prod.fst

/-- Nodes that were evaluated one after the other, each with its value. -/
abbrev History := List (Tree × Number)

def writes (history : History) : List (Text × Number) :=
  history.filterMap fun entry => entry.1.assigned?.map fun assigned => (assigned.1, entry.2)

/-- `Records depth env history` says that evaluation, begun with the variables `env`, went through
the nodes of the history: each node comes behind the nodes below it, and has the value that
evaluating it gives from where the first of these was begun. -/
inductive Records (depth : Nat) (env : Environment) : History → Prop
  | nil : Records depth env []
  | snoc (earlier own : History) {node : Tree} {value : Number}
      (before : Records depth env (earlier ++ own))
      (below : own.map Prod.fst ++ [node] = node.nodes)
      (evaluated : evaluate depth node (env.insertAll (writes earlier)) =
        .ok value (env.insertAll (writes (earlier ++ own ++ [(node, value)])))) :
      Records depth env (earlier ++ own ++ [(node, value)])

/-- `Fails depth node env e after` says that a node fails itself, with the failure `e`: evaluation
came to it with the variables `env`, and everything below it has a value. -/
inductive Fails (depth : Nat) : Tree → Environment → Failure → Environment → Prop
  | missing {name : Text} {env : Environment} (unbound : env.find? name = none) :
      Fails depth (.reference name) env (.diagnosed (.undefinedVariable name)) env
  | barred {operator : Token.Kind} {left right : Tree} {x y : Number} {e : Failure}
      {env middle after : Environment} (first : evaluate depth left env = .ok x middle)
      (second : evaluate depth right middle = .ok y after)
      (applied : apply operator x y = .error e) :
      Fails depth (.binary operator left right) env e after
  | nameless {target value : Tree} {x : Number} {env after : Environment}
      (inner : evaluate depth value env = .ok x after) (unnamed : target.name? = none) :
      Fails depth (.assignment target value) env
        (.internal (.malformed (.noName target.sort))) after
  | stray {s : Stray} {env : Environment} :
      Fails depth (.stray s) env (.internal (.malformed (.notEvaluable s.sort))) env

/-- How far evaluating a tree went, and how it ended there. -/
inductive Traced (depth : Nat) (env : Environment) (t : Tree) (history : History) :
    EStateM.Result Failure Environment Number → Prop
  /-- All nodes were evaluated. -/
  | returned {value : Number} {after : Environment} (all : history.map Prod.fst = t.nodes) :
      Traced depth env t history (.ok value after)
  /-- The next node fails, behind the nodes below it. -/
  | raised (earlier own : History) (later : List Tree) {node : Tree} {e : Failure}
      {after : Environment} (here : t.nodes = history.map Prod.fst ++ node :: later)
      (split : history = earlier ++ own) (below : own.map Prod.fst ++ [node] = node.nodes)
      (fails : Fails depth node (env.insertAll (writes earlier)) e after) :
      Traced depth env t history (.error e after)
  /-- The allowance does not reach down to the next node. -/
  | tooDeep {after : Environment} (part : history.map Prod.fst <+: t.nodes)
      (short : depth < t.height) : Traced depth env t history (.error .tooDeep after)

theorem nodes_concat (t : Tree) : ∃ below, t.nodes = below ++ [t] := by
  cases t with
  | binary operator left right =>
      exact ⟨left.nodes ++ right.nodes, by rw [nodes, List.append_assoc]⟩
  | unary operator operand => exact ⟨operand.nodes, rfl⟩
  | assignment target value => exact ⟨value.nodes, rfl⟩
  | literal | reference | stray => exact ⟨[], rfl⟩

theorem writes_append (first second : History) :
    writes (first ++ second) = writes first ++ writes second :=
  List.filterMap_append

/-- A node that is no assignment writes nothing. -/
theorem writes_concat_plain (history : History) {node : Tree} (plain : node.assigned? = none)
    (value : Number) : writes (history ++ [(node, value)]) = writes history := by
  simp [writes, plain]

theorem writes_concat_assignment (history : History) {target : Tree} {name : Text}
    (named : target.name? = some name) (value : Tree) (x : Number) :
    writes (history ++ [(.assignment target value, x)]) = writes history ++ [(name, x)] := by
  simp [writes, assigned?, named]

theorem map_fst_writes (history : History) :
    (writes history).map Prod.fst = ((history.map Prod.fst).filterMap assigned?).map Prod.fst := by
  simp [writes, List.map_filterMap, List.filterMap_map, Function.comp_def]

/-- An assignment has the value of its right-hand side. -/
theorem Yields.assigned_value {depth : Nat} {target value : Tree} {env after : Environment}
    {x : Number} (yields : Yields depth (.assignment target value) env (.ok x after)) :
    ∃ middle, evaluate depth value env = .ok x middle := by
  cases yields with
  | assignment inner named => exact ⟨_, (inner.mono nofun).evaluate_eq⟩

/-! ## Histories of evaluations -/

namespace Records

variable {depth : Nat} {env : Environment} {history : History}

theorem mono (records : Records depth env history) : Records (depth + 1) env history := by
  induction records with
  | nil => exact .nil
  | snoc earlier own _ below evaluated ih =>
      exact .snoc earlier own ih below ((yields_iff.mpr evaluated).mono nofun).evaluate_eq

theorem append {first second : History} (records : Records depth env first)
    (later : Records depth (env.insertAll (writes first)) second) :
    Records depth env (first ++ second) := by
  induction later with
  | nil => simpa using records
  | @snoc earlier own node value _ below evaluated ih =>
      rw [← List.append_assoc] at ih
      have whole : first ++ (earlier ++ own ++ [(node, value)]) =
          first ++ earlier ++ own ++ [(node, value)] := by simp
      rw [whole]
      refine .snoc (first ++ earlier) own ih below ?_
      rw [writes_append, OrderedMap.insertAll_append, evaluated, ← whole, writes_append first,
        OrderedMap.insertAll_append]

/-- Each entry of a history has the value of its node. -/
theorem entry {before later : History} {node : Tree} {value : Number}
    (records : Records depth env history) (split : history = before ++ (node, value) :: later) :
    ∃ earlier own, before = earlier ++ own ∧ own.map Prod.fst ++ [node] = node.nodes ∧
      Records depth env before ∧
      evaluate depth node (env.insertAll (writes earlier)) =
        .ok value (env.insertAll (writes (before ++ [(node, value)]))) := by
  induction records generalizing later with
  | nil => simp at split
  | @snoc earlier own last x records below evaluated ih =>
      rcases List.eq_nil_or_concat later with rfl | ⟨front, final, rfl⟩
      · obtain ⟨rfl, same⟩ := List.append_inj' split rfl
        cases same
        exact ⟨earlier, own, rfl, below, records, evaluated⟩
      · rw [List.concat_eq_append, ← List.cons_append, ← List.append_assoc] at split
        exact ih (List.append_inj' split rfl).1

/-- An assignment that was made has the value to which its right-hand side evaluated. -/
theorem assigned {before later : History} {target value : Tree} {x : Number}
    (records : Records depth env history)
    (split : history = before ++ (.assignment target value, x) :: later) :
    ∃ earlier own, before = earlier ++ own ∧ own.map Prod.fst = value.nodes ∧
      evaluate depth value (env.insertAll (writes earlier)) =
        .ok x (env.insertAll (writes before)) := by
  obtain ⟨earlier, own, rfl, below, records, evaluated⟩ := records.entry split
  have ownNodes : own.map Prod.fst = value.nodes := (List.append_inj' below rfl).1
  refine ⟨earlier, own, rfl, ownNodes, ?_⟩
  obtain ⟨middle, inner⟩ := (yields_iff.mpr evaluated).assigned_value
  -- the last of the nodes below is the right-hand side, which the history has a value of as well
  obtain ⟨front, last⟩ := value.nodes_concat
  rw [last] at ownNodes
  obtain ⟨own, final, rfl, rfl, single⟩ := List.map_eq_append_iff.mp ownNodes
  obtain ⟨⟨_, y⟩, rfl, rfl⟩ := List.map_eq_singleton_iff.mp single
  rw [← List.append_assoc] at records
  obtain ⟨earlier', own', same, below', -, ends⟩ := records.entry rfl
  have length : own.length = own'.length := by
    have := congrArg List.length (below'.trans last)
    simpa using this.symm
  obtain ⟨rfl, rfl⟩ := List.append_inj' same length
  rw [inner] at ends
  cases ends
  rw [inner, List.append_assoc]

end Records

theorem Fails.mono {depth : Nat} {node : Tree} {env after : Environment} {e : Failure}
    (fails : Fails depth node env e after) : Fails (depth + 1) node env e after := by
  have more : ∀ {t : Tree} {x : Number} {env after : Environment},
      evaluate depth t env = .ok x after → evaluate (depth + 1) t env = .ok x after :=
    fun evaluated => ((yields_iff.mpr evaluated).mono nofun).evaluate_eq
  cases fails with
  | missing unbound => exact .missing unbound
  | barred first second applied => exact .barred (more first) (more second) applied
  | nameless inner unnamed => exact .nameless (more inner) unnamed
  | stray => exact .stray

/-- A tree that has a value adds itself to the history of what stands below it. -/
theorem traced_value {depth : Nat} {t : Tree} {env after : Environment} {own : History}
    {value : Number} (records : Records depth env own)
    (below : own.map Prod.fst ++ [t] = t.nodes)
    (yields : Yields (depth + 1) t env (.ok value after))
    (left : after = env.insertAll (writes (own ++ [(t, value)]))) :
    ∃ history, Records (depth + 1) env history ∧
      Traced (depth + 1) env t history (.ok value after) ∧
      after = env.insertAll (writes history) := by
  refine ⟨own ++ [(t, value)], ?_, .returned (by simpa using below), left⟩
  have evaluated := yields.evaluate_eq
  rw [left] at evaluated
  exact .snoc [] own records.mono below evaluated

/-- A tree that fails itself leaves the history at what stands below it. -/
theorem traced_failure {depth : Nat} {t : Tree} {env after : Environment} {own : History}
    {e : Failure} (records : Records depth env own) (below : own.map Prod.fst ++ [t] = t.nodes)
    (fails : Fails depth t env e after) (left : after = env.insertAll (writes own)) :
    ∃ history, Records (depth + 1) env history ∧
      Traced (depth + 1) env t history (.error e after) ∧ after = env.insertAll (writes history) :=
  ⟨own, records.mono, .raised [] own [] below.symm rfl below fails.mono, left⟩

/-- A failure behind some nodes of a tree and within a part of it is one of the tree. -/
theorem Traced.behind {depth : Nat} {t part : Tree} {env after : Environment}
    {history : History} {e : Failure} (first : History) (later : List Tree)
    (order : t.nodes = first.map Prod.fst ++ (part.nodes ++ later)) (low : part.height < t.height)
    (traced : Traced depth (env.insertAll (writes first)) part history (.error e after)) :
    Traced (depth + 1) env t (first ++ history) (.error e after) := by
  cases traced with
  | raised earlier own behind here split below fails =>
      refine .raised (first ++ earlier) own (behind ++ later) ?_ ?_ below ?_
      · simp [order, here]
      · rw [split, List.append_assoc]
      · rw [writes_append, OrderedMap.insertAll_append]
        exact fails.mono
  | tooDeep part short =>
      obtain ⟨more, part⟩ := part
      exact .tooDeep ⟨more ++ later, by simp [order, ← part]⟩ (by omega)

/-- Every evaluation has a history. -/
theorem Yields.traced {depth : Nat} {t : Tree} {env : Environment}
    {r : EStateM.Result Failure Environment Number} (yields : Yields depth t env r) :
    ∃ history, Records depth env history ∧ Traced depth env t history r ∧
      remains r = env.insertAll (writes history) := by
  induction yields with
  | @tooDeep t env => exact ⟨[], .nil, .tooDeep (List.nil_prefix) t.height_pos, rfl⟩
  | literal => exact traced_value .nil rfl .literal rfl
  | found bound => exact traced_value .nil rfl (.found bound) rfl
  | missing unbound => exact traced_failure .nil rfl (.missing unbound) rfl
  | unary inner ih =>
      obtain ⟨history, records, traced, left⟩ := ih
      cases traced with
      | returned all =>
          refine traced_value records (by rw [all, nodes]) (.unary inner) ?_
          rwa [writes_concat_plain _ rfl]
  | unaryFails inner ih =>
      obtain ⟨history, records, traced, left⟩ := ih
      exact ⟨history, records.mono, traced.behind [] _ rfl (by simp [height]), left⟩
  | leftFails inner ih =>
      obtain ⟨history, records, traced, left⟩ := ih
      refine ⟨history, records.mono, traced.behind [] _ rfl ?_, left⟩
      simp only [height]
      omega
  | @rightFails depth operator left right x e env middle after first second ihFirst ihSecond =>
      obtain ⟨before, records, traced, rfl⟩ := ihFirst
      obtain ⟨history, behind, failed, final⟩ := ihSecond
      cases traced with
      | returned all =>
          refine ⟨before ++ history, (records.append behind).mono,
            failed.behind before [.binary operator left right] ?_ ?_, ?_⟩
          · rw [all, nodes]
          · simp only [height]
            omega
          · rw [writes_append, OrderedMap.insertAll_append]
            exact final
  | binary first second applied ihFirst ihSecond =>
      obtain ⟨before, records, traced, rfl⟩ := ihFirst
      obtain ⟨history, behind, ended, final⟩ := ihSecond
      cases traced with
      | returned all =>
          cases ended with
          | returned rest =>
              refine traced_value (records.append behind) ?_ (.binary first second applied) ?_
              · simp [nodes, all, rest]
              · rw [writes_concat_plain _ rfl, writes_append, OrderedMap.insertAll_append]
                exact final
  | barred first second applied ihFirst ihSecond =>
      obtain ⟨before, records, traced, rfl⟩ := ihFirst
      obtain ⟨history, behind, ended, final⟩ := ihSecond
      cases traced with
      | returned all =>
          cases ended with
          | returned rest =>
              refine traced_failure (records.append behind) ?_
                (.barred first.evaluate_eq second.evaluate_eq applied) ?_
              · simp [nodes, all, rest]
              · rw [writes_append, OrderedMap.insertAll_append]
                exact final
  | assignment inner named ih =>
      obtain ⟨history, records, traced, rfl⟩ := ih
      cases traced with
      | returned all =>
          refine traced_value records (by rw [all, nodes]) (.assignment inner named) ?_
          rw [writes_concat_assignment _ named, OrderedMap.insertAll_append]
          rfl
  | valueFails inner ih =>
      obtain ⟨history, records, traced, left⟩ := ih
      exact ⟨history, records.mono, traced.behind [] _ rfl (by simp [height]), left⟩
  | nameless inner unnamed ih =>
      obtain ⟨history, records, traced, left⟩ := ih
      cases traced with
      | returned all =>
          exact traced_failure records (by rw [all, nodes]) (.nameless inner.evaluate_eq unnamed)
            left
  | stray => exact traced_failure .nil rfl .stray rfl

theorem evaluate_traced (depth : Nat) (t : Tree) (env : Environment) :
    ∃ history, Records depth env history ∧ Traced depth env t history (evaluate depth t env) ∧
      remains (evaluate depth t env) = env.insertAll (writes history) :=
  (evaluate_yields depth t env).traced

theorem Traced.nodes_prefix {depth : Nat} {t : Tree} {env : Environment} {history : History}
    {r : EStateM.Result Failure Environment Number} (traced : Traced depth env t history r) :
    history.map Prod.fst <+: t.nodes := by
  cases traced with
  | returned all => exact all ▸ List.prefix_rfl
  | raised earlier own later here split below fails => exact ⟨_, here.symm⟩
  | tooDeep part short => exact part

/-- The first assignments of a tree are the ones that were made. -/
theorem Traced.writes_prefix {depth : Nat} {t : Tree} {env : Environment} {history : History}
    {r : EStateM.Result Failure Environment Number} (traced : Traced depth env t history r) :
    (writes history).map Prod.fst <+: t.targets := by
  obtain ⟨later, split⟩ := traced.nodes_prefix
  rw [map_fst_writes, targets, assignments, ← split, List.filterMap_append, List.map_append]
  exact List.prefix_append _ _

/-! ## What an evaluation leaves -/

/-- A name that a tree does not assign to keeps its value. -/
theorem find?_remains (depth : Nat) {t : Tree} (env : Environment) {name : Text}
    (untouched : name ∉ t.targets) :
    (remains (evaluate depth t env)).find? name = env.find? name := by
  obtain ⟨history, -, traced, left⟩ := evaluate_traced depth t env
  rw [left]
  apply OrderedMap.find?_insertAll_of_not_mem
  intro written
  exact untouched (traced.writes_prefix.subset written)

/-- An evaluation, whether it ends in a value or fails, has gone through a history: all nodes of the
tree, or those in front of the node that fails.  It leaves the variables at its start, updated by
the assignments among these nodes, which are the first ones of the tree.  Each was made with the
value to which its right-hand side evaluated, begun and ended where it stands in the history.  Other
names keep their values, all names keep their places, and new ones come behind them in the order of
their first assignment; an assignment whose right-hand side fails adds nothing to what this
leaves. -/
theorem evaluate_updates (depth : Nat) (t : Tree) (env : Environment) :
    ∃ history, Records depth env history ∧ Traced depth env t history (evaluate depth t env) ∧
      remains (evaluate depth t env) = env.insertAll (writes history) ∧
      (writes history).map Prod.fst =
        ((history.map Prod.fst).filterMap assigned?).map Prod.fst ∧
      (writes history).map Prod.fst <+: t.targets ∧
      (∀ before target value x later,
        history = before ++ (.assignment target value, x) :: later →
        ∃ earlier own, before = earlier ++ own ∧ own.map Prod.fst = value.nodes ∧
          evaluate depth value (env.insertAll (writes earlier)) =
            .ok x (env.insertAll (writes before))) ∧
      (∀ name, name ∉ t.targets →
        (remains (evaluate depth t env)).find? name = env.find? name) ∧
      (remains (evaluate depth t env)).keys =
        env.keys ++ (((writes history).map Prod.fst).filter (· ∉ env.keys)).eraseDups ∧
      ∀ target value start e after, evaluate depth value start = .error e after →
        evaluate (depth + 1) (.assignment target value) start = .error e after := by
  obtain ⟨history, records, traced, left⟩ := evaluate_traced depth t env
  refine ⟨history, records, traced, left, map_fst_writes history, traced.writes_prefix, ?_, ?_, ?_,
    ?_⟩
  · intro before target value x later split
    exact records.assigned split
  · intro name untouched
    exact find?_remains depth env untouched
  · rw [left, OrderedMap.keys_insertAll]
  · intro target value start e after failed
    exact (Yields.valueFails (yields_iff.mpr failed)).evaluate_eq

example : (remains (interpret 20 "(x = 2) * (y = x + z)".toList .empty)).entries =
    [("x".toList, .int 2)] := by cbv

end Tree
end Abacus
