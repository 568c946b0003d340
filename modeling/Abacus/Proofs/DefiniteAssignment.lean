/- # Definite assignment

Whether a tree reads a variable before it has a value can be seen from the tree and the names that
have a value at the start: `Tree.Uncovered` marks the places in the order of evaluation where this
happens.  No other place fails for a variable without a value, and none of these places is ever
passed (`Tree.Records.covered`).  So the first of them decides: without one, no evaluation complains
of an undefined variable, and with one, an evaluation has no value and can complain of no other
name (`Tree.evaluate_undefined`).  It may still fail earlier for another reason. -/
import Abacus.Proofs.EvaluationOrder

namespace Abacus
set_option autoImplicit false

theorem OrderedMap.mem_keys_of_find? {κ ν : Type} [DecidableEq κ] {m : OrderedMap κ ν} {key : κ}
    {value : ν} (found : m.find? key = some value) : key ∈ m.keys := by
  obtain ⟨entry, here, -⟩ := Option.map_eq_some_iff.mp found
  have same : entry.1 = key := by simpa using List.find?_some here
  exact same ▸ List.mem_map_of_mem (List.mem_of_find?_eq_some here)

theorem OrderedMap.not_mem_keys_of_find? {κ ν : Type} [DecidableEq κ] {m : OrderedMap κ ν} {key : κ}
    (missing : m.find? key = none) : key ∉ m.keys := by
  intro here
  obtain ⟨entry, member, rfl⟩ := List.mem_map.mp here
  have differs := List.find?_eq_none.mp (Option.map_eq_none_iff.mp missing) entry member
  simp at differs

namespace Tree

/-- In the order of evaluation the tree reads, at the place `i`, a name that has no value by then:
none at the start, and none from an assignment at an earlier place. -/
def Uncovered (t : Tree) (env : Environment) (i : Nat) (name : Text) : Prop :=
  t.nodes[i]? = some (.reference name) ∧ name ∉ env.keys ∧
    ∀ j < i, ∀ value, t.nodes[j]? ≠ some (.assignment (.reference name) value)

/-! ## Names that were written -/

theorem name?_eq_some_iff {t : Tree} {name : Text} : t.name? = some name ↔ t = .reference name := by
  cases t <;> simp [name?]

theorem assigned?_eq_some_iff {t value : Tree} {name : Text} :
    t.assigned? = some (name, value) ↔ t = .assignment (.reference name) value := by
  cases t with
  | assignment target rhs => simp [assigned?, name?_eq_some_iff]
  | _ => simp [assigned?]

theorem mem_writes_iff {history : History} {name : Text} :
    name ∈ (writes history).map Prod.fst ↔
      ∃ value, .assignment (.reference name) value ∈ history.map Prod.fst := by
  rw [map_fst_writes]
  constructor
  · intro written
    obtain ⟨⟨_, value⟩, member, rfl⟩ := List.mem_map.mp written
    obtain ⟨node, here, assigned⟩ := List.mem_filterMap.mp member
    exact ⟨value, assigned?_eq_some_iff.mp assigned ▸ here⟩
  · rintro ⟨value, here⟩
    have member := List.mem_filterMap.mpr ⟨_, here, assigned?_eq_some_iff.mpr rfl⟩
    exact List.mem_map_of_mem member

/-! ## Reads -/

/-- A read that was evaluated had a value. -/
theorem Records.covered {depth : Nat} {t : Tree} {env : Environment} {history : History}
    (records : Records depth env history) (part : history.map Prod.fst <+: t.nodes) {i : Nat}
    (done : i < history.length) (name : Text) : ¬ t.Uncovered env i name := by
  rintro ⟨read, unbound, unassigned⟩
  have place : ∀ j (passed : j < history.length), t.nodes[j]? = some history[j].1 := by
    intro j passed
    obtain ⟨later, split⟩ := part
    rw [← split, List.getElem?_append_left (by simpa using passed)]
    simp [passed]
  have split : history = history.take i ++ (.reference name, history[i].2) ::
      history.drop (i + 1) := by
    have here : history[i].1 = .reference name := Option.some.inj ((place i done).symm.trans read)
    rw [← here]
    simp
  obtain ⟨earlier, own, same, below, -, evaluated⟩ := records.entry split
  -- nothing stands below a read, so it was begun where the nodes in front of it have led
  obtain rfl : own = [] := by simpa [nodes] using below
  rw [List.append_nil] at same
  subst same
  rw [writes_concat_plain _ rfl] at evaluated
  cases yields_iff.mpr evaluated with
  | found bound =>
      have known := OrderedMap.mem_keys_of_find? bound
      rcases OrderedMap.mem_keys_insertAll.mp known with old | written
      · exact unbound old
      · obtain ⟨value, assigned⟩ := mem_writes_iff.mp written
        obtain ⟨j, passed, here⟩ := List.mem_iff_getElem.mp assigned
        simp only [List.length_map, List.length_take, Nat.lt_min] at passed
        refine unassigned j passed.1 value ?_
        rw [place j passed.2, ← here]
        simp

/-- Only a read fails for an undefined variable. -/
theorem Fails.undefined {depth : Nat} {node : Tree} {env after : Environment} {d : Diagnostic}
    {name : Text} (fails : Fails depth node env (.diagnosed d) after)
    (kind : d.kind = .undefinedVariable name) :
    node = .reference name ∧ env.find? name = none ∧ d = .undefinedVariable name := by
  cases fails with
  | missing unbound =>
      rw [Diagnostic.undefinedVariable_kind] at kind
      cases kind
      exact ⟨rfl, unbound, rfl⟩
  | @barred operator _ _ x y _ _ _ _ first second applied =>
      exfalso
      by_cases arithmetic : operator = .symbol .plus ∨ operator = .symbol .minus ∨
          operator = .symbol .star ∨ operator = .symbol .slash
      · cases apply_barred arithmetic applied
        cases kind
      · unfold apply at applied
        split at applied <;> simp at arithmetic applied

/-- An evaluation that fails for an undefined variable has come to an uncovered read. -/
theorem Traced.uncovered {depth : Nat} {t : Tree} {env after : Environment} {history : History}
    {d : Diagnostic} {name : Text}
    (traced : Traced depth env t history (.error (.diagnosed d) after))
    (kind : d.kind = .undefinedVariable name) :
    t.Uncovered env history.length name ∧ d = .undefinedVariable name := by
  cases traced with
  | raised earlier own later here split below fails =>
      obtain ⟨rfl, missing, rfl⟩ := fails.undefined kind
      obtain rfl : own = [] := by simpa [nodes] using below
      rw [List.append_nil] at split
      subst split
      have unknown := OrderedMap.not_mem_keys_of_find? missing
      rw [OrderedMap.mem_keys_insertAll, not_or, mem_writes_iff] at unknown
      refine ⟨⟨by simp [here], unknown.1, ?_⟩, rfl⟩
      intro j earlier value assigned
      rw [here, List.getElem?_append_left (by simpa using earlier)] at assigned
      exact unknown.2 ⟨value, List.mem_of_getElem? assigned⟩

/-! ## The first uncovered read -/

/-- Where no read is uncovered, no evaluation fails for an undefined variable.  Where one is, no
evaluation has a value, and one that fails for an undefined variable names that of the first
uncovered read. -/
theorem evaluate_undefined (depth : Nat) (t : Tree) (env : Environment) :
    ((∀ i name, ¬ t.Uncovered env i name) → ∀ d after name,
      evaluate depth t env = .error (.diagnosed d) after → d.kind ≠ .undefinedVariable name) ∧
    ((∃ i name, t.Uncovered env i name) → ∀ value after,
      evaluate depth t env ≠ .ok value after) ∧
    ∀ i name, t.Uncovered env i name → (∀ j < i, ∀ other, ¬ t.Uncovered env j other) →
      ∀ d after other, evaluate depth t env = .error (.diagnosed d) after →
        d.kind = .undefinedVariable other → other = name ∧ d = .undefinedVariable name := by
  obtain ⟨history, records, traced, -⟩ := evaluate_traced depth t env
  refine ⟨?_, ?_, ?_⟩
  · intro covered d after name failed kind
    rw [failed] at traced
    exact covered _ _ (traced.uncovered kind).1
  · rintro ⟨i, name, uncovered⟩ value after evaluated
    rw [evaluated] at traced
    cases traced with
    | returned all =>
        have done : i < history.length := by
          rw [← List.length_map Prod.fst, all]
          exact (List.getElem?_eq_some_iff.mp uncovered.1).1
        exact records.covered (all ▸ List.prefix_rfl) done name uncovered
  · intro i name uncovered first d after other failed kind
    rw [failed] at traced
    obtain ⟨here, rfl⟩ := traced.uncovered kind
    have notBefore : ¬ i < history.length := fun done =>
      records.covered traced.nodes_prefix done name uncovered
    have notBehind : ¬ history.length < i := fun behind => first _ behind other here
    obtain rfl : i = history.length := by omega
    obtain rfl : name = other := by simpa using uncovered.1.symm.trans here.1
    exact ⟨rfl, rfl⟩

/-- Of two names without a value the one read first is named, and a name assigned in front of its
read is none of them. -/
theorem evaluate_undefined_second_factor :
    ∃ t after d, parse 20 "(x = 2) * x + y / z".toList = .ok t ∧ t.Uncovered .empty 4 "y".toList ∧
      (∀ j < 4, ∀ other, ¬ t.Uncovered .empty j other) ∧
      evaluate 20 t .empty = .error (.diagnosed d) after ∧
      (∀ value after, evaluate 20 t .empty ≠ .ok value after) ∧
      d = .undefinedVariable "y".toList := by
  have parsed : parse 20 "(x = 2) * x + y / z".toList =
      .ok (.binary (.symbol .plus)
        (.binary (.symbol .star) (.assignment (.reference "x".toList) (.literal (.int 2)))
          (.reference "x".toList))
        (.binary (.symbol .slash) (.reference "y".toList) (.reference "z".toList))) := by cbv
  refine ⟨_, ⟨[("x".toList, .int 2)]⟩, .undefinedVariable "y".toList, parsed, ?_⟩
  generalize whole : Tree.binary (.symbol .plus) _ _ = t
  have uncovered : t.Uncovered .empty 4 "y".toList := by
    subst whole
    refine ⟨rfl, by simp [OrderedMap.keys, OrderedMap.empty], ?_⟩
    intro j before value
    interval_cases j <;> simp [nodes]
  have first : ∀ j < 4, ∀ other, ¬ t.Uncovered .empty j other := by
    rintro j before other ⟨read, -, unassigned⟩
    subst whole
    interval_cases j
    · simp [nodes] at read
    · simp [nodes] at read
    · obtain rfl : "x".toList = other := by simpa [nodes] using read
      exact unassigned 1 (by decide) _ rfl
    · simp [nodes] at read
  have failed : evaluate 20 t .empty =
      .error (.diagnosed (.undefinedVariable "y".toList)) ⟨[("x".toList, .int 2)]⟩ := by
    subst whole
    rfl
  obtain ⟨-, never, named⟩ := evaluate_undefined 20 t .empty
  exact ⟨uncovered, first, failed, never ⟨4, _, uncovered⟩,
    (named 4 _ uncovered first _ _ _ failed rfl).2⟩

end Tree
end Abacus
