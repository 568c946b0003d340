/- # Independence

What evaluating a tree comes to depends on the values of the names that it reads and on nothing
else (`Tree.Yields.agree`): with other variables that agree on these names it ends in the same way,
having made the same assignments.  Together with the fact that only the targets of a tree change
(`Tree.find?_remains`) this gives the main result, `Tree.evaluate_comm`: two trees of which neither
assigns to a name that the other one mentions can be evaluated in either order. -/
import Abacus.Proofs.EvaluationOrder

namespace Abacus
set_option autoImplicit false

/-- What an operation comes to, apart from the state that it leaves. -/
def outcome {σ α : Type} : EStateM.Result Failure σ α → Except Failure α
  | .ok a _ => .ok a
  | .error e _ => .error e

/-- The same outcome with another state left. -/
def leaving {σ α : Type} : EStateM.Result Failure σ α → σ → EStateM.Result Failure σ α
  | .ok a _, s => .ok a s
  | .error e _, s => .error e s

theorem outcome_leaving {σ α : Type} (r : EStateM.Result Failure σ α) (s : σ) :
    outcome (leaving r s) = outcome r := by
  cases r <;> rfl

theorem remains_leaving {σ α : Type} (r : EStateM.Result Failure σ α) (s : σ) :
    remains (leaving r s) = s := by
  cases r <;> rfl

/-- Insertions keep maps equal at a key at which they are. -/
theorem OrderedMap.find?_insertAll_congr {κ ν : Type} [DecidableEq κ] {m m' : OrderedMap κ ν}
    {key : κ} (same : m.find? key = m'.find? key) (bindings : List (κ × ν)) :
    (m.insertAll bindings).find? key = (m'.insertAll bindings).find? key := by
  induction bindings generalizing m m' with
  | nil => exact same
  | cons binding rest ih =>
      apply ih
      rw [find?_insert, find?_insert, same]

namespace Tree

def reads (t : Tree) : List Text := t.nodes.filterMap name?

def Mentions (t : Tree) (name : Text) : Prop := name ∈ t.reads ∨ name ∈ t.targets

@[simp] theorem reads_reference (name : Text) : reads (.reference name) = [name] := rfl

@[simp] theorem reads_unary (operator : Token.Kind) (operand : Tree) :
    reads (.unary operator operand) = operand.reads := by
  simp [reads, nodes, name?]

@[simp] theorem reads_binary (operator : Token.Kind) (left right : Tree) :
    reads (.binary operator left right) = left.reads ++ right.reads := by
  simp [reads, nodes, name?]

@[simp] theorem reads_assignment (target value : Tree) :
    reads (.assignment target value) = value.reads := by
  simp [reads, nodes, name?]

/-! ## Variables that agree on what is read -/

/-- Whether two environments give the same values to all names of a list. -/
def Agree (names : List Text) (env other : Environment) : Prop :=
  ∀ name ∈ names, other.find? name = env.find? name

theorem Agree.insertAll {names : List Text} {env other : Environment}
    (agree : Agree names env other) (made : List (Text × Number)) :
    Agree names (env.insertAll made) (other.insertAll made) :=
  fun name here => OrderedMap.find?_insertAll_congr (agree name here) made

/-- `Repeats depth t env r other` says that evaluating `t` with the variables `other` repeats an
evaluation with the variables `env` that ended in `r`: it makes the same assignments and has the
same outcome. -/
def Repeats (depth : Nat) (t : Tree) (env : Environment)
    (r : EStateM.Result Failure Environment Number) (other : Environment) : Prop :=
  ∃ made, remains r = env.insertAll made ∧
    Yields depth t other (leaving r (other.insertAll made))

/-- The operands of a binary operation are repeated one after the other. -/
theorem Agree.operands {depth : Nat} {left right : Tree} {env middle other : Environment}
    {x : Number} {r : EStateM.Result Failure Environment Number}
    (agree : Agree (left.reads ++ right.reads) env other)
    (first : ∀ {other}, Agree left.reads env other → Repeats depth left env (.ok x middle) other)
    (second : ∀ {other}, Agree right.reads middle other → Repeats depth right middle r other) :
    ∃ before made, remains r = env.insertAll (before ++ made) ∧
      Yields depth left other (.ok x (other.insertAll before)) ∧
      Yields depth right (other.insertAll before)
        (leaving r (other.insertAll (before ++ made))) := by
  obtain ⟨before, rfl, yieldsLeft⟩ := first fun name read => agree name (by simp [read])
  have agreeRight := agree.insertAll before
  obtain ⟨made, left, yieldsRight⟩ := second fun name read => agreeRight name (by simp [read])
  refine ⟨before, made, ?_, yieldsLeft, ?_⟩
  · rw [OrderedMap.insertAll_append]
    exact left
  · rw [OrderedMap.insertAll_append]
    exact yieldsRight

/-- An evaluation is repeated with any variables that agree on the names that are read. -/
theorem Yields.agree {depth : Nat} {t : Tree} {env other : Environment}
    {r : EStateM.Result Failure Environment Number} (yields : Yields depth t env r)
    (agree : Agree t.reads env other) : Repeats depth t env r other := by
  induction yields generalizing other with
  | tooDeep => exact ⟨[], rfl, .tooDeep⟩
  | literal => exact ⟨[], rfl, .literal⟩
  | found bound => exact ⟨[], rfl, .found ((agree _ (by simp)).trans bound)⟩
  | missing unbound => exact ⟨[], rfl, .missing ((agree _ (by simp)).trans unbound)⟩
  | unary _ ih =>
      obtain ⟨made, left, inner⟩ := ih (by simpa using agree)
      exact ⟨made, left, .unary inner⟩
  | unaryFails _ ih =>
      obtain ⟨made, left, inner⟩ := ih (by simpa using agree)
      exact ⟨made, left, .unaryFails inner⟩
  | binary _ _ applied ihFirst ihSecond =>
      rw [reads_binary] at agree
      obtain ⟨before, made, left, first, second⟩ := agree.operands ihFirst ihSecond
      exact ⟨before ++ made, left, .binary first second applied⟩
  | leftFails _ ih =>
      obtain ⟨made, left, first⟩ := ih fun name read => agree name (by simp [read])
      exact ⟨made, left, .leftFails first⟩
  | rightFails _ _ ihFirst ihSecond =>
      rw [reads_binary] at agree
      obtain ⟨before, made, left, first, second⟩ := agree.operands ihFirst ihSecond
      exact ⟨before ++ made, left, .rightFails first second⟩
  | barred _ _ applied ihFirst ihSecond =>
      rw [reads_binary] at agree
      obtain ⟨before, made, left, first, second⟩ := agree.operands ihFirst ihSecond
      exact ⟨before ++ made, left, .barred first second applied⟩
  | @assignment _ _ _ name x _ _ _ named ih =>
      obtain ⟨made, rfl, inner⟩ := ih (by simpa using agree)
      refine ⟨made ++ [(name, x)], ?_, ?_⟩
      · rw [OrderedMap.insertAll_append]
        rfl
      · rw [OrderedMap.insertAll_append]
        exact .assignment inner named
  | valueFails _ ih =>
      obtain ⟨made, left, inner⟩ := ih (by simpa using agree)
      exact ⟨made, left, .valueFails inner⟩
  | nameless _ unnamed ih =>
      obtain ⟨made, left, inner⟩ := ih (by simpa using agree)
      exact ⟨made, left, .nameless inner unnamed⟩
  | stray => exact ⟨[], rfl, .stray⟩

/-! ## Trees that are independent -/

/-- A tree does not notice that another one was evaluated before it which assigns to none of the
names that it mentions. -/
theorem evaluate_behind (depth : Nat) {t other : Tree} (env : Environment)
    (apart : ∀ name ∈ other.targets, ¬ t.Mentions name) :
    ∃ made, remains (evaluate depth t env) = env.insertAll made ∧
      evaluate depth t (remains (evaluate depth other env)) =
        leaving (evaluate depth t env) ((remains (evaluate depth other env)).insertAll made) := by
  have agree : Agree t.reads env (remains (evaluate depth other env)) := by
    intro name read
    exact find?_remains depth env fun target => apart name target (.inl read)
  obtain ⟨made, left, yields⟩ := (evaluate_yields depth t env).agree agree
  exact ⟨made, left, yields.evaluate_eq⟩

/-- If neither of two trees assigns to a name that the other one mentions, they can be evaluated in
either order, going on behind a failure: each has the same outcome, and in the end all names have
the same values. -/
theorem evaluate_comm (depth : Nat) (first second : Tree) (env : Environment)
    (apartFirst : ∀ name ∈ first.targets, ¬ second.Mentions name)
    (apartSecond : ∀ name ∈ second.targets, ¬ first.Mentions name) :
    outcome (evaluate depth first env) =
      outcome (evaluate depth first (remains (evaluate depth second env))) ∧
    outcome (evaluate depth second (remains (evaluate depth first env))) =
      outcome (evaluate depth second env) ∧
    ∀ name,
      (remains (evaluate depth second (remains (evaluate depth first env)))).find? name =
        (remains (evaluate depth first (remains (evaluate depth second env)))).find? name := by
  obtain ⟨madeFirst, leftFirst, firstBehind⟩ := evaluate_behind depth env apartSecond
  obtain ⟨madeSecond, leftSecond, secondBehind⟩ := evaluate_behind depth env apartFirst
  refine ⟨?_, ?_, ?_⟩
  · rw [firstBehind, outcome_leaving]
  · rw [secondBehind, outcome_leaving]
  · intro name
    -- the tree that does not assign to the name leaves what the other one makes of it
    by_cases target : name ∈ second.targets
    · have other : name ∉ first.targets := fun here => apartFirst name here (.inr target)
      rw [find?_remains depth _ other, secondBehind, remains_leaving, leftSecond]
      exact OrderedMap.find?_insertAll_congr (find?_remains depth env other) madeSecond
    · rw [find?_remains depth _ target, firstBehind, remains_leaving, leftFirst]
      exact (OrderedMap.find?_insertAll_congr (find?_remains depth env target) madeFirst).symm

/-- The second tree fails behind an assignment of its own.  Only the order of the new names tells
which tree came first. -/
theorem evaluate_comm_failing_second :
    ∃ first second env, parse 20 "x = n * 2".toList = .ok first ∧
      parse 20 "(y = n) + z".toList = .ok second ∧
      (∀ name ∈ first.targets, ¬ second.Mentions name) ∧
      (∀ name ∈ second.targets, ¬ first.Mentions name) ∧
      outcome (evaluate 20 second (remains (evaluate 20 first env))) =
        .error (.diagnosed (.undefinedVariable "z".toList)) ∧
      outcome (evaluate 20 first (remains (evaluate 20 second env))) = .ok (.int 8) ∧
      (∀ name, (remains (evaluate 20 second (remains (evaluate 20 first env)))).find? name =
        (remains (evaluate 20 first (remains (evaluate 20 second env)))).find? name) ∧
      (remains (evaluate 20 second (remains (evaluate 20 first env)))).keys =
        ["n".toList, "x".toList, "y".toList] ∧
      (remains (evaluate 20 first (remains (evaluate 20 second env)))).keys =
        ["n".toList, "y".toList, "x".toList] := by
  have parsedFirst : parse 20 "x = n * 2".toList =
      .ok (.assignment (.reference "x".toList)
        (.binary (.symbol .star) (.reference "n".toList) (.literal (.int 2)))) := by cbv
  have parsedSecond : parse 20 "(y = n) + z".toList =
      .ok (.binary (.symbol .plus)
        (.assignment (.reference "y".toList) (.reference "n".toList))
        (.reference "z".toList)) := by cbv
  refine ⟨_, _, ⟨[("n".toList, .int 4)]⟩, parsedFirst, parsedSecond, ?_⟩
  generalize firstTree : Tree.assignment _ _ = first
  generalize secondTree : Tree.binary (.symbol .plus) _ _ = second
  have apartFirst : ∀ name ∈ first.targets, ¬ second.Mentions name := by
    subst firstTree secondTree
    simp [targets, assignments, nodes, assigned?, name?, Mentions, reads]
  have apartSecond : ∀ name ∈ second.targets, ¬ first.Mentions name := by
    subst firstTree secondTree
    simp [targets, assignments, nodes, assigned?, name?, Mentions, reads]
  obtain ⟨same, again, values⟩ :=
    evaluate_comm 20 first second ⟨[("n".toList, .int 4)]⟩ apartFirst apartSecond
  refine ⟨apartFirst, apartSecond, ?_, ?_, values, ?_, ?_⟩
  · rw [again, ← secondTree]
    rfl
  · rw [← same, ← firstTree]
    rfl
  · rw [← firstTree, ← secondTree]
    rfl
  · rw [← firstTree, ← secondTree]
    rfl

end Tree
end Abacus
