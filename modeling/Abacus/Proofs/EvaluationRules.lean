/- # The rules of evaluation

`Tree.Yields depth t env r` says by rules that evaluating the tree `t` with the variables `env` ends
in `r`.  There is a rule for every way in which a node can end, failures included, and each failure
stands with the variables that it leaves.  The rules say the same as evaluation
(`Tree.yields_iff`), so that a fact about all evaluations is proved by induction on them.

An evaluation that does not fail by its depth ends in the same way with any larger allowance
(`Tree.Yields.mono`), and one that has a value has passed through the whole height of the tree
(`Tree.Yields.height_le`). -/
import Abacus.Proofs.WellFormed

namespace Abacus
set_option autoImplicit false

namespace Tree

def signed (operator : Token.Kind) (value : Number) : Number :=
  if operator = .symbol .minus then value.neg else value

/-- What evaluating a tree comes to. -/
inductive Yields :
    Nat → Tree → Environment → EStateM.Result Failure Environment Number → Prop
  | tooDeep {t : Tree} {env : Environment} : Yields 0 t env (.error .tooDeep env)
  | literal {depth : Nat} {value : Number} {env : Environment} :
      Yields (depth + 1) (.literal value) env (.ok value env)
  | found {depth : Nat} {name : Text} {value : Number} {env : Environment}
      (bound : env.find? name = some value) :
      Yields (depth + 1) (.reference name) env (.ok value env)
  | missing {depth : Nat} {name : Text} {env : Environment} (unbound : env.find? name = none) :
      Yields (depth + 1) (.reference name) env (.error (.diagnosed (.undefinedVariable name)) env)
  | unary {depth : Nat} {operator : Token.Kind} {operand : Tree} {x : Number}
      {env after : Environment} (inner : Yields depth operand env (.ok x after)) :
      Yields (depth + 1) (.unary operator operand) env (.ok (signed operator x) after)
  | unaryFails {depth : Nat} {operator : Token.Kind} {operand : Tree} {e : Failure}
      {env after : Environment} (inner : Yields depth operand env (.error e after)) :
      Yields (depth + 1) (.unary operator operand) env (.error e after)
  | binary {depth : Nat} {operator : Token.Kind} {left right : Tree} {x y value : Number}
      {env middle after : Environment} (first : Yields depth left env (.ok x middle))
      (second : Yields depth right middle (.ok y after))
      (applied : apply operator x y = .ok value) :
      Yields (depth + 1) (.binary operator left right) env (.ok value after)
  | leftFails {depth : Nat} {operator : Token.Kind} {left right : Tree} {e : Failure}
      {env after : Environment} (first : Yields depth left env (.error e after)) :
      Yields (depth + 1) (.binary operator left right) env (.error e after)
  | rightFails {depth : Nat} {operator : Token.Kind} {left right : Tree} {x : Number} {e : Failure}
      {env middle after : Environment} (first : Yields depth left env (.ok x middle))
      (second : Yields depth right middle (.error e after)) :
      Yields (depth + 1) (.binary operator left right) env (.error e after)
  | barred {depth : Nat} {operator : Token.Kind} {left right : Tree} {x y : Number} {e : Failure}
      {env middle after : Environment} (first : Yields depth left env (.ok x middle))
      (second : Yields depth right middle (.ok y after)) (applied : apply operator x y = .error e) :
      Yields (depth + 1) (.binary operator left right) env (.error e after)
  | assignment {depth : Nat} {target value : Tree} {name : Text} {x : Number}
      {env after : Environment} (inner : Yields depth value env (.ok x after))
      (named : target.name? = some name) :
      Yields (depth + 1) (.assignment target value) env (.ok x (after.insert name x))
  | valueFails {depth : Nat} {target value : Tree} {e : Failure} {env after : Environment}
      (inner : Yields depth value env (.error e after)) :
      Yields (depth + 1) (.assignment target value) env (.error e after)
  | nameless {depth : Nat} {target value : Tree} {x : Number} {env after : Environment}
      (inner : Yields depth value env (.ok x after)) (unnamed : target.name? = none) :
      Yields (depth + 1) (.assignment target value) env
        (.error (.internal (.malformed (.noName target.sort))) after)
  | stray {depth : Nat} {s : Stray} {env : Environment} :
      Yields (depth + 1) (.stray s) env
        (.error (.internal (.malformed (.notEvaluable s.sort))) env)

theorem evaluate_yields (depth : Nat) (t : Tree) (env : Environment) :
    Yields depth t env (evaluate depth t env) := by
  induction depth generalizing t env with
  | zero => exact .tooDeep
  | succ depth ih =>
      cases t with
      | literal value => exact .literal
      | reference name =>
          rw [evaluate, lookUp]
          split
          · exact .found ‹_›
          · exact .missing ‹_›
      | unary operator operand =>
          have inner := ih operand env
          rw [evaluate, bind_apply]
          cases result : evaluate depth operand env with
          | ok x after => exact .unary (result ▸ inner)
          | error e after => exact .unaryFails (result ▸ inner)
      | binary operator left right =>
          have first := ih left env
          rw [evaluate, bind_apply]
          cases result : evaluate depth left env with
          | error e after => exact .leftFails (result ▸ first)
          | ok x middle =>
              rw [result] at first
              have second := ih right middle
              dsimp only
              rw [bind_apply]
              cases result : evaluate depth right middle with
              | error e after => exact .rightFails first (result ▸ second)
              | ok y after =>
                  rw [result] at second
                  dsimp only
                  cases applied : apply operator x y with
                  | ok value => exact .binary first second applied
                  | error e => exact .barred first second applied
      | assignment target value =>
          have inner := ih value env
          rw [evaluate, bind_apply]
          cases result : evaluate depth value env with
          | error e after => exact .valueFails (result ▸ inner)
          | ok x after =>
              rw [result] at inner
              dsimp only
              rw [assign, targetName]
              cases named : target.name? with
              | some name => exact .assignment inner named
              | none => exact .nameless inner named
      | stray s => exact .stray

/-- The rules leave evaluation no choice. -/
theorem Yields.evaluate_eq {depth : Nat} {t : Tree} {env : Environment}
    {r : EStateM.Result Failure Environment Number} (yields : Yields depth t env r) :
    evaluate depth t env = r := by
  induction yields with
  | tooDeep | literal | stray => rfl
  | found bound => rw [evaluate, lookUp, bound]
  | missing unbound => rw [evaluate, lookUp, unbound]
  | unary _ inner =>
      rw [evaluate, bind_apply, inner]
      rfl
  | unaryFails _ inner | leftFails _ inner | valueFails _ inner =>
      rw [evaluate, bind_apply, inner]
  | rightFails _ _ first second =>
      rw [evaluate, bind_apply, first]
      dsimp only
      rw [bind_apply, second]
  | binary _ _ applied first second | barred _ _ applied first second =>
      rw [evaluate, bind_apply, first]
      dsimp only
      rw [bind_apply, second]
      dsimp only
      rw [applied]
      rfl
  | assignment _ named inner =>
      rw [evaluate, bind_apply, inner]
      dsimp only
      rw [assign, targetName, named]
  | nameless _ unnamed inner =>
      rw [evaluate, bind_apply, inner]
      dsimp only
      rw [assign, targetName, unnamed]

theorem yields_iff {depth : Nat} {t : Tree} {env : Environment}
    {r : EStateM.Result Failure Environment Number} :
    Yields depth t env r ↔ evaluate depth t env = r :=
  ⟨Yields.evaluate_eq, fun same => same ▸ evaluate_yields depth t env⟩

/-! ## The allowance -/

theorem Yields.mono {depth : Nat} {t : Tree} {env : Environment}
    {r : EStateM.Result Failure Environment Number} (yields : Yields depth t env r)
    (shallow : ∀ after, r ≠ .error .tooDeep after) : Yields (depth + 1) t env r := by
  induction yields with
  | tooDeep => exact absurd rfl (shallow _)
  | literal => exact .literal
  | found bound => exact .found bound
  | missing unbound => exact .missing unbound
  | unary _ ih => exact .unary (ih nofun)
  | unaryFails _ ih => exact .unaryFails (ih (by simpa using shallow))
  | binary _ _ applied ihFirst ihSecond =>
      exact .binary (ihFirst nofun) (ihSecond nofun) applied
  | leftFails _ ih => exact .leftFails (ih (by simpa using shallow))
  | rightFails _ _ ihFirst ihSecond =>
      exact .rightFails (ihFirst nofun) (ihSecond (by simpa using shallow))
  | barred _ _ applied ihFirst ihSecond =>
      exact .barred (ihFirst nofun) (ihSecond nofun) applied
  | assignment _ named ih => exact .assignment (ih nofun) named
  | valueFails _ ih => exact .valueFails (ih (by simpa using shallow))
  | nameless _ unnamed ih => exact .nameless (ih nofun) unnamed
  | stray => exact .stray

/-- A tree that has a value was evaluated as a whole. -/
theorem Yields.height_le {depth : Nat} {t : Tree} {env : Environment}
    {r : EStateM.Result Failure Environment Number} (yields : Yields depth t env r) {value : Number}
    {after : Environment} (ok : r = .ok value after) : t.height ≤ depth := by
  induction yields generalizing value after with
  | literal | found => exact Nat.le_add_left 1 _
  | unary _ ih | assignment _ _ ih => exact Nat.succ_le_succ (ih rfl)
  | binary _ _ _ ihFirst ihSecond =>
      exact Nat.succ_le_succ (Nat.max_le.mpr ⟨ihFirst rfl, ihSecond rfl⟩)
  | _ => cases ok

end Tree
end Abacus
