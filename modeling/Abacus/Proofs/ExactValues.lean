/- # Exact values

`Tree.reckon` evaluates a tree over the rational numbers, without any rounding: it has no result if
a name without a value is read or a divisor is zero, and it keeps a list of the quotients that it
forms.

Evaluation departs from it as soon as a quotient is not whole, for then it goes on with a double,
and from a double there is no way back to a whole number (`Tree.int_operands`).  So if all variables
are whole numbers at the start, a tree that fits into the allowance evaluates to a whole number
exactly if reckoning forms whole quotients only.  Then it is the exact value, and so are the values
of all variables in the end.  This is the main result, `Tree.evaluate_int_iff`.  A tree that does
not fit has no value, even if reckoning it is easy (`Tree.evaluate_long_sum`). -/
import Abacus.Proofs.LongSums
import Abacus.Session

namespace Abacus
set_option autoImplicit false

namespace OrderedMap

variable {κ ν μ : Type} [DecidableEq κ]

omit [DecidableEq κ] in
def map (f : ν → μ) (m : OrderedMap κ ν) : OrderedMap κ μ :=
  ⟨m.entries.map fun entry => (entry.1, f entry.2)⟩

theorem find?_map (f : ν → μ) (m : OrderedMap κ ν) (key : κ) :
    (m.map f).find? key = (m.find? key).map f := by
  simp [find?, map, List.find?_map, Function.comp_def]

theorem insert_map (f : ν → μ) (m : OrderedMap κ ν) (key : κ) (value : ν) :
    (m.map f).insert key (f value) = (m.insert key value).map f := by
  obtain ⟨entries⟩ := m
  induction entries with
  | nil => rfl
  | cons entry rest ih =>
      simp only [insert, map, mk.injEq] at ih
      simp only [insert, map, List.map_cons, put]
      split
      · rfl
      · rw [ih, List.map_cons]

end OrderedMap

namespace Tree

/-! ## Reckoning -/

structure Reckoning where
  value : ℚ
  /-- The variables that are left. -/
  after : OrderedMap Text ℚ
  /-- All quotients that were formed, in their order. -/
  quotients : List ℚ

def operate (operator : Token.Kind) (a b : ℚ) : Option ℚ :=
  match operator with
  | .symbol .plus => some (a + b)
  | .symbol .minus => some (a - b)
  | .symbol .star => some (a * b)
  | .symbol .slash => if b = 0 then none else some (a / b)
  | _ => none

/-- Evaluates a tree exactly, from left to right.  Nothing comes of reading a name without a value,
of dividing by zero, and of what is no expression over whole numbers. -/
def reckon : Tree → OrderedMap Text ℚ → Option Reckoning
  | literal (.int i), env => some ⟨i, env, []⟩
  | literal (.float _), _ => none
  | reference name, env => do
    let value ← env.find? name
    return ⟨value, env, []⟩
  | unary operator operand, env => do
    let x ← operand.reckon env
    return { x with value := if operator = .symbol .minus then -x.value else x.value }
  | binary operator left right, env => do
    let x ← left.reckon env
    let y ← right.reckon x.after
    let value ← operate operator x.value y.value
    let formed := if operator = .symbol .slash then [value] else []
    return ⟨value, y.after, x.quotients ++ y.quotients ++ formed⟩
  | assignment target value, env => do
    let x ← value.reckon env
    let name ← target.name?
    return { x with after := x.after.insert name x.value }
  | stray _, _ => none

/-! ## Operators -/

theorem combine_int {whole : Int → Int → Int} {double : Double → Double → Double} {x y : Number}
    {v : Int} (combined : Number.combine whole double x y = .ok (.int v)) :
    ∃ i j, x = .int i ∧ y = .int j := by
  unfold Number.combine at combined
  split at combined
  · exact ⟨_, _, rfl, rfl⟩
  · split at combined <;> cases combined

theorem div_int {x y : Number} {v : Int} (divided : x.div y = .ok (.int v)) :
    ∃ i j, x = .int i ∧ y = .int j := by
  unfold Number.div at divided
  split at divided
  · cases divided
  · split at divided
    · exact ⟨_, _, rfl, rfl⟩
    · split at divided <;> cases divided

/-- A whole number is a result of whole numbers only. -/
theorem int_operands {operator : Token.Kind} {x y : Number} {v : Int}
    (applied : apply operator x y = .ok (.int v)) : ∃ i j, x = .int i ∧ y = .int j := by
  unfold apply at applied
  split at applied
  · exact combine_int applied
  · exact combine_int applied
  · exact combine_int applied
  · exact div_int applied
  · cases applied

/-- A quotient of whole numbers stays whole exactly if it is whole, whatever the signs are. -/
theorem div_int_iff {i j v : Int} :
    (Number.int i).div (.int j) = .ok (.int v) ↔ j ≠ 0 ∧ (i : ℚ) / j = v := by
  by_cases zero : j = 0
  · simp [Number.div, Number.isZero, zero]
  have nonzero : (j : ℚ) ≠ 0 := Int.cast_ne_zero.mpr zero
  have division : (Number.int i).div (.int j) = Number.divInt i j := by
    simp [Number.div, Number.isZero, zero]
  have product : (i : ℚ) / j = v ↔ i = v * j := by
    rw [div_eq_iff nonzero]
    norm_cast
  rw [division, Number.divInt, product]
  split
  · rename_i divides
    have cancels := Int.fdiv_mul_cancel_of_fmod_eq_zero divides
    constructor
    · intro same
      cases same
      exact ⟨zero, cancels.symm⟩
    · rintro ⟨-, same⟩
      rw [same, Int.mul_fdiv_cancel _ zero]
  · rename_i inexact
    constructor
    · intro rounded
      cases result : Number.within .quotientTooLarge (Double.ofQuotient i j) <;>
        rw [result] at rounded <;> cases rounded
    · rintro ⟨-, same⟩
      exact absurd (Int.fmod_eq_zero_of_dvd ⟨v, by rw [same, mul_comm]⟩) inexact

theorem apply_int_iff {operator : Token.Kind} {i j v : Int} :
    apply operator (.int i) (.int j) = .ok (.int v) ↔ operate operator i j = some (v : ℚ) := by
  unfold apply operate
  split
  · simp only [Number.add, Number.combine, Except.ok.injEq, Number.int.injEq, Option.some.injEq]
    norm_cast
  · simp only [Number.sub, Number.combine, Except.ok.injEq, Number.int.injEq, Option.some.injEq]
    norm_cast
  · simp only [Number.mul, Number.combine, Except.ok.injEq, Number.int.injEq, Option.some.injEq]
    norm_cast
  · rw [div_int_iff]
    by_cases zero : j = 0 <;> simp [zero]
  · simp

theorem signed_int (operator : Token.Kind) (i : Int) :
    signed operator (.int i) = .int (if operator = .symbol .minus then -i else i) := by
  unfold signed
  split <;> rfl

theorem int_operand {operator : Token.Kind} {x : Number} {v : Int}
    (sign : signed operator x = .int v) : ∃ i, x = .int i := by
  cases x with
  | int i => exact ⟨i, rfl⟩
  | float d =>
      unfold signed at sign
      split at sign <;> cases sign

/-! ## Whole quotients -/

def Whole (quotients : List ℚ) : Prop := ∀ q ∈ quotients, ∃ n : Int, q = n

theorem whole_append {u v : List ℚ} : Whole (u ++ v) ↔ Whole u ∧ Whole v := by
  simp only [Whole, List.mem_append, or_imp, forall_and]

/-- What an operator makes of whole numbers is whole, unless it is a quotient. -/
theorem whole_formed {operator : Token.Kind} {i j : Int} {q : ℚ}
    (operated : operate operator i j = some q) :
    Whole (if operator = .symbol .slash then [q] else []) ↔ ∃ v : Int, q = v := by
  unfold operate at operated
  split at operated
  · simpa [Whole] using ⟨i + j, by simpa using operated.symm⟩
  · simpa [Whole] using ⟨i - j, by simpa using operated.symm⟩
  · simpa [Whole] using ⟨i * j, by simpa using operated.symm⟩
  · simp [Whole]
  · cases operated

/-! ## Evaluation against reckoning -/

/-- If evaluation gives a whole number, reckoning gives the same. -/
theorem Yields.reckon_eq {depth : Nat} {t : Tree} {env : Environment}
    {r : EStateM.Result Failure Environment Number} (yields : Yields depth t env r)
    {ints : OrderedMap Text Int} {v : Int} {after : Environment} (start : env = ints.map .int)
    (ok : r = .ok (.int v) after) :
    ∃ (later : OrderedMap Text Int) (quotients : List ℚ),
      after = later.map .int ∧ Whole quotients ∧
      t.reckon (ints.map Int.cast) = some ⟨v, later.map Int.cast, quotients⟩ := by
  induction yields generalizing ints v after with
  | literal =>
      cases ok
      exact ⟨ints, [], start, nofun, rfl⟩
  | found bound =>
      cases ok
      subst start
      rw [OrderedMap.find?_map] at bound
      obtain ⟨i, found, same⟩ := Option.map_eq_some_iff.mp bound
      cases same
      refine ⟨ints, [], rfl, nofun, ?_⟩
      simp [reckon, OrderedMap.find?_map, found]
  | unary _ ih =>
      obtain ⟨sign, rfl⟩ : _ ∧ _ := by simpa using ok
      obtain ⟨i, rfl⟩ := int_operand sign
      rw [signed_int] at sign
      cases sign
      obtain ⟨later, quotients, left, whole, reckoned⟩ := ih start rfl
      refine ⟨later, quotients, left, whole, ?_⟩
      simp [reckon, reckoned]
  | @binary _ operator _ _ _ _ _ _ _ _ _ _ applied ihFirst ihSecond =>
      cases ok
      -- Both operands are whole, or else the result would be a double.
      obtain ⟨i, j, rfl, rfl⟩ := int_operands applied
      obtain ⟨between, formed, middle, wholeFirst, first⟩ := ihFirst start rfl
      obtain ⟨later, others, left, wholeSecond, second⟩ := ihSecond middle rfl
      have operated := apply_int_iff.mp applied
      refine ⟨later, formed ++ others ++ if operator = .symbol .slash then [(v : ℚ)] else [], left,
        ?_, ?_⟩
      · rw [whole_append, whole_append, whole_formed operated]
        exact ⟨⟨wholeFirst, wholeSecond⟩, v, rfl⟩
      · simp [reckon, first, second, operated]
  | assignment _ named ih =>
      cases ok
      obtain ⟨later, quotients, rfl, whole, reckoned⟩ := ih start rfl
      refine ⟨later.insert _ v, quotients, OrderedMap.insert_map _ _ _ _, whole, ?_⟩
      simp [reckon, reckoned, named, ← OrderedMap.insert_map]
  | _ => cases ok

/-- If reckoning forms whole quotients only, evaluation gives a whole number. -/
theorem yields_of_reckon {depth : Nat} {t : Tree} {ints : OrderedMap Text Int} {x : Reckoning}
    (fits : t.height ≤ depth) (reckoned : t.reckon (ints.map Int.cast) = some x)
    (whole : Whole x.quotients) :
    ∃ (v : Int) (later : OrderedMap Text Int),
      Yields depth t (ints.map .int) (.ok (.int v) (later.map .int)) ∧
      x.value = v ∧ x.after = later.map Int.cast := by
  induction depth generalizing t ints x with
  | zero => exact absurd fits (Nat.not_le.mpr t.height_pos)
  | succ depth ih =>
      cases t with
      | literal value =>
          cases value with
          | int i =>
              cases reckoned
              exact ⟨i, ints, .literal, rfl, rfl⟩
          | float d => cases reckoned
      | reference name =>
          simp only [reckon, OrderedMap.find?_map, Option.bind_eq_bind, Option.bind_eq_some_iff,
            Option.map_eq_some_iff] at reckoned
          obtain ⟨_, ⟨i, bound, rfl⟩, same⟩ := reckoned
          cases same
          exact ⟨i, ints, .found (by rw [OrderedMap.find?_map, bound]; rfl), rfl, rfl⟩
      | unary operator operand =>
          simp only [reckon, Option.bind_eq_bind, Option.bind_eq_some_iff] at reckoned
          obtain ⟨y, inner, same⟩ := reckoned
          cases same
          obtain ⟨i, later, yields, value, left⟩ := ih (Nat.le_of_succ_le_succ fits) inner whole
          refine ⟨if operator = .symbol .minus then -i else i, later, ?_, ?_, left⟩
          · rw [← signed_int]
            exact .unary yields
          · simp [value]
      | binary operator left right =>
          simp only [reckon, Option.bind_eq_bind, Option.bind_eq_some_iff] at reckoned
          obtain ⟨y, first, z, second, q, operated, same⟩ := reckoned
          cases same
          obtain ⟨fitsLeft, fitsRight⟩ := Nat.max_le.mp (Nat.le_of_succ_le_succ fits)
          rw [whole_append, whole_append] at whole
          obtain ⟨⟨wholeFirst, wholeSecond⟩, wholeFormed⟩ := whole
          obtain ⟨i, between, yieldsFirst, valueFirst, middle⟩ := ih fitsLeft first wholeFirst
          rw [middle] at second
          obtain ⟨j, later, yieldsSecond, valueSecond, left⟩ := ih fitsRight second wholeSecond
          rw [valueFirst, valueSecond] at operated
          obtain ⟨v, rfl⟩ := (whole_formed operated).mp wholeFormed
          exact ⟨v, later, .binary yieldsFirst yieldsSecond (apply_int_iff.mpr operated), rfl, left⟩
      | assignment target value =>
          simp only [reckon, Option.bind_eq_bind, Option.bind_eq_some_iff] at reckoned
          obtain ⟨y, inner, name, named, same⟩ := reckoned
          cases same
          obtain ⟨i, later, yields, value, left⟩ := ih (Nat.le_of_succ_le_succ fits) inner whole
          refine ⟨i, later.insert name i, ?_, value, ?_⟩
          · rw [← OrderedMap.insert_map]
            exact .assignment yields named
          · rw [value, left, OrderedMap.insert_map]
      | stray s => cases reckoned

/-- Starting from whole numbers, the value of a tree is a whole number exactly if the tree fits into
the allowance and reckoning it reads no name without a value, divides by no zero and forms whole
quotients only.  Then it is the exact value, and all variables in the end are whole numbers and have
their exact values. -/
theorem evaluate_int_iff (depth : Nat) (t : Tree) (ints : OrderedMap Text Int) :
    ((∃ (v : Int) (after : Environment),
        evaluate depth t (ints.map .int) = .ok (.int v) after) ↔
      t.height ≤ depth ∧
        ∃ x : Reckoning, t.reckon (ints.map Int.cast) = some x ∧ Whole x.quotients) ∧
    ∀ (v : Int) (after : Environment), evaluate depth t (ints.map .int) = .ok (.int v) after →
      ∃ (x : Reckoning) (later : OrderedMap Text Int), t.reckon (ints.map Int.cast) = some x ∧
        x.value = v ∧ x.after = later.map Int.cast ∧ after = later.map .int := by
  refine ⟨⟨?_, ?_⟩, ?_⟩
  · rintro ⟨v, after, evaluated⟩
    have yields := yields_iff.mpr evaluated
    obtain ⟨later, quotients, -, whole, reckoned⟩ := yields.reckon_eq rfl rfl
    exact ⟨yields.height_le rfl, _, reckoned, whole⟩
  · rintro ⟨fits, x, reckoned, whole⟩
    obtain ⟨v, later, yields, -⟩ := yields_of_reckon fits reckoned whole
    exact ⟨v, later.map .int, yields.evaluate_eq⟩
  · intro v after evaluated
    obtain ⟨later, quotients, left, -, reckoned⟩ := (yields_iff.mpr evaluated).reckon_eq rfl rfl
    exact ⟨_, later, reckoned, rfl, rfl, left⟩

theorem reckon_plusOnes (n : Nat) {t : Tree} {env : OrderedMap Text ℚ} {x : Reckoning}
    (reckoned : t.reckon env = some x) :
    (plusOnes n t).reckon env = some { x with value := x.value + n } := by
  induction n generalizing t x with
  | zero => simp [plusOnes, reckoned]
  | succ n ih =>
      have more : (Tree.binary (.symbol .plus) t (.literal (.int 1))).reckon env =
          some { x with value := x.value + 1 } := by
        simp [reckon, reckoned, operate]
      rw [plusOnes, ih more]
      congr 2
      push_cast
      ring

/-- The height counts.  A sum of ones is whole, but the sum of 1601 ones is parsed and has no value,
because its tree is too high. -/
theorem evaluate_long_sum :
    ∃ t : Tree, parse nestingAllowance ('1' :: Text.plusOnes 1600) = .ok t ∧
      (∃ x : Reckoning, t.reckon (OrderedMap.map Int.cast .empty) = some x ∧ Whole x.quotients ∧
        x.value = 1601) ∧
      ¬ ∃ (v : Int) (after : Environment),
        evaluate nestingAllowance t (OrderedMap.map .int .empty) = .ok (.int v) after := by
  refine ⟨_, parse_plusOnes 974 1600, ⟨_, reckon_plusOnes 1600 rfl, nofun, by norm_num⟩, ?_⟩
  rintro ⟨v, after, evaluated⟩
  exact evaluate_plusOnes_ne_ok (by decide) _ _ _ _ evaluated

end Tree
end Abacus
