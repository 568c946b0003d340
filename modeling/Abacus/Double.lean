/- # Double: binary64 numbers, exactly

A finite double is a sign and a *rank*: the place of its magnitude among all finite magnitudes in
increasing order, zero first.  Every magnitude is a whole multiple of the least positive one,
2 ^ -1074, and `units` says which.  An exact result is a fraction of such units, and one
operation, `ofUnits`, rounds it to the nearest magnitude; of two that are equally near it takes
the one of even rank, and beyond the largest finite magnitude it gives infinity.  Sums, products
and quotients are computed exactly first and rounded once. -/

namespace Abacus
set_option autoImplicit false

namespace Double

/-- How many finite magnitudes there are. -/
def rankCount : Nat := 2047 * Nat.pow 2 52

/-- How many units of 2 ^ -1074 make one. -/
def unitsInOne : Nat := Nat.pow 2 1074

end Double

/-- A binary64 number.  Zero has a sign; NaN has none. -/
inductive Double where
  | nan
  | infinite (negative : Bool)
  | finite (negative : Bool) (rank : Nat) (bounded : rank < Double.rankCount)
deriving DecidableEq

namespace Double

/-! ## Magnitudes -/

/-- The magnitude of a rank, in units of 2 ^ -1074: one unit from each rank to the next at first,
and twice as much after every 2 ^ 52 ranks from the second such stretch on. -/
def units (rank : Nat) : Nat :=
  if rank < Nat.pow 2 52 then rank
  else (Nat.pow 2 52 + rank % Nat.pow 2 52) * Nat.pow 2 (rank / Nat.pow 2 52 - 1)

/-- The whole number nearest to `n / d`; of two that are equally near, the even one. -/
def roundHalfEven (n d : Nat) : Nat :=
  let below := n / d
  let rest := 2 * (n % d)
  if rest < d || (rest == d && below % 2 == 0) then below else below + 1

/-- The rank of the magnitude nearest to `n / d` units, where ranks go on beyond the finite ones. -/
def nearestRank (n d : Nat) : Nat :=
  let doublings := (n / d).log2 - 52
  doublings * Nat.pow 2 52 + roundHalfEven n (d * Nat.pow 2 doublings)

/-- The double nearest to `n / d` units, with the given sign. -/
def ofUnits (negative : Bool) (n d : Nat) : Double :=
  let rank := nearestRank n d
  if bounded : rank < rankCount then .finite negative rank bounded else .infinite negative

def zero (negative : Bool) : Double := .finite negative 0 (by decide)

/-! ## Encoding -/

def ofBits (word : UInt64) : Double :=
  let bits := word.toNat
  let negative := decide (Nat.pow 2 63 ≤ bits)
  let rank := bits % Nat.pow 2 63
  if bounded : rank < rankCount then .finite negative rank bounded
  else if rank = rankCount then .infinite negative
  else .nan

/-! ## Whole numbers and their quotients -/

def ofInt (i : Int) : Double := ofUnits (decide (i < 0)) (i.natAbs * unitsInOne) 1

/-- The double nearest to the quotient of two whole numbers, the second not zero. -/
def ofQuotient (a b : Int) : Double :=
  ofUnits (decide (a < 0) != decide (b < 0)) (a.natAbs * unitsInOne) b.natAbs

/-! ## Arithmetic -/

/-- Whether a double is zero of either sign. -/
def isZero : Double → Bool
  | .finite _ rank _ => rank == 0
  | _ => false

/-- The opposite; NaN stays NaN. -/
def neg : Double → Double
  | .nan => .nan
  | .infinite negative => .infinite !negative
  | .finite negative rank bounded => .finite (!negative) rank bounded

def signedUnits (negative : Bool) (rank : Nat) : Int :=
  if negative then -(units rank : Int) else units rank

/-- The rounded sum.  A sum that is exactly zero is negative only if both terms are. -/
def add : Double → Double → Double
  | .nan, _ => .nan
  | _, .nan => .nan
  | .infinite s, .infinite t => if s = t then .infinite s else .nan
  | .infinite s, .finite .. => .infinite s
  | .finite .., .infinite t => .infinite t
  | .finite s m _, .finite t n _ =>
    let total := signedUnits s m + signedUnits t n
    ofUnits (if total = 0 then s && t else decide (total < 0)) total.natAbs 1

def sub (x y : Double) : Double := x.add y.neg

/-- The rounded product.  Zero times infinity is NaN. -/
def mul : Double → Double → Double
  | .nan, _ => .nan
  | _, .nan => .nan
  | .infinite s, .infinite t => .infinite (s != t)
  | .infinite s, .finite t n _ => if n = 0 then .nan else .infinite (s != t)
  | .finite s m _, .infinite t => if m = 0 then .nan else .infinite (s != t)
  | .finite s m _, .finite t n _ => ofUnits (s != t) (units m * units n) unitsInOne

/-- The rounded quotient.  Zero by zero and infinity by infinity are NaN; anything else by zero is
infinite. -/
def div : Double → Double → Double
  | .nan, _ => .nan
  | _, .nan => .nan
  | .infinite _, .infinite _ => .nan
  | .infinite s, .finite t _ _ => .infinite (s != t)
  | .finite s _ _, .infinite t => zero (s != t)
  | .finite s m _, .finite t n _ =>
    if n = 0 then (if m = 0 then .nan else .infinite (s != t))
    else ofUnits (s != t) (units m * unitsInOne) (units n)

end Double
end Abacus
