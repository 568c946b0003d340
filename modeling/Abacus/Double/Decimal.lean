/- # Decimal notation of doubles

A double is written with the fewest decimal digits that still single it out: the written number
rounds back to the double, no shorter one does, and of those with that many digits it is the
nearest.  The numbers that round to a magnitude reach from the middle between it and the rank
below to the middle between it and the rank above; the two middles belong to it exactly if its
rank is even.  Powers of ten from -4 to 15 are written out, all others by an exponent. -/
import Abacus.Text
import Abacus.Double

namespace Abacus.Double
set_option autoImplicit false

/-! ## The shortest decimal -/

/-- The exponent of the highest power of ten that is not above `u` units, for positive `u`.
Every positive magnitude is far above 10 ^ -400, so that the digits of its whole multiples of
that power can be counted. -/
def decimalExponent (u : Nat) : Int :=
  (Text.ofNat (u * Nat.pow 10 400 / unitsInOne)).length - 401

/-- The power 10 ^ p in half units, as a fraction. -/
def powerOfTen (p : Int) : Nat × Nat :=
  if 0 ≤ p then (Nat.pow 10 p.toNat * (2 * unitsInOne), 1)
  else (2 * unitsInOne, Nat.pow 10 (-p).toNat)

/-- The multiple of 10 ^ p that lies nearest to the magnitude of a rank among those that round to
this magnitude, if there is one.  Of two that are equally near it is the even one. -/
def nearestMultiple? (rank : Nat) (p : Int) : Option Nat :=
  let step := (powerOfTen p).1
  let value := 2 * units rank * (powerOfTen p).2
  let low := (units (rank - 1) + units rank) * (powerOfTen p).2
  let high := (units rank + units (rank + 1)) * (powerOfTen p).2
  let inside (x : Nat) : Bool :=
    if rank % 2 = 0 then low ≤ x && x ≤ high else low < x && x < high
  let below := value / step
  match inside (below * step), inside ((below + 1) * step) with
  | true, true => some (roundHalfEven value step)
  | true, false => some below
  | false, true => some (below + 1)
  | false, false => none

/-- The shortest decimal of a positive magnitude, as a whole number times a power of ten.
Seventeen digits always suffice. -/
def shortest (rank : Nat) : Nat × Int :=
  let top := decimalExponent (units rank)
  ((List.range 17).findSome? fun (more : Nat) =>
    (nearestMultiple? rank (top - more)).map fun d => (d, top - more)).getD (0, 0)

/-! ## Writing it -/

/-- Powers of ten from this one on are written out. -/
def leastPlain : Int := -4

/-- Powers of ten from this one on are written by an exponent. -/
def leastScientific : Int := 16

def exponentText (e : Int) : Text :=
  let digits := Text.ofNat e.natAbs
  (if e < 0 then '-' else '+') :: List.replicate (2 - digits.length) '0' ++ digits

/-- The number with the given decimal digits whose first digit stands for 10 ^ e. -/
def notate (digits : Text) (e : Int) : Text :=
  if e < leastPlain || leastScientific ≤ e then
    digits.take 1 ++ (if digits.length ≤ 1 then [] else '.' :: digits.drop 1) ++
      'e' :: exponentText e
  else if e < 0 then
    "0.".toList ++ Text.copies (-e - 1) '0' ++ digits
  else
    let whole := e.toNat + 1
    digits.take whole ++ List.replicate (whole - digits.length) '0' ++ '.' ::
      (if digits.length ≤ whole then ['0'] else digits.drop whole)

def magnitudeText (rank : Nat) : Text :=
  let decimal := shortest rank
  let digits := Text.ofNat decimal.1
  notate (digits.reverse.dropWhile (· == '0')).reverse (decimal.2 + (digits.length - 1 : Nat))

def text : Double → Text
  | .nan => "nan".toList
  | .infinite negative => (if negative then ['-'] else []) ++ "inf".toList
  | .finite negative rank _ =>
    (if negative then ['-'] else []) ++
      (if rank = 0 then "0.0".toList else magnitudeText rank)

end Abacus.Double
