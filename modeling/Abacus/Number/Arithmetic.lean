/- # Arithmetic

Sums, differences and products of whole numbers are exact.  As soon as a double takes part, whole
numbers are rounded to doubles first.  A quotient of whole numbers stays whole if it is exact and
is otherwise the double nearest to it.  Division by zero of either kind is an error of the input;
a whole number or a quotient beyond all doubles is a fault. -/
import Abacus.Failure

namespace Abacus.Number
set_option autoImplicit false

def neg : Number → Number
  | .int i => .int (-i)
  | .float x => .float x.neg

/-- Whether a number is zero; a double may have either sign. -/
def isZero : Number → Bool
  | .int i => i == 0
  | .float x => x.isZero

/-- A double, unless it is infinite. -/
def within (fault : Fault) : Double → Except Failure Double
  | .infinite _ => .error (.internal fault)
  | x => .ok x

def toDouble : Number → Except Failure Double
  | .float x => .ok x
  | .int i => within .integerTooLarge (Double.ofInt i)

/-- Combines two numbers: whole ones by `whole`, others as doubles by `double`. -/
def combine (whole : Int → Int → Int) (double : Double → Double → Double) :
    Number → Number → Except Failure Number
  | .int i, .int j => .ok (.int (whole i j))
  | x, y =>
    match x.toDouble, y.toDouble with
    | .ok a, .ok b => .ok (.float (double a b))
    | .error e, _ => .error e
    | _, .error e => .error e

def add : Number → Number → Except Failure Number := combine (· + ·) Double.add

def sub : Number → Number → Except Failure Number := combine (· - ·) Double.sub

def mul : Number → Number → Except Failure Number := combine (· * ·) Double.mul

def divisionFailure (dividend : Number) : Failure :=
  match dividend.text? with
  | some t => .diagnosed (.divisionByZero dividend t)
  | none => .internal .textTooLong

/-- The quotient of two whole numbers, the second not zero. -/
def divInt (i j : Int) : Except Failure Number :=
  if i.fmod j = 0 then .ok (.int (i.fdiv j))
  else (within .quotientTooLarge (Double.ofQuotient i j)).map Number.float

def div (x y : Number) : Except Failure Number :=
  if y.isZero then .error x.divisionFailure
  else
    match x, y with
    | .int i, .int j => divInt i j
    | x, y =>
      match x.toDouble, y.toDouble with
      | .ok a, .ok b => .ok (.float (a.div b))
      | .error e, _ => .error e
      | _, .error e => .error e

end Abacus.Number
