/- # Numbers

A value is a whole number of any size or a double.  A whole number has a text only up to a fixed
count of digits; a double always has one. -/
import Abacus.Double.Decimal

namespace Abacus
set_option autoImplicit false

inductive Number where
  | int (value : Int)
  | float (value : Double)
deriving DecidableEq

/-- The largest count of digits that is read or written as a decimal numeral. -/
def maxDigits : Nat := 4300

namespace Number

/-- Whether a whole number can be written: its sign apart it has at most `maxDigits` digits. -/
def writable (i : Int) : Bool := i.natAbs < Nat.pow 10 maxDigits

def text? : Number → Option Text
  | .int i => if writable i then some (Text.ofInt i) else none
  | .float x => some x.text

end Number
end Abacus
