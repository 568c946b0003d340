/- # Failures

All that can come out of an operation instead of a result.  A diagnostic blames the input.  A
fault blames the program: it is reported as internal and goes on to the caller.  The remaining
failures are nesting beyond the allowance, an interrupt, and the end of the program. -/
import Abacus.Diagnostic
import Abacus.Utf8

namespace Abacus
set_option autoImplicit false

/-- What a tree that no text stands for can be wrong in. -/
inductive Malformation where
  /-- Something that is no node is shown or written. -/
  | notNode (shown : Text)
  /-- Something that is no node is evaluated. -/
  | notEvaluable (sort : Text)
  /-- An operator has no symbol or operation. -/
  | noOperation (operator : Token.Kind)
  /-- The target of an assignment has no name. -/
  | noName (sort : Text)
deriving DecidableEq

/-- A failure that the input cannot be blamed for. -/
inductive Fault where
  /-- The quotient of two whole numbers is beyond all doubles. -/
  | quotientTooLarge
  /-- A whole number is beyond all doubles. -/
  | integerTooLarge
  /-- A whole number has too many digits to be written. -/
  | textTooLong
  /-- There is no result to take. -/
  | noResult
  /-- A path holds a null character. -/
  | nullInPath
  /-- A caret line is asked for where there is no source text. -/
  | noSource
  /-- A file is no UTF-8. -/
  | undecodable (flaw : Utf8.Flaw)
  /-- A tree is malformed. -/
  | malformed (m : Malformation)
  /-- A failure from outside, known by its title and message only. -/
  | foreign (title message : Text)
deriving DecidableEq

namespace Fault

def title : Fault → Text
  | quotientTooLarge => "OverflowError".toList
  | integerTooLarge => "OverflowError".toList
  | textTooLong => "ValueError".toList
  | noResult => "IndexError".toList
  | nullInPath => "ValueError".toList
  | noSource => "TypeError".toList
  | undecodable _ => "UnicodeDecodeError".toList
  | malformed (.notNode _) => "TypeError".toList
  | malformed (.notEvaluable _) => "TypeError".toList
  | malformed (.noOperation _) => "KeyError".toList
  | malformed (.noName _) => "AttributeError".toList
  | foreign title _ => title

def message : Fault → Text
  | quotientTooLarge => "integer division result too large for a float".toList
  | integerTooLarge => "int too large to convert to float".toList
  | textTooLong =>
    "Exceeds the limit (".toList ++ Text.ofNat maxDigits ++
      (" digits) for integer string conversion; " ++
      "use sys.set_int_max_str_digits() to increase the limit").toList
  | noResult => "pop from empty list".toList
  | nullInPath => "embedded null byte".toList
  | noSource => "can only concatenate str (not \"list\") to str".toList
  | undecodable flaw => flaw.text
  | malformed (.notNode shown) => "not an acalc syntax node: ".toList ++ shown
  | malformed (.notEvaluable sort) =>
    "cannot evaluate ".toList ++ sort ++ ": not an acalc syntax node".toList
  | malformed (.noOperation operator) =>
    "<TokenKind.".toList ++ operator.name ++ ": ".toList ++ Text.inQuotes operator.name ++
      ">".toList
  | malformed (.noName sort) => Text.inQuotes sort ++ " object has no attribute 'name'".toList
  | foreign _ message => message

end Fault

/-- What comes out of an operation instead of a result. -/
inductive Failure where
  | diagnosed (d : Diagnostic)
  | internal (f : Fault)
  | tooDeep
  | interrupted (message : Text)
  | exit (status : Text)
deriving DecidableEq

namespace Number

/-- The text of a number, or the fault that it is too long. -/
def text (x : Number) : Except Failure Text :=
  match x.text? with
  | some t => .ok t
  | none => .error (.internal .textTooLong)

end Number
end Abacus
