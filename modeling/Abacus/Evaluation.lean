/- # Evaluation

Variables are kept in an environment, in the order of their first assignment.  Operands are
evaluated left to right, which shows because an assignment may stand inside an expression.  An
assignment that was made stays made when a later part of the expression fails. -/
import Abacus.Grammar
import Abacus.Number.Arithmetic
import Abacus.OrderedMap

namespace Abacus
set_option autoImplicit false

abbrev Environment := OrderedMap Text Number

namespace Tree

abbrev Evaluation := EStateM Failure Environment

def lookUp (name : Text) : Evaluation Number := fun env =>
  match env.find? name with
  | some value => .ok value env
  | none => .error (.diagnosed (.undefinedVariable name)) env

/-- Assigns a value to a target and hands the value on. -/
def assign (target : Tree) (value : Number) : Evaluation Number := fun env =>
  match targetName target with
  | .ok name => .ok value (env.insert name value)
  | .error e => .error e env

def apply (operator : Token.Kind) (x y : Number) : Except Failure Number :=
  match operator with
  | .symbol .plus => x.add y
  | .symbol .minus => x.sub y
  | .symbol .star => x.mul y
  | .symbol .slash => x.div y
  | _ => .error (.internal (.malformed (.noOperation operator)))

/-- The value of a tree.  Every unary operator but the minus sign leaves its operand alone. -/
def evaluate : Nat → Tree → Evaluation Number
  | 0, _ => throw .tooDeep
  | _ + 1, literal value => pure value
  | _ + 1, reference name => lookUp name
  | depth + 1, unary operator operand => do
    let value ← evaluate depth operand
    return if operator = .symbol .minus then value.neg else value
  | depth + 1, binary operator left right => do
    let x ← evaluate depth left
    let y ← evaluate depth right
    match apply operator x y with
    | .ok value => return value
    | .error e => throw e
  | depth + 1, assignment target value => do
    let x ← evaluate depth value
    assign target x
  | _ + 1, stray s => throw (.internal (.malformed (.notEvaluable s.sort)))

def interpret (depth : Nat) (text : Text) : Evaluation Number :=
  match parse depth text with
  | .ok tree => evaluate depth tree
  | .error e => throw e

end Tree
end Abacus
