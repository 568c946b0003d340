/- # Syntax trees

The trees that expressions stand for, how they are shown (`display`) and how they are written back
as a fully parenthesised expression (`unparse`).  The type also holds trees that no text stands
for: any kind of token may stand as an operator, any tree as the target of an assignment, and
things that are no nodes at all in the place of a node.  Showing, writing and evaluating say what
is wrong with such a tree.

Showing and writing take an allowance for the depth of the tree. -/
import Abacus.Failure
import Abacus.Text.Quoted

namespace Abacus
set_option autoImplicit false

/-- Something in the place of a node that is none. -/
inductive Stray where
  | text (t : Text)
  | integer (i : Int)
  | nothing
deriving DecidableEq

namespace Stray

def sort : Stray → Text
  | text _ => "str".toList
  | integer _ => "int".toList
  | nothing => "NoneType".toList

def shown : Stray → Except Failure Text
  | text t => .ok t.quoted
  | integer i => (Number.int i).text
  | nothing => .ok "None".toList

end Stray

inductive Tree where
  | literal (value : Number)
  | reference (name : Text)
  | unary (operator : Token.Kind) (operand : Tree)
  | binary (operator : Token.Kind) (left right : Tree)
  | assignment (target value : Tree)
  | stray (s : Stray)
deriving DecidableEq

namespace Tree

def sort : Tree → Text
  | literal _ => "NumberLiteral".toList
  | reference _ => "Variable".toList
  | unary .. => "UnaryOp".toList
  | binary .. => "BinaryOp".toList
  | assignment .. => "Assignment".toList
  | stray s => s.sort

def children : Tree → List Tree
  | unary _ operand => [operand]
  | binary _ left right => [left, right]
  | assignment target value => [target, value]
  | _ => []

/-- The name of a variable; no other tree has one. -/
def name? : Tree → Option Text
  | reference name => some name
  | _ => none

def targetName (target : Tree) : Except Failure Text :=
  match target.name? with
  | some name => .ok name
  | none => .error (.internal (.malformed (.noName target.sort)))

/-- The failure of using something that is no node as a node. -/
def strayFailure (s : Stray) : Failure :=
  match s.shown with
  | .ok shown => .internal (.malformed (.notNode shown))
  | .error e => e

def operatorChar (operator : Token.Kind) : Except Failure Char :=
  match operator with
  | .symbol .plus => .ok '+'
  | .symbol .minus => .ok '-'
  | .symbol .star => .ok '*'
  | .symbol .slash => .ok '/'
  | _ => .error (.internal (.malformed (.noOperation operator)))

/-! ## Showing -/

/-- What belongs to a node itself and not to its children. -/
def detail : Tree → Except Failure Text
  | literal value => value.text
  | reference name => .ok name
  | unary operator _ => (operatorChar operator).map fun c => Text.inQuotes [c]
  | binary operator _ _ => (operatorChar operator).map fun c => Text.inQuotes [c]
  | assignment _ _ => .ok []
  | stray s => .error (strayFailure s)

def margin (indent : Int) : Text := Text.copies (4 * indent) ' '

/-- A node with its shown children, each on lines of its own. -/
def block (indent : Int) (sort detail : Text) (shown : List Text) : Text :=
  let opening := margin indent ++ sort ++ "(".toList ++ detail
  if shown.isEmpty then opening ++ ")".toList
  else
    opening ++ (if detail.isEmpty then [] else ", ".toList) ++ "nodes=[".toList ++
      Text.join [','] (shown.map fun child => '\n' :: child) ++ '\n' :: margin indent ++
      "])".toList

/-- A tree over several lines, each child indented one step more than its parent. -/
def display : Nat → Int → Tree → Except Failure Text
  | 0, _, _ => .error .tooDeep
  | depth + 1, indent, tree =>
    match tree.detail with
    | .error e => .error e
    | .ok detail =>
      match tree.children.mapM (display depth (indent + 1)) with
      | .error e => .error e
      | .ok shown => .ok (block indent tree.sort detail shown)

/-! ## Writing -/

/-- An expression for a tree, with parentheses around every binary operation. -/
def unparse : Nat → Tree → Except Failure Text
  | 0, _ => .error .tooDeep
  | _ + 1, literal value => value.text
  | _ + 1, reference name => .ok name
  | depth + 1, unary operator operand => do
    let c ← operatorChar operator
    let x ← unparse depth operand
    return c :: x
  | depth + 1, binary operator left right => do
    let x ← unparse depth left
    let c ← operatorChar operator
    let y ← unparse depth right
    return "(".toList ++ x ++ [' ', c, ' '] ++ y ++ ")".toList
  | depth + 1, assignment target value => do
    let name ← targetName target
    let x ← unparse depth value
    return name ++ " = ".toList ++ x
  | _ + 1, stray s => .error (strayFailure s)

end Tree
end Abacus
