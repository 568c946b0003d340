/- # The grammar

Six rules, loosest first:

    expression     ::= assignment
    assignment     ::= identifier "=" expression | additive
    additive       ::= multiplicative (("+" | "-") multiplicative)*
    multiplicative ::= unary (("*" | "/") unary)*
    unary          ::= ("+" | "-") unary | atom
    atom           ::= integer | identifier | "(" expression ")"

Chains of operators associate to the left and assignments to the right.  An identifier starts an
assignment exactly if the token behind it is "=".  A rule takes an allowance for the nesting of
rules; with enough of it a text is parsed or refused for what stands in it. -/
import Abacus.Cursor
import Abacus.Tree

namespace Abacus
set_option autoImplicit false

inductive Rule where
  | expression
  | assignment
  | additive
  | multiplicative
  | unary
  | atom
deriving DecidableEq

namespace Rule

/-- The operators of additive chains, and the signs. -/
def isSign (kind : Token.Kind) : Bool := kind == .symbol .plus || kind == .symbol .minus

/-- The operators of multiplicative chains. -/
def isScale (kind : Token.Kind) : Bool := kind == .symbol .star || kind == .symbol .slash

/-- Goes on with a chain of operators behind its first operands, which gave `tree`.  The allowance
counts operators. -/
def chain (isOperator : Token.Kind → Bool) (operand : Cursor.Action Tree) :
    Nat → Tree → Cursor.Action Tree
  | 0, tree => pure tree
  | allowance + 1, tree => do
    let kind := (← get).current.kind
    if isOperator kind then
      Cursor.advance
      let right ← operand
      chain isOperator operand allowance (.binary kind tree right)
    else return tree

/-- A chain of operators.  No chain has more operators than the text has characters. -/
def operators (isOperator : Token.Kind → Bool) (operand : Cursor.Action Tree) :
    Cursor.Action Tree := do
  let first ← operand
  chain isOperator operand ((← get).scanner.text.length + 1) first

def run : Nat → Rule → Cursor.Action Tree
  | 0, _ => throw .tooDeep
  | depth + 1, .expression => run depth .assignment
  | depth + 1, .assignment => do
    let current := (← get).current
    match current.lexeme with
    | .identifier name =>
      if (← Cursor.peek).kind = .symbol .assign then
        let _ ← Cursor.expect .identifier
        let _ ← Cursor.expect (.symbol .assign)
        let value ← run depth .expression
        return .assignment (.reference name) value
      else run depth .additive
    | _ => run depth .additive
  | depth + 1, .additive => operators isSign (run depth .multiplicative)
  | depth + 1, .multiplicative => operators isScale (run depth .unary)
  | depth + 1, .unary => do
    let kind := (← get).current.kind
    if isSign kind then
      Cursor.advance
      let operand ← run depth .unary
      return .unary kind operand
    else run depth .atom
  | depth + 1, .atom => do
    let current := (← get).current
    match current.lexeme with
    | .integer value =>
      Cursor.advance
      return .literal (.int value)
    | .identifier name =>
      Cursor.advance
      return .reference name
    | .symbol .openParen =>
      Cursor.advance
      let tree ← run depth .expression
      let _ ← Cursor.expect (.symbol .closeParen)
      return tree
    | _ => Cursor.reject

/-- Parses an expression that reaches up to the end of the text. -/
def whole (depth : Nat) : Cursor.Action Tree := do
  let tree ← run depth .expression
  if (← get).current.kind = .endOfText then return tree else Cursor.reject

end Rule

def Tree.parse (depth : Nat) (text : Text) : Except Failure Tree :=
  match Cursor.start text with
  | .error e => .error e
  | .ok c =>
    match Rule.whole depth c with
    | .ok tree _ => .ok tree
    | .error e _ => .error e

/-- An allowance that no nesting in a text uses up. -/
def Tree.ampleDepth (text : Text) : Nat := 6 * (text.length + 2)

end Abacus
