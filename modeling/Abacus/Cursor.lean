/- # The parser's cursor

A cursor holds the current token and, after a look ahead, the token behind it.  Tokens are read
only when they are asked for.  An operation that fails leaves the current token and the token
looked at as they were. -/
import Abacus.Failure
import Abacus.Scanner

namespace Abacus
set_option autoImplicit false

structure Cursor where
  scanner : Scanner
  current : Token
  /-- The token behind the current one, if it was looked at. -/
  peeked : Option Token := none
deriving DecidableEq

namespace Cursor

abbrev Action := EStateM Failure Cursor

/-- A cursor at the first token of a text. -/
def start (text : Text) : Except Failure Cursor :=
  match Scanner.next ⟨text, 0⟩ with
  | .ok token scanner => .ok { scanner, current := token }
  | .error d _ => .error (.diagnosed d)

/-- The failure of not expecting a token. -/
def rejection (c : Cursor) (token : Token) : Failure :=
  .diagnosed (.rejection c.scanner.text token)

def reject {α : Type} : Action α := fun c => .error (c.rejection c.current) c

def peek : Action Token := fun c =>
  match c.peeked with
  | some token => .ok token c
  | none =>
    match c.scanner.next with
    | .ok token scanner => .ok token { c with scanner, peeked := some token }
    | .error d scanner => .error (.diagnosed d) { c with scanner }

def advance : Action Unit := fun c =>
  match c.peeked with
  | some token => .ok () { c with current := token, peeked := none }
  | none =>
    match c.scanner.next with
    | .ok token scanner => .ok () { c with scanner, current := token }
    | .error d scanner => .error (.diagnosed d) { c with scanner }

/-- Takes the current token, which has to be of the given kind, and moves on. -/
def expect (kind : Token.Kind) : Action Token := fun c =>
  if c.current.kind = kind then
    match advance c with
    | .ok _ after => .ok c.current after
    | .error e after => .error e after
  else reject c

end Cursor
end Abacus
