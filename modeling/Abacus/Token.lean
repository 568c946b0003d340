/- # Tokens

The words of the language: integers without sign, identifiers, seven symbols and the end of the
text.  A token is a lexeme with its span in the source; its kind is what grammar rules ask for. -/
import Abacus.Text

namespace Abacus
set_option autoImplicit false

inductive Symbol where
  | plus
  | minus
  | star
  | slash
  | assign
  | openParen
  | closeParen
deriving DecidableEq

namespace Symbol

def char : Symbol → Char
  | plus => '+'
  | minus => '-'
  | star => '*'
  | slash => '/'
  | assign => '='
  | openParen => '('
  | closeParen => ')'

def ofChar? : Char → Option Symbol
  | '+' => some plus
  | '-' => some minus
  | '*' => some star
  | '/' => some slash
  | '=' => some assign
  | '(' => some openParen
  | ')' => some closeParen
  | _ => none

/-- The name of a symbol in token listings. -/
def name : Symbol → Text
  | plus => "PLUS".toList
  | minus => "MINUS".toList
  | star => "STAR".toList
  | slash => "SLASH".toList
  | assign => "ASSIGN".toList
  | openParen => "LPAREN".toList
  | closeParen => "RPAREN".toList

end Symbol

namespace Token

/-- What a token is, its value and place left out. -/
inductive Kind where
  | integer
  | identifier
  | symbol (s : Symbol)
  | endOfText
deriving DecidableEq

def Kind.name : Kind → Text
  | .integer => "INTEGER".toList
  | .identifier => "IDENTIFIER".toList
  | .symbol s => s.name
  | .endOfText => "EOF".toList

/-- A token without its place. -/
inductive Lexeme where
  | integer (value : Nat)
  | identifier (name : Text)
  | symbol (s : Symbol)
  | endOfText
deriving DecidableEq

namespace Lexeme

def kind : Lexeme → Kind
  | integer _ => .integer
  | identifier _ => .identifier
  | symbol s => .symbol s
  | endOfText => .endOfText

def valueText : Lexeme → Text
  | integer value => Text.ofNat value
  | identifier name => Text.inQuotes name
  | symbol s => Text.inQuotes [s.char]
  | endOfText => "None".toList

/-- A lexeme as token listings show it. -/
def text (l : Lexeme) : Text :=
  "Token(".toList ++ l.kind.name ++ ", ".toList ++ l.valueText ++ ")".toList

end Lexeme
end Token

/-- A lexeme at the characters from `start` up to `stop`. -/
structure Token where
  lexeme : Token.Lexeme
  start : Nat
  stop : Nat
deriving DecidableEq

namespace Token

def kind (t : Token) : Kind := t.lexeme.kind

def listing (tokens : List Token) : Text :=
  Text.join [' '] (tokens.map fun t => t.lexeme.text)

end Token
end Abacus
