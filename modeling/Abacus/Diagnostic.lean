/- # Diagnostics

What the language itself has to complain about: a message, the source it is about, and the span
of the source that offends.  `caret` shows the source with the span painted and a caret line
underneath.  How paint comes out is not fixed here: where nothing can be coloured it does not. -/
import Abacus.Number
import Abacus.Token

namespace Abacus
set_option autoImplicit false

namespace Diagnostic

inductive Kind where
  | general
  | lexical
  | invalidSyntax
  | undefinedVariable (name : Text)
  | divisionByZero (dividend : Number)
deriving DecidableEq

end Diagnostic

/-- A complaint about a source text or its evaluation.  The span reaches from `start` up to
`stop`. -/
structure Diagnostic where
  kind : Diagnostic.Kind := .general
  message : Text
  source : Text := []
  start : Int := 0
  stop : Int := 0
  /-- Whether a report shows the source with a caret line. -/
  pointed : Bool := true
  /-- Whether the program rather than its input is at fault. -/
  internal : Bool := false
deriving DecidableEq

namespace Diagnostic

/-- A complaint about a span of a source.  A stop of -1 stands for the end of the source. -/
def about (kind : Kind) (message source : Text) (start stop : Int) (pointed internal : Bool) :
    Diagnostic where
  kind
  message
  source
  start
  stop := if stop = -1 then source.length else stop
  pointed
  internal

def plain (message : Text) : Diagnostic := { message }

/-- A complaint that is never shown with a caret line. -/
def bare (message : Text) : Diagnostic := { message, pointed := false }

/-- A diagnostic is of a kind and blames a span of a source, which a report shows. -/
structure Marks (d : Diagnostic) (kind : Kind) (source : Text) (start stop : Nat) : Prop where
  kind : d.kind = kind
  source : d.source = source
  start : d.start = start
  stop : d.stop = stop
  pointed : d.pointed
  outward : d.internal = false

/-! ## The complaints of the language -/

/-- Why a text has no next token. -/
inductive LexicalCause where
  | invalidCharacter (c : Char)
  | literalTooLong
deriving DecidableEq

def LexicalCause.text : LexicalCause → Text
  | .invalidCharacter c => "invalid character ".toList ++ Text.inQuotes [c]
  | .literalTooLong => "integer literal too long".toList

/-- A part of the source is no token. -/
def lexical (cause : LexicalCause) (source : Text) (start stop : Nat) : Diagnostic where
  kind := .lexical
  message := cause.text
  source
  start
  stop

@[simp] theorem lexical_message (cause : LexicalCause) (source : Text) (start stop : Nat) :
    (lexical cause source start stop).message = cause.text := rfl

theorem lexical_marks (cause : LexicalCause) (source : Text) (start stop : Nat) :
    (lexical cause source start stop).Marks .lexical source start stop :=
  ⟨rfl, rfl, rfl, rfl, rfl, rfl⟩

/-- A token does not fit the grammar.  The end of the text is shown as one blank after it. -/
def rejection (source : Text) (token : Token) : Diagnostic :=
  match token.kind with
  | .endOfText =>
    { kind := .invalidSyntax, message := "invalid syntax".toList, source := source ++ [' '],
      start := source.length, stop := source.length + 1 }
  | _ =>
    { kind := .invalidSyntax, message := "invalid syntax".toList, source,
      start := token.start, stop := token.stop }

theorem rejection_marks_end (source : Text) {token : Token} (ends : token.kind = .endOfText) :
    (rejection source token).Marks .invalidSyntax (source ++ [' ']) source.length
      (source.length + 1) := by
  rw [rejection, ends]
  exact ⟨rfl, rfl, rfl, rfl, rfl, rfl⟩

theorem rejection_marks_token (source : Text) {token : Token} (going : token.kind ≠ .endOfText) :
    (rejection source token).Marks .invalidSyntax source token.start token.stop := by
  unfold rejection
  split
  · rename_i ends
    exact absurd ends going
  · exact ⟨rfl, rfl, rfl, rfl, rfl, rfl⟩

def undefinedVariable (name : Text) : Diagnostic where
  kind := .undefinedVariable name
  message := Text.inQuotes name ++ " is not defined".toList
  pointed := false

/-- A number, which has the given text, is divided by zero. -/
def divisionByZero (dividend : Number) (text : Text) : Diagnostic where
  kind := .divisionByZero dividend
  message := "division by zero (".toList ++ text ++ " / 0)".toList
  pointed := false

@[simp] theorem undefinedVariable_kind (name : Text) :
    (undefinedVariable name).kind = .undefinedVariable name := rfl

@[simp] theorem undefinedVariable_internal (name : Text) :
    (undefinedVariable name).internal = false := rfl

@[simp] theorem divisionByZero_kind (dividend : Number) (text : Text) :
    (divisionByZero dividend text).kind = .divisionByZero dividend := rfl

@[simp] theorem divisionByZero_message (dividend : Number) (text : Text) :
    (divisionByZero dividend text).message =
      "division by zero (".toList ++ text ++ " / 0)".toList := rfl

@[simp] theorem divisionByZero_internal (dividend : Number) (text : Text) :
    (divisionByZero dividend text).internal = false := rfl

/-! ## The caret line -/

/-- The source with the offending span painted, over a caret line.  At least one character is
pointed at, and a span that starts behind the source is moved to its end. -/
def caret (d : Diagnostic) (paint : Text → Text := Text.boldRed) : Text :=
  let start := min d.start d.source.length
  let stop := max d.stop (start + 1)
  "  ".toList ++ d.source.before start ++ paint (d.source.slice start stop) ++
    (d.source.after stop).line ++
    "  ".toList ++ Text.copies start ' ' ++
    paint ('^' :: Text.copies (stop - start - 1) '~')

end Diagnostic
end Abacus
