/- # The interactive shell

A line is a command if its first word names one, and otherwise an expression.  The words that take
no argument are commands only when they stand alone, and a name in front of "=" is never one, so
that every assignment can be typed.  A line with open parentheses waits for the next one. -/
import Abacus.Session

namespace Abacus
set_option autoImplicit false

/-- A session with the line that is being typed. -/
structure Shell where
  desk : Desk
  /-- The lines that wait for their parentheses to be closed. -/
  pending : Text := []
  /-- How many lines were typed. -/
  lineNumber : Nat := 0
  prompt : Text := "> ".toList

namespace Shell

/-! ## Reading a line -/

inductive Command where
  | vars
  | reset
  | tokens
  | ast
  | help
  | endOfInput
  | exit
deriving DecidableEq

def Command.name : Command → Text
  | .vars => "vars".toList
  | .reset => "reset".toList
  | .tokens => "tokens".toList
  | .ast => "ast".toList
  | .help => "help".toList
  | .endOfInput => "EOF".toList
  | .exit => "exit".toList

/-- Whether a command stands alone on its line. -/
def Command.bare : Command → Bool
  | .vars => true
  | .reset => true
  | .endOfInput => true
  | .exit => true
  | _ => false

def Command.all : List Command := [.vars, .reset, .tokens, .ast, .help, .endOfInput, .exit]

def Command.ofName? (name : Text) : Option Command := Command.all.find? fun c => c.name = name

inductive Request where
  | nothing
  | expression (line : Text)
  | command (c : Command) (argument : Text)
deriving DecidableEq

/-- The characters of the first word of a line. -/
def isWordChar (c : Char) : Bool := c.isAlphanum || c == '_'

/-- Reads a trimmed line as a command with its argument, if it is one. -/
def commandOf? (trimmed : Text) : Option (Command × Text) :=
  match Command.ofName? (trimmed.takeWhile isWordChar) with
  | some c => some (c, Text.trim (trimmed.dropWhile isWordChar))
  | none => none

/-- What a line asks for.  A question mark stands for help, and what follows an exclamation mark
is never a command. -/
def request (line : Text) : Request :=
  match line.trim with
  | [] => .nothing
  | '!' :: rest => .expression ('!' :: rest)
  | first :: rest =>
    let trimmed := if first = '?' then "help ".toList ++ rest else first :: rest
    let argument := Text.trim (trimmed.dropWhile isWordChar)
    if argument.head? = some '=' then .expression line
    else
      match commandOf? trimmed with
      | some (c, argument) =>
        if c.bare && !argument.isEmpty then .expression line else .command c argument
      | none => .expression trimmed

/-! ## Acting on it -/

abbrev Action := EStateM Failure Shell

inductive Reply where
  | stop
  | nothing
  | emptyLine
deriving DecidableEq

def onDesk (action : Desk.Action Unit) : Action Unit := fun s =>
  match action s.desk with
  | .ok _ desk => .ok () { s with desk }
  | .error e desk => .error e { s with desk }

def printLatest : Desk.Action Unit := do
  if (← get).session.results.isEmpty then pure ()
  else
    let value ← Desk.pop
    Desk.printNumber value

/-- Queues, evaluates and prints a logical line; failures are reported. -/
def evaluateLine (cfg : Settings) (text : Text) (number : Int) : Desk.Action Unit :=
  Desk.guarded do
    Desk.add cfg text number
    Desk.run cfg
    printLatest

/-- Takes a line of an expression.  It is joined to the lines that wait, and evaluated unless it
leaves parentheses open. -/
def expression (cfg : Settings) (line : Text) : Action Unit := do
  let s ← get
  let joined := if s.pending.isEmpty then line else s.pending ++ [' '] ++ line
  let text := Script.clean joined
  if Script.unclosed text then
    set { s with lineNumber := s.lineNumber + 1, pending := text, prompt := ". ".toList }
  else
    set { s with lineNumber := s.lineNumber + 1, pending := [], prompt := "> ".toList }
    if text.blank then pure ()
    else onDesk (evaluateLine cfg text (s.lineNumber + 1 : Nat))

def printVariables : List (Text × Number) → Desk.Action Unit
  | [] => pure ()
  | (name, value) :: rest => do
    let text ← MonadExcept.ofExcept value.text
    Desk.onConsole (·.print (name ++ " = ".toList ++ text))
    printVariables rest

def printTokens (text : Text) : Desk.Action Unit :=
  match Scanner.tokens? text with
  | .ok tokens => Desk.onConsole (·.print (Token.listing tokens))
  | .error d => throw (.diagnosed d)

def printTree (cfg : Settings) (text : Text) : Desk.Action Unit := do
  let tree ← MonadExcept.ofExcept (Tree.parse cfg.depth text)
  let shown ← MonadExcept.ofExcept (tree.display cfg.depth 0)
  Desk.onConsole (·.print shown)

def helpText : Text := ("Welcome to the acalc interpreter!\n\n" ++
  "Type an arithmetic expression using integers, + - * / and parentheses to \n" ++
  "evaluate it. Assign a value to a name with 'x = 5', then use it later on: \n" ++
  "'x * 2' gives 10.\n\n" ++
  "Commands: vars, reset, tokens EXPR, ast EXPR, exit.").toList

def command (cfg : Settings) (c : Command) (argument : Text) : Action Reply := do
  match c with
  | .vars =>
    onDesk (do printVariables (← get).session.environment.entries)
    return .nothing
  | .reset =>
    onDesk Desk.reset
    return .nothing
  | .tokens =>
    onDesk (Desk.guarded (printTokens argument))
    return .nothing
  | .ast =>
    onDesk (Desk.guarded (printTree cfg argument))
    return .nothing
  | .help =>
    onDesk (Desk.onConsole (·.print helpText))
    return .nothing
  | .endOfInput =>
    onDesk (Desk.onConsole (·.print []))
    return .stop
  | .exit => return .stop

def answer (cfg : Settings) (line : Text) : Action Reply :=
  match request line with
  | .nothing => pure .emptyLine
  | .expression text => do
    expression cfg text
    return .nothing
  | .command c argument => command cfg c argument

/-! ## A conversation -/

def greeting : Text := ("Arithmetic expression interpreter :: Python backend\n" ++
  "Type '?' or 'help' for more information.").toList

def ask : Action Unit := do
  let prompt := (← get).prompt
  onDesk (Desk.onConsole (·.write prompt))

/-- Answers lines until one of them stops the shell; the end of the lines does. -/
def converse (cfg : Settings) : List Text → Action Unit
  | [] => do
    ask
    let _ ← answer cfg Command.endOfInput.name
  | line :: rest => do
    ask
    match ← answer cfg line with
    | .stop => pure ()
    | _ => converse cfg rest

end Shell
end Abacus
