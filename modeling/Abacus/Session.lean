/- # Sessions

A session has a path, variables, a queue of parsed lines and the results of those evaluated.
`add` parses a line into the queue; `run` evaluates the queue in order.  An entry leaves the queue
as soon as it is evaluated, also when that fails, and the entries behind it wait for the next run.
The line that is worked on is noted with the reporter, so that a report can name it. -/
import Abacus.Console
import Abacus.Evaluation
import Abacus.Script

namespace Abacus
set_option autoImplicit false

/-- How deeply expressions and rules may nest. -/
def nestingAllowance : Nat := 980

/-- What holds for a whole run of the program. -/
structure Settings where
  /-- The allowance for nesting. -/
  depth : Nat := nestingAllowance
  /-- Whether tokens, trees and results are logged. -/
  debug : Bool := false
deriving DecidableEq

/-- Gives the bytes of a file, if it can be opened. -/
abbrev FileReader := Text → Option (List UInt8)

structure Session where
  path : Text
  /-- Whether each result is printed as soon as it is there. -/
  echo : Bool := false
  environment : Environment := .empty
  /-- The parsed lines that wait, under their line numbers. -/
  queue : OrderedMap Int (Text × Tree) := .empty
  /-- The results, latest last. -/
  results : List Number := []
deriving DecidableEq

/-- A session at its console. -/
structure Desk where
  console : Console
  session : Session

namespace Desk

abbrev Action := EStateM Failure Desk

def onConsole (f : Console → Console) : Action Unit :=
  modify fun d => { d with console := f d.console }

def onSession (f : Session → Session) : Action Unit :=
  modify fun d => { d with session := f d.session }

/-- Adds a message about a line to the log, if messages are logged. -/
def note (cfg : Settings) (line : Int) (message : Text) : Action Unit :=
  if cfg.debug then
    onConsole (·.note .session ("line ".toList ++ Text.ofInt line ++ " ".toList ++ message))
  else pure ()

def beginLine (text : Text) (line : Int) : Action Unit :=
  modify fun d => { d with
    console := { d.console with
      reporter := d.console.reporter.setLine d.session.path ⟨some text, some line⟩ } }

def endLine : Action Unit :=
  modify fun d => { d with
    console := { d.console with reporter := d.console.reporter.clearLine d.session.path } }

def printNumber (x : Number) : Action Unit := do
  let text ← MonadExcept.ofExcept x.text
  onConsole (·.print text)

def guarded (action : Action Unit) : Action Unit := do
  let _ ← Console.guard Desk.console (fun d c => { d with console := c }) action

/-! ## Queueing -/

/-- Logs the tokens of a line, if messages are logged; then a line with a part that is no token
fails here. -/
def noteTokens (cfg : Settings) (text : Text) (line : Int) : Action Unit :=
  if cfg.debug then
    match Scanner.tokens? text with
    | .ok tokens => note cfg line ("tokens: ".toList ++ Token.listing tokens)
    | .error d => throw (.diagnosed d)
  else pure ()

def add (cfg : Settings) (text : Text) (line : Int) : Action Unit := do
  beginLine text line
  noteTokens cfg text line
  let tree ← MonadExcept.ofExcept (Tree.parse cfg.depth text)
  let shown ← MonadExcept.ofExcept (tree.display cfg.depth 0)
  note cfg line ("tree:\n".toList ++ shown)
  onSession fun s => { s with queue := s.queue.insert line (text, tree) }
  endLine

/-! ## Running -/

/-- Evaluates the tree of a queued line, which leaves the queue in any case. -/
def evaluateEntry (cfg : Settings) (line : Int) (tree : Tree) : Action Number := fun d =>
  match tree.evaluate cfg.depth d.session.environment with
  | .ok value environment =>
    .ok value { d with
      session := { d.session with environment, queue := d.session.queue.erase line } }
  | .error e environment =>
    .error e { d with
      session := { d.session with environment, queue := d.session.queue.erase line } }

def noteResult (cfg : Settings) (line : Int) (value : Number) : Action Unit :=
  match value.text? with
  | some text => note cfg line ("result: ".toList ++ text)
  | none => pure ()

def runEntry (cfg : Settings) (line : Int) (text : Text) (tree : Tree) : Action Unit := do
  beginLine text line
  let value ← evaluateEntry cfg line tree
  noteResult cfg line value
  onSession fun s => { s with results := s.results ++ [value] }
  if (← get).session.echo then printNumber value
  endLine

def runEntries (cfg : Settings) : List (Int × (Text × Tree)) → Action Unit
  | [] => pure ()
  | (line, text, tree) :: rest => do
    runEntry cfg line text tree
    runEntries cfg rest

def run (cfg : Settings) : Action Unit := do
  runEntries cfg (← get).session.queue.entries

/-! ## Results and variables -/

def pop : Action Number := fun d =>
  match d.session.results.getLast? with
  | some value =>
    .ok value { d with session := { d.session with results := d.session.results.dropLast } }
  | none => .error (.internal .noResult) d

def reset : Action Unit := onSession fun s => { s with environment := .empty }

end Desk

/-! ## Opening -/

namespace Session

/-- The path that stands for what is typed in. -/
def typedPath : Text := "<in>".toList

def readFile (read : FileReader) (path : Text) : Except Failure Text :=
  if path.contains (Char.ofNat 0) then .error (.internal .nullInPath)
  else
    match read path with
    | none => .error (.diagnosed (.bare (Text.inQuotes path ++ " could not be opened".toList)))
    | some bytes =>
      match Utf8.decode bytes with
      | .ok text => .ok text
      | .error flaw => .error (.internal (.undecodable flaw))

def addLines (cfg : Settings) : List LogicalLine → Desk.Action Unit
  | [] => pure ()
  | line :: rest => do
    Desk.add cfg line.text line.number
    addLines cfg rest

/-- Queues the logical lines of the file at a path.  Nothing is read for what is typed in, and its
path is no file's name. -/
def load (cfg : Settings) (read : FileReader) (path : Text) (interactive : Bool) :
    Desk.Action Unit :=
  if path = typedPath then
    if interactive then pure ()
    else throw (.diagnosed (.bare (Text.inQuotes typedPath ++ " is a reserved filename".toList)))
  else
    match readFile read path with
    | .ok text => addLines cfg (Script.ofLines text.lines)
    | .error e => throw e

/-- Opens a session.  With an interactive one reports stop being fatal. -/
def start (cfg : Settings) (read : FileReader) (path : Text) (interactive echo : Bool) :
    EStateM Failure Console Session := fun c =>
  let opened := c.reporter.clearLine path
  let reporter := if interactive then { opened with fatal := false } else opened
  match load cfg read path interactive ⟨{ c with reporter }, { path, echo }⟩ with
  | .ok _ d => .ok d.session d.console
  | .error e d => .error e d.console

/-- Runs an operation of a session and keeps the console. -/
def perform {α : Type} (session : Session) (action : Desk.Action α) :
    EStateM Failure Console α := fun c =>
  match action ⟨c, session⟩ with
  | .ok result d => .ok result d.console
  | .error e d => .error e d.console

end Session
end Abacus
