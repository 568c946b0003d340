/- # The program

Evaluates one expression, runs a file, or holds a conversation, as the command line asks.  A file
is parsed as a whole before any of it is evaluated, and each result is printed as soon as it is
there.  A report ends the program, except in a conversation. -/
import Abacus.CommandLine
import Abacus.Shell

namespace Abacus
set_option autoImplicit false

structure Ending where
  /-- The exit status, or the failure that ended the run. -/
  status : Except Failure Nat
  /-- What was printed. -/
  out : Text := []
  /-- What was printed about a wrong command line. -/
  complaint : Text := []
  log : List LogEntry := []

/-- What a run wrote to the error channel, with one time stamp for all messages. -/
def Ending.err (e : Ending) (stamp : Text) : Text :=
  e.complaint ++ e.log.flatMap fun entry => entry.text stamp

namespace Program

def guarded (action : EStateM Failure Console Unit) : EStateM Failure Console Unit := do
  let _ ← Console.guard id (fun _ c => c) action

/-- Evaluates one expression and prints its value.  Unlike in a conversation a report is fatal. -/
def evaluateOnce (cfg : Settings) (read : FileReader) (text : Text) :
    EStateM Failure Console Unit := do
  let session ← Session.start cfg read Session.typedPath true false
  modify fun c => { c with reporter := { c.reporter with fatal := true } }
  session.perform do
    Desk.add cfg text 1
    Desk.run cfg
    let value ← Desk.pop
    Desk.printNumber value

/-- Evaluates a command that was dropped.  Its end is rejected, and the report shows a list of one
blank in place of a line; as this is no source text, the report breaks off in front of the caret
line with a fault that nothing deals with. -/
def evaluateDropped (cfg : Settings) (read : FileReader) : EStateM Failure Console Unit := do
  let session ← Session.start cfg read Session.typedPath true false
  session.perform do
    Desk.beginLine "[' ']".toList 1
    Desk.noteTokens cfg [] 1
  let rejection := { Diagnostic.rejection [] ⟨.endOfText, 0, 0⟩ with pointed := false }
  modify fun c => c.write (c.reporter.report rejection)
  throw (.internal .noSource)

def runFile (cfg : Settings) (read : FileReader) (path : Text) :
    EStateM Failure Console Unit := do
  if cfg.debug then modify (·.note .program ("interpreting ".toList ++ path))
  let session ← Session.start cfg read path false true
  session.perform (Desk.run cfg)

def openShell (cfg : Settings) (read : FileReader) : EStateM Failure Console Shell := do
  let session ← Session.start cfg read Session.typedPath true false
  modify (·.print Shell.greeting)
  return { desk := ⟨← get, session⟩ }

def converse (cfg : Settings) (read : FileReader) (input : List Text) :
    EStateM Failure Console Unit := do
  let shell ← openShell cfg read
  fun _ =>
    match Shell.converse cfg input shell with
    | .ok _ after => .ok () after.desk.console
    | .error e after => .error e after.desk.console

/-- Does what the command line asks for, and deals with failures. -/
def perform (cfg : Settings) (read : FileReader) (input : List Text)
    (invocation : CommandLine.Invocation) : EStateM Failure Console Unit :=
  match invocation.command, invocation.file with
  | some (.expression text), _ => guarded (evaluateOnce cfg read text)
  | some .dropped, _ => evaluateDropped cfg read
  | none, some path => guarded (runFile cfg read path)
  | none, none => guarded (converse cfg read input)

def execute (depth : Nat) (read : FileReader) (input : List Text)
    (invocation : CommandLine.Invocation) (paint : Text → Text) : Ending :=
  match perform ⟨depth, invocation.debug⟩ read input invocation (.opened paint) with
  | .ok _ c => { status := .ok 0, out := c.out, log := c.log }
  | .error e c => { status := .error e, out := c.out, log := c.log }

/-- Runs the program on its arguments, with the files it may read, the lines typed in and the paint
for its reports. -/
def run (depth : Nat) (read : FileReader) (input : List Text) (arguments : List Text)
    (paint : Text → Text := Text.boldRed) : Ending :=
  match CommandLine.parse arguments with
  | .mistake message =>
    { status := .error (.exit "2".toList), complaint := CommandLine.mistakeText message }
  | .help => { status := .error (.exit "0".toList), out := CommandLine.helpText }
  | .run invocation => execute depth read input invocation paint

end Program
end Abacus
