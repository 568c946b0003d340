/- # Running the program

The outer layer: it reads the file that the command line names, or lines from standard input one
by one, and prints what the program says. -/
import Abacus.Program

open Abacus

namespace Abacus.Main
set_option autoImplicit false

def toString (t : Text) : String := String.ofList t

/-- The bytes of a file, if it can be opened. -/
def bytes? (path : Text) : IO (Option (List UInt8)) := do
  try
    return some (← IO.FS.readBinFile (toString path)).toList
  catch _ => return none

def stamp : IO Text := do
  return Text.ofNat (← IO.monoMsNow)

/-- What is to be bold and red gets the codes for it on a terminal, unless the environment asks for
plain or for coloured text. -/
def paint : IO (Text → Text) := do
  let asked (name : String) : IO Bool := return ((← IO.getEnv name).getD "") != ""
  if (← asked "ANSI_COLORS_DISABLED") || (← asked "NO_COLOR") then return id
  if ← asked "FORCE_COLOR" then return Text.boldRed
  if (← IO.getEnv "TERM") == some "dumb" then return id
  return if ← (← IO.getStdout).isTty then Text.boldRed else id

/-- Prints what came to the console since `before`. -/
def flushSince (before after : Console) : IO Unit := do
  let out ← IO.getStdout
  out.putStr (toString (after.out.drop before.out.length))
  out.flush
  let time ← stamp
  for entry in after.log.drop before.log.length do
    IO.eprint (toString (entry.text time))

/-- The exit status of a failure, which is shown unless it is the end of the program. -/
def statusOf : Failure → IO UInt32
  | .exit status => return ((toString status).toNat?.getD 1).toUInt32
  | .internal f => do
    IO.eprintln (toString (f.title ++ ": ".toList ++ f.message))
    return 1
  | _ => return 1

partial def answerLines (cfg : Settings) (shell : Shell) : IO (Except Failure Unit × Shell) := do
  let out ← IO.getStdout
  out.putStr (toString shell.prompt)
  out.flush
  let typed ← (← IO.getStdin).getLine
  let line := if typed.isEmpty then Shell.Command.endOfInput.name
    else typed.toList.takeWhile fun c => c != '\n'
  match Shell.answer cfg line shell with
  | .ok reply after =>
    flushSince shell.desk.console after.desk.console
    match reply with
    | .stop => return (.ok (), after)
    | _ => answerLines cfg after
  | .error e after =>
    flushSince shell.desk.console after.desk.console
    return (.error e, after)

def converse (cfg : Settings) : IO UInt32 := do
  match Program.openShell cfg (fun _ => none) (.opened (← paint)) with
  | .error e _ => statusOf e
  | .ok shell c =>
    flushSince {} c
    match ← answerLines cfg shell with
    | (.ok _, _) => return 0
    | (.error e, after) =>
      let (failure, c) := after.desk.console.handle e
      flushSince after.desk.console c
      match failure with
      | some e => statusOf e
      | none => return 0

def finish (ending : Ending) : IO UInt32 := do
  IO.print (toString ending.out)
  IO.eprint (toString (ending.err (← stamp)))
  match ending.status with
  | .ok status => return status.toUInt32
  | .error e => statusOf e

end Abacus.Main

def main (arguments : List String) : IO UInt32 := do
  let arguments := arguments.map String.toList
  match CommandLine.parse arguments with
  | .run { command := none, file := none, debug } =>
    Main.converse ⟨nestingAllowance, debug⟩
  | .run { command := none, file := some path, .. } =>
    let bytes ← Main.bytes? path
    Main.finish (Program.run nestingAllowance (fun _ => bytes) [] arguments (← Main.paint))
  | _ => Main.finish (Program.run nestingAllowance (fun _ => none) [] arguments (← Main.paint))
