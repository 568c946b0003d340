/- # The console

What was printed and logged so far, with the reporter that failures go to.  `handle` decides what
becomes of a failure: diagnostics, interrupts and too deep nesting are reported and end there;
faults are reported as internal and go on; the end of the program goes on without a report. -/
import Abacus.Reporter

namespace Abacus
set_option autoImplicit false

inductive Origin where
  | session
  | program
deriving DecidableEq

def Origin.name : Origin → Text
  | .session => "acalc.lang.session".toList
  | .program => "acalc.main".toList

structure LogEntry where
  origin : Origin
  message : Text
deriving DecidableEq

def LogEntry.text (entry : LogEntry) (stamp : Text) : Text :=
  Text.line (stamp ++ " ".toList ++ entry.origin.name ++ " DEBUG: ".toList ++ entry.message)

/-- What was printed and logged, and where failures are reported. -/
structure Console where
  reporter : Reporter := {}
  out : Text := []
  log : List LogEntry := []

namespace Console

/-- A console where nothing was printed yet, with the paint for its reports. -/
def opened (paint : Text → Text) : Console := { reporter := { paint } }

/-- Prints a text as it is. -/
def write (c : Console) (text : Text) : Console := { c with out := c.out ++ text }

def print (c : Console) (text : Text) : Console := c.write text.line

def note (c : Console) (origin : Origin) (message : Text) : Console :=
  { c with log := c.log ++ [⟨origin, message⟩] }

/-- Reports a diagnostic.  The failure that comes out ends the program. -/
def report (c : Console) (d : Diagnostic) : Option Failure × Console :=
  (c.reporter.afterReportFailure,
    { c.write (c.reporter.report d) with reporter := c.reporter.afterReport })

/-- The diagnostic under which a fault is reported. -/
def faultDiagnostic (f : Fault) : Diagnostic where
  message := "unknown error: ".toList ++ Text.inQuotes (f.title ++ ": ".toList ++ f.message)
  internal := true

@[simp] theorem faultDiagnostic_internal (f : Fault) : (faultDiagnostic f).internal = true := rfl

@[simp] theorem faultDiagnostic_message (f : Fault) : (faultDiagnostic f).message =
    "unknown error: ".toList ++ Text.inQuotes (f.title ++ ": ".toList ++ f.message) := rfl

/-- Deals with a failure.  The failure that comes out, if any, goes on to the caller. -/
def handle (c : Console) : Failure → Option Failure × Console
  | .exit status => (some (.exit status), c)
  | .interrupted _ => c.report (.plain "keyboard interrupt".toList)
  | .tooDeep => c.report (.plain "maximum nesting depth exceeded".toList)
  | .diagnosed d => c.report d
  | .internal f =>
    match c.report (faultDiagnostic f) with
    | (some e, after) => (some e, after)
    | (none, after) => (some (.internal f), after)

/-- Runs an operation on a state that holds a console, and deals with its failure. -/
def guard {σ α : Type} (console : σ → Console) (put : σ → Console → σ)
    (action : EStateM Failure σ α) : EStateM Failure σ (Option α) := fun s =>
  match action s with
  | .ok result after => .ok (some result) after
  | .error e after =>
    match (console after).handle e with
    | (none, c) => .ok none (put after c)
    | (some e, c) => .error e (put after c)

end Console
end Abacus
