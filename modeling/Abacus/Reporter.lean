/- # Reports

A reporter knows for every open file which line is being worked on.  A report lists these places
in the order in which the files were opened, then the message, then the caret line if there is
one.  A fatal reporter ends the program after a report; any other forgets the lines it worked on
and goes on.

Parts of a report are painted.  Whether that colours them is for the outside to say, which knows
where reports are shown. -/
import Abacus.Failure
import Abacus.OrderedMap

namespace Abacus
set_option autoImplicit false

/-- The line of a file that is being worked on, if any. -/
structure Place where
  line : Option Text := none
  number : Option Int := none
deriving DecidableEq

/-- Whether a report ends the program, and where it came from. -/
structure Reporter where
  fatal : Bool := true
  /-- The place in every open file. -/
  places : OrderedMap Text Place := .empty
  /-- What comes out for a part of a report that is to be bold and red. -/
  paint : Text → Text := Text.boldRed

namespace Reporter

/-- Notes that a file is open and no line of it is being worked on. -/
def clearLine (r : Reporter) (path : Text) : Reporter :=
  { r with places := r.places.insert path {} }

def setLine (r : Reporter) (path : Text) (place : Place) : Reporter :=
  { r with places := r.places.insert path place }

/-! ## The text of a report -/

/-- The lines of a report for one place.  A place without a line, or with an empty one, has
none. -/
def placeText (path : Text) (place : Place) : Option Text :=
  match place.line with
  | none => none
  | some [] => none
  | some line =>
    let number := match place.number with
      | some n => Text.ofInt n
      | none => "None".toList
    let heading := "  File ".toList ++ Text.inQuotes path ++ ", line ".toList ++ number
    some (Text.line (heading ++ ":".toList) ++ Text.line ("    ".toList ++ line))

/-- The places of a report, under a heading if there are several. -/
def trace (r : Reporter) : Text :=
  let shown := r.places.entries.filterMap fun entry => placeText entry.1 entry.2
  (if 1 < shown.length then "Traceback:\n".toList else []) ++ shown.flatten

def report (r : Reporter) (d : Diagnostic) : Text :=
  r.trace ++ (if d.internal then r.paint "[internal] ".toList else []) ++
    Text.line (r.paint "error: ".toList ++ d.message) ++
    (if !d.internal && !d.source.isEmpty && d.pointed then (d.caret r.paint).line else [])

def afterReport (r : Reporter) : Reporter :=
  if r.fatal then r else { r with places := r.places.fill {} }

/-- What a report lets through to the caller. -/
def afterReportFailure (r : Reporter) : Option Failure :=
  if r.fatal then some (.exit "1".toList) else none

end Reporter
end Abacus
