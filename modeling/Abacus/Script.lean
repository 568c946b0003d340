/- # Logical lines

A line loses its comment and its trailing blanks.  As long as it has more opening than closing
parentheses the next line is joined to it by a blank; the joined line carries the number of the
last line that went into it.  Blank lines between logical lines are dropped. -/
import Abacus.Text

namespace Abacus
set_option autoImplicit false

/-- A logical line with the number of the last line joined into it. -/
structure LogicalLine where
  text : Text
  number : Int
deriving DecidableEq

/-- The logical lines found so far, and whether the last one goes on. -/
structure Script where
  lines : List LogicalLine := []
  continuing : Bool := false
deriving DecidableEq

namespace Script

/-- A line without its comment and its trailing blanks. -/
def clean (line : Text) : Text := Text.trimRight (line.takeWhile (· != '#'))

/-- Whether a line has more opening than closing parentheses. -/
def unclosed (line : Text) : Bool := line.count ')' < line.count '('

/-- Takes one line into the script.  Also gives the logical line that it is now part of. -/
def step (script : Script) (number : Int) (line : Text) : Text × Script :=
  let cleaned := clean line
  match script.continuing, script.lines.getLast? with
  | true, some previous =>
    let joined := previous.text ++ [' '] ++ cleaned.trim
    (joined, ⟨script.lines.dropLast ++ [⟨joined, number⟩], unclosed joined⟩)
  | _, _ =>
    if cleaned.blank then (cleaned, { script with continuing := false })
    else (cleaned, ⟨script.lines ++ [⟨cleaned, number⟩], unclosed cleaned⟩)

/-- Takes lines into the script, the first one with the given number. -/
def steps : Int → List Text → Script → Script
  | _, [], script => script
  | number, line :: rest, script => steps (number + 1) rest (script.step number line).2

def ofLines (lines : List Text) : List LogicalLine := (steps 1 lines {}).lines

end Script
end Abacus
