/- # Scanning

A scanner stands at a position of its text and reads one token at a time.  Blanks are skipped, an
integer is a maximal run of digits, an identifier a maximal run of letters, and a symbol a single
character.  Anything else is refused and the scanner stays in front of it; an integer with too
many digits is refused as well, but the scanner moves behind it. -/
import Abacus.Diagnostic

namespace Abacus
set_option autoImplicit false

/-- A text and the position of the next character to read. -/
structure Scanner where
  text : Text
  pos : Nat := 0
deriving DecidableEq

namespace Scanner

def rest (s : Scanner) : Text := s.text.drop s.pos

/-- The position behind the blanks that come next. -/
def tokenStart (s : Scanner) : Nat := s.pos + (s.rest.takeWhile Text.isBlank).length

/-- Reads the token at `start`, where no blank stands. -/
def read (text : Text) (start : Nat) : EStateM.Result Diagnostic Scanner Token :=
  match text.drop start with
  | [] => .ok ⟨.endOfText, start, start⟩ ⟨text, start⟩
  | c :: rest =>
    if c.isDigit then
      let run := (c :: rest).takeWhile Char.isDigit
      let stop := start + run.length
      if run.length ≤ maxDigits then
        .ok ⟨.integer (Nat.ofDigitChars 10 run 0), start, stop⟩ ⟨text, stop⟩
      else .error (.lexical .literalTooLong text start stop) ⟨text, stop⟩
    else if c.isAlpha then
      let run := (c :: rest).takeWhile Char.isAlpha
      .ok ⟨.identifier run, start, start + run.length⟩ ⟨text, start + run.length⟩
    else
      match Symbol.ofChar? c with
      | some s => .ok ⟨.symbol s, start, start + 1⟩ ⟨text, start + 1⟩
      | none => .error (.lexical (.invalidCharacter c) text start (start + 1)) ⟨text, start⟩

/-- Reads the next token.  At the end of the text this is the end, again and again. -/
def next (s : Scanner) : EStateM.Result Diagnostic Scanner Token := read s.text s.tokenStart

/-- Reads tokens up to and including the end of the text, or up to the first refusal.  The
allowance counts tokens. -/
def collect : Nat → Scanner → List Token × Option Diagnostic
  | 0, _ => ([], none)
  | allowance + 1, s =>
    match s.next with
    | .error d _ => ([], some d)
    | .ok token after =>
      if token.kind = .endOfText then ([token], none)
      else
        let later := collect allowance after
        (token :: later.1, later.2)

/-- The tokens of a text up to and including its end, or those before the first refusal together
with this refusal. -/
def tokens (text : Text) : List Token × Option Diagnostic := collect (text.length + 1) ⟨text, 0⟩

/-- The tokens of a text, provided that none is refused. -/
def tokens? (text : Text) : Except Diagnostic (List Token) :=
  match tokens text with
  | (found, none) => .ok found
  | (_, some d) => .error d

end Scanner
end Abacus
