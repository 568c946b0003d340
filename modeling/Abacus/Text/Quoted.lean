/- # Quoted texts

A text is quoted in apostrophes, or in double quotation marks if it holds an apostrophe and no
double quotation mark.  The backslash, the enclosing mark and the characters that are not
printable are escaped, the latter by their code in two, four or eight hexadecimal digits. -/
import Abacus.Text.Printable

namespace Abacus.Text
set_option autoImplicit false

def apostrophe : Char := Char.ofNat 0x27

def doubleQuote : Char := Char.ofNat 0x22

/-- The mark that encloses a quoted text. -/
def quoteMark (t : Text) : Char :=
  if t.contains apostrophe && !t.contains doubleQuote then doubleQuote else apostrophe

/-- A number in hexadecimal with at least so many digits. -/
def hex (width n : Nat) : Text :=
  let digits := Nat.toDigits 16 n
  List.replicate (width - digits.length) '0' ++ digits

/-- One character inside a text quoted with `mark`. -/
def quotedChar (mark c : Char) : Text :=
  if c == mark || c == '\\' then ['\\', c]
  else if c == '\t' then ['\\', 't']
  else if c == '\n' then ['\\', 'n']
  else if c == '\r' then ['\\', 'r']
  else if isPrintable c then [c]
  else if c.toNat ≤ 0xFF then ['\\', 'x'] ++ hex 2 c.toNat
  else if c.toNat ≤ 0xFFFF then ['\\', 'u'] ++ hex 4 c.toNat
  else ['\\', 'U'] ++ hex 8 c.toNat

/-- A text between quotation marks, with all that needs it escaped. -/
def quoted (t : Text) : Text :=
  let mark := t.quoteMark
  mark :: t.flatMap (quotedChar mark) ++ [mark]

end Abacus.Text
