/- # Text: characters, blanks and cuts

Source lines and everything that is printed are lists of characters, so that every position
counts characters from 0.  The module fixes the class of blank characters, trimming, the cut
`slice` whose bounds may count from the end, decimal notation, and the codes for bold red. -/

namespace Abacus
set_option autoImplicit false

/-- A text is the list of its characters. -/
abbrev Text := List Char

namespace Text

/-! ## Blanks and trimming -/

/-- The blank characters: the white space of Unicode together with the separators 1C to 1F. -/
def isBlank (c : Char) : Bool :=
  let n := c.toNat
  (0x09 ≤ n && n ≤ 0x0D) || (0x1C ≤ n && n ≤ 0x20) || n == 0x85 || n == 0xA0 || n == 0x1680 ||
    (0x2000 ≤ n && n ≤ 0x200A) || n == 0x2028 || n == 0x2029 || n == 0x202F || n == 0x205F ||
    n == 0x3000

def trimLeft (t : Text) : Text := t.dropWhile isBlank

def trimRight (t : Text) : Text := (t.reverse.dropWhile isBlank).reverse

def trim (t : Text) : Text := t.trimRight.trimLeft

/-- Whether a text holds nothing but blanks. -/
def blank (t : Text) : Bool := t.all isBlank

/-! ## Cuts -/

/-- The place that a bound of a cut names: negative bounds count from the end, and what lies
before the start is the start. -/
def place (t : Text) (bound : Int) : Nat :=
  (if bound < 0 then bound + t.length else bound).toNat

/-- The characters from `start` up to `stop`.  Bounds outside the text are clipped, and bounds
that cross give the empty text. -/
def slice (t : Text) (start stop : Int) : Text :=
  (t.take (t.place stop)).drop (t.place start)

def before (t : Text) (stop : Int) : Text := t.take (t.place stop)

def after (t : Text) (start : Int) : Text := t.drop (t.place start)

/-- So many copies of one character; none for a negative count. -/
def copies (count : Int) (c : Char) : Text := List.replicate count.toNat c

/-! ## Numerals and joining -/

def ofNat (n : Nat) : Text := Nat.toDigits 10 n

def ofInt : Int → Text
  | .ofNat n => ofNat n
  | .negSucc n => '-' :: ofNat (n + 1)

/-- Texts put one after the other with a separator between neighbours. -/
def join (separator : Text) (parts : List Text) : Text := separator.intercalate parts

def line (t : Text) : Text := t ++ ['\n']

/-- A text in plain single quotation marks. -/
def inQuotes (t : Text) : Text := "'".toList ++ t ++ "'".toList

/-- A text with the codes around it that make a terminal show it in bold red. -/
def boldRed (t : Text) : Text := "\x1b[1m\x1b[31m".toList ++ t ++ "\x1b[0m".toList

/-! ## Lines -/

/-- The lines of a text, with their line ends left out.  The end of the text ends a line only if
something stands on it.  `started` collects, in reverse, the characters of the line being read. -/
def linesFrom (started : Text) : Text → List Text
  | [] => if started.isEmpty then [] else [started.reverse]
  | '\n' :: rest => started.reverse :: linesFrom [] rest
  | '\r' :: '\n' :: rest => started.reverse :: linesFrom [] rest
  | '\r' :: rest => started.reverse :: linesFrom [] rest
  | c :: rest => linesFrom (c :: started) rest

/-- The lines of a text: each ends at a line feed, a carriage return, or both in this order. -/
def lines (t : Text) : List Text := linesFrom [] t

/-- As `linesFrom`, with lines that end at line feeds alone. -/
def typedLinesFrom (started : Text) : Text → List Text
  | [] => if started.isEmpty then [] else [started.reverse]
  | '\n' :: rest => started.reverse :: typedLinesFrom [] rest
  | c :: rest => typedLinesFrom (c :: started) rest

/-- The lines of what is typed in: each ends at a line feed, and a carriage return is a character
like any other. -/
def typedLines (t : Text) : List Text := typedLinesFrom [] t

end Text
end Abacus
