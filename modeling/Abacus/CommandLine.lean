/- # The command line

Three options and one optional file.  An argument that starts with "-" is an option, unless it is
"-" alone, a negative number, or holds a blank and is no known option; after "--" every argument
is a word.  Long options may be shortened as long as one option is meant, and take their value
behind "=" or as the next word; a value may stand right behind the short option.  What is attached
to "-h" is read as further short options.  All arguments are sorted into options and words before
the first one is acted on.  A file and an expression exclude each other. -/
import Abacus.Text.Numeral
import Abacus.Text.Quoted

namespace Abacus
set_option autoImplicit false

namespace CommandLine

/-! ## Options -/

inductive Flag where
  | help
  | command
  | debug
deriving DecidableEq

def Flag.title : Flag → Text
  | .help => "-h/--help".toList
  | .command => "-c/--command".toList
  | .debug => "--debug".toList

def spellings : List (Text × Flag) :=
  [("-h".toList, .help), ("--help".toList, .help), ("-c".toList, .command),
    ("--command".toList, .command), ("--debug".toList, .debug)]

def flag? (spelling : Text) : Option Flag :=
  (spellings.find? fun entry => entry.1 = spelling).map Prod.snd

/-! ## Sorting the arguments -/

/-- How an option is spelled: with one dash and a letter, or with two dashes and a word. -/
inductive Form where
  | short
  | long
deriving DecidableEq

def Form.ofSpelling (spelling : Text) : Form :=
  if spelling.take 2 = "--".toList then .long else .short

inductive Argument where
  | word (text : Text)
  /-- The first "--". -/
  | divider
  /-- An option, perhaps with a text attached to it: what stands behind "=", or right behind a
  short option. -/
  | option (flag : Flag) (form : Form) (attached : Option Text)
  | unknown (text : Text)
deriving DecidableEq

/-- Splits an argument at its first "=". -/
def splitValue (argument : Text) : Text × Option Text :=
  match argument.dropWhile (· != '=') with
  | [] => (argument, none)
  | _ :: value => (argument.takeWhile (· != '='), some value)

/-- Whether a text consists of decimal digits, of which there has to be one. -/
def isDigits (t : Text) : Bool := !t.isEmpty && t.all Text.isNumeral

/-- Whether what follows a minus sign makes a number: digits, or a point with digits behind it and
perhaps before it.  One line feed may follow. -/
def isNumberBody (body : Text) : Bool :=
  let t := if body.getLast? = some '\n' then body.dropLast else body
  let fraction := t.dropWhile Text.isNumeral
  isDigits t || (fraction.head? = some '.' && isDigits (fraction.drop 1))

/-- An argument that starts with "-" and matches no option. -/
def strange (argument : Text) : Argument :=
  if isNumberBody (argument.drop 1) || argument.contains ' ' then .word argument
  else .unknown argument

/-- An argument that starts with "--" and is no exact option: a shortened one, if only one is
meant. -/
def classifyLong (argument : Text) : Except Text Argument :=
  let (stem, value) := splitValue argument
  match spellings.filter fun entry => stem.isPrefixOf entry.1 with
  | [] => .ok (strange argument)
  | [(_, flag)] => .ok (.option flag .long value)
  | several =>
    .error ("ambiguous option: ".toList ++ argument ++ " could match ".toList ++
      Text.join ", ".toList (several.map Prod.fst))

/-- An argument that starts with a single "-" and is no exact option: a short option with
something right behind it, if it is one. -/
def classifyShort (argument : Text) : Argument :=
  match flag? (argument.take 2) with
  | some flag => .option flag .short (some (argument.drop 2))
  | none => strange argument

/-- The role of an argument before any "--". -/
def classify (argument : Text) : Except Text Argument :=
  match argument with
  | '-' :: rest =>
    match flag? argument, rest with
    | some flag, _ => .ok (.option flag (.ofSpelling argument) none)
    | none, [] => .ok (.word argument)
    | none, second :: _ =>
      let (stem, value) := splitValue argument
      match value, flag? stem with
      | some _, some flag => .ok (.option flag (.ofSpelling stem) value)
      | _, _ => if second = '-' then classifyLong argument else .ok (classifyShort argument)
  | _ => .ok (.word argument)

def classifyAll : List Text → Except Text (List Argument)
  | [] => .ok []
  | argument :: rest =>
    if argument = "--".toList then .ok (.divider :: rest.map .word)
    else
      match classify argument with
      | .error message => .error message
      | .ok role =>
        match classifyAll rest with
        | .error message => .error message
        | .ok roles => .ok (role :: roles)

/-! ## Acting on them -/

/-- What "-c" asks for. -/
inductive Command where
  | expression (text : Text)
  /-- Nothing: a "--" attached to the option counts as a divider and is dropped. -/
  | dropped
deriving DecidableEq

def Command.ofAttached (text : Text) : Command :=
  if text = "--".toList then .dropped else .expression text

structure Invocation where
  command : Option Command := none
  file : Option Text := none
  debug : Bool := false
deriving DecidableEq

inductive Outcome where
  | run (invocation : Invocation)
  | help
  | mistake (message : Text)
deriving DecidableEq

/-- What was acted on so far. -/
structure Progress where
  invocation : Invocation := {}
  /-- Whether the place of the file is taken. -/
  placed : Bool := false
  /-- The arguments that fit nowhere. -/
  extras : List Text := []
deriving DecidableEq

def blame (title message : Text) : Text :=
  "argument ".toList ++ title ++ ": ".toList ++ message

def ignoredValue (flag : Flag) (value : Text) : Text :=
  blame flag.title ("ignored explicit argument ".toList ++ value.quoted)

def missingValue : Text := blame Flag.command.title "expected one argument".toList

/-- The short options that are attached to "-h", letter by letter.  There is a mistake in them, or
none: then help is given, whatever they are. -/
def helpTail (wordFollows : Bool) : Text → Option Text
  | [] => none
  | c :: rest =>
    if c = 'h' then helpTail wordFollows rest
    else if c = 'c' then if rest.isEmpty && !wordFollows then some missingValue else none
    else some (ignoredValue .help (c :: rest))

def helpWith (wordFollows : Bool) (form : Form) (text : Text) : Outcome :=
  if form = .long || text.isEmpty then .mistake (ignoredValue .help text)
  else
    match helpTail wordFollows text with
    | some message => .mistake message
    | none => .help

def Progress.takeCommand (p : Progress) (command : Command) : Except Text Progress :=
  match p.invocation.file with
  | some _ => .error (blame Flag.command.title "not allowed with argument file".toList)
  | none => .ok { p with invocation := { p.invocation with command := some command } }

def Progress.takeFile (p : Progress) (text : Text) : Except Text Progress :=
  match p.invocation.command with
  | some _ =>
    .error (blame "file".toList ("not allowed with argument ".toList ++ Flag.command.title))
  | none => .ok { p with invocation := { p.invocation with file := some text }, placed := true }

def Progress.leaveOver (p : Progress) (text : Text) : Progress :=
  { p with extras := p.extras ++ [text] }

/-- Acts on all arguments in order.  A file takes the first word, together with the divider in
front of it or behind it. -/
def act (p : Progress) : List Argument → Outcome
  | [] =>
    if p.extras.isEmpty then .run p.invocation
    else .mistake ("unrecognized arguments: ".toList ++ Text.join [' '] p.extras)
  | .unknown text :: rest => act (p.leaveOver text) rest
  | .word text :: .divider :: rest =>
    if p.placed then act ((p.leaveOver text).leaveOver "--".toList) rest
    else
      match p.takeFile text with
      | .ok after => act after rest
      | .error message => .mistake message
  | .word text :: rest =>
    if p.placed then act (p.leaveOver text) rest
    else
      match p.takeFile text with
      | .ok after => act after rest
      | .error message => .mistake message
  | .divider :: .word text :: rest =>
    if p.placed then act ((p.leaveOver "--".toList).leaveOver text) rest
    else
      match p.takeFile text with
      | .ok after => act after rest
      | .error message => .mistake message
  | .divider :: rest =>
    if p.placed then act (p.leaveOver "--".toList) rest else act { p with placed := true } rest
  | .option .debug _ none :: rest =>
    act { p with invocation := { p.invocation with debug := true } } rest
  | .option .debug _ (some text) :: _ => .mistake (ignoredValue .debug text)
  | .option .help _ none :: _ => .help
  | .option .help form (some text) :: .word _ :: _ => helpWith true form text
  | .option .help form (some text) :: _ => helpWith false form text
  | .option .command _ (some text) :: rest =>
    match p.takeCommand (.ofAttached text) with
    | .ok after => act after rest
    | .error message => .mistake message
  | .option .command _ none :: .word text :: rest =>
    match p.takeCommand (.expression text) with
    | .ok after => act after rest
    | .error message => .mistake message
  | .option .command _ none :: _ => .mistake missingValue

/-- What a list of arguments asks for. -/
def parse (arguments : List Text) : Outcome :=
  match classifyAll arguments with
  | .ok roles => act {} roles
  | .error message => .mistake message

/-! ## Texts -/

def usage : Text := "usage: acalc [-h] [-c EXPR] [--debug] [file]\n".toList

def mistakeText (message : Text) : Text :=
  usage ++ ("acalc: error: ".toList ++ message ++ ['\n'])

def helpText : Text := usage ++ ("\nArithmetic expression interpreter.\n\n" ++
  "positional arguments:\n" ++
  "  file                  file to interpret and run (if empty, goes to command-\n" ++
  "                        line mode)\n\n" ++
  "options:\n" ++
  "  -h, --help            show this help message and exit\n" ++
  "  -c EXPR, --command EXPR\n" ++
  "                        evaluate a single expression and print its value\n" ++
  "  --debug               log tokens, syntax trees and results\n").toList

end CommandLine
end Abacus
