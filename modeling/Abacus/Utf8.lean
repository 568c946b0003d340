/- # Reading UTF-8

A file is read block by block.  Characters are decoded from what the block brings, together with
a sequence that the block before left unfinished; a sequence still unfinished at the end of the
file is an error.  The position in an error counts from the start of the bytes that were decoded
together. -/
import Abacus.Text

namespace Abacus.Utf8
set_option autoImplicit false

inductive Reason where
  | invalidStart
  | invalidContinuation
  | unexpectedEnd
deriving DecidableEq

def Reason.text : Reason → Text
  | .invalidStart => "invalid start byte".toList
  | .invalidContinuation => "invalid continuation byte".toList
  | .unexpectedEnd => "unexpected end of data".toList

/-- Bytes that are no UTF-8: the first one, where it stands, how many there are, and why. -/
structure Flaw where
  byte : UInt8
  position : Nat
  length : Nat
  reason : Reason
deriving DecidableEq

def Flaw.text (flaw : Flaw) : Text :=
  let hex := Nat.toDigits 16 flaw.byte.toNat
  let place :=
    if flaw.length = 1 then
      "byte 0x".toList ++ List.replicate (2 - hex.length) '0' ++ hex ++ " in position ".toList ++
        Text.ofNat flaw.position
    else
      "bytes in position ".toList ++ Text.ofNat flaw.position ++ "-".toList ++
        Text.ofNat (flaw.position + flaw.length - 1)
  "'utf-8' codec can't decode ".toList ++ place ++ ": ".toList ++ flaw.reason.text

/-! ## One character -/

inductive Head where
  | character (c : Char) (length : Nat)
  | unfinished
  | invalid (length : Nat) (reason : Reason)

/-- Reads the continuation bytes of a sequence: so many are owed, the next one has to lie between
`low` and `high`, `taken` were read, and `code` is what they say. -/
def continuation (low high taken code : Nat) : Nat → List UInt8 → Head
  | 0, _ => .character (Char.ofNat code) taken
  | _ + 1, [] => .unfinished
  | owed + 1, b :: rest =>
    if low ≤ b.toNat ∧ b.toNat ≤ high then
      continuation 0x80 0xBF (taken + 1) (code * 64 + b.toNat % 64) owed rest
    else .invalid taken .invalidContinuation

def head (first : UInt8) (rest : List UInt8) : Head :=
  let b := first.toNat
  if b < 0x80 then .character (Char.ofNat b) 1
  else if b < 0xC2 then .invalid 1 .invalidStart
  else if b < 0xE0 then continuation 0x80 0xBF 1 (b % 32) 1 rest
  else if b < 0xF0 then
    continuation (if b = 0xE0 then 0xA0 else 0x80) (if b = 0xED then 0x9F else 0xBF) 1 (b % 16) 2
      rest
  else if b < 0xF5 then
    continuation (if b = 0xF0 then 0x90 else 0x80) (if b = 0xF4 then 0x8F else 0xBF) 1 (b % 8) 3
      rest
  else .invalid 1 .invalidStart

/-! ## Blocks and files -/

/-- Whether the bytes are a surrogate that lacks its last byte: an error that waits until the next
block is there. -/
def isCutSurrogate : List UInt8 → Bool
  | [first, second] => first == 0xED && 0xA0 ≤ second && second ≤ 0xBF
  | _ => false

/-- Decodes bytes, the first of which stands at `position`.  Unless these are the last ones, an
unfinished sequence at their end is handed back.  The allowance counts characters; the number of
bytes suffices. -/
def decodeBytes (last : Bool) : Nat → Nat → List UInt8 → Except Flaw (Text × List UInt8)
  | _, _, [] => .ok ([], [])
  | 0, _, bytes => .ok ([], bytes)
  | allowance + 1, position, first :: rest =>
    match head first rest with
    | .character c length =>
      match decodeBytes last allowance (position + length) ((first :: rest).drop length) with
      | .ok (text, pending) => .ok (c :: text, pending)
      | .error flaw => .error flaw
    | .unfinished =>
      if last then .error ⟨first, position, rest.length + 1, .unexpectedEnd⟩
      else .ok ([], first :: rest)
    | .invalid length reason =>
      if !last && isCutSurrogate (first :: rest) then .ok ([], first :: rest)
      else .error ⟨first, position, length, reason⟩

/-- How many bytes a file is read at a time. -/
def blockSize : Nat := 8192

/-- Decodes a file block by block after the bytes that wait.  The allowance counts blocks. -/
def decodeBlocks : Nat → List UInt8 → List UInt8 → Except Flaw Text
  | _, pending, [] =>
    match decodeBytes true pending.length 0 pending with
    | .ok (text, _) => .ok text
    | .error flaw => .error flaw
  | 0, _, _ :: _ => .ok []
  | allowance + 1, pending, first :: rest =>
    let bytes := pending ++ (first :: rest).take blockSize
    match decodeBytes false bytes.length 0 bytes with
    | .ok (text, waiting) =>
      match decodeBlocks allowance waiting ((first :: rest).drop blockSize) with
      | .ok more => .ok (text ++ more)
      | .error flaw => .error flaw
    | .error flaw => .error flaw

/-- The text of a file. -/
def decode (bytes : List UInt8) : Except Flaw Text := decodeBlocks bytes.length [] bytes

end Abacus.Utf8
