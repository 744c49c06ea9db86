/-
Quoted text: how a text or a run of bytes is shown inside a message.

The quote is the apostrophe, unless the text holds apostrophes and no double quote. Tab, line feed and
carriage return have short escapes, and what cannot be printed is written by its number, with as many
hexadecimal digits as the number's range has.
-/
import Intake.Text.Printable

namespace Intake.Text

def hexDigit (n : Nat) : Char := Char.ofNat (if n < 10 then 48 + n else 87 + n)

/-- the last `width` hexadecimal digits of a number -/
def hexDigits : Nat → Nat → List Char
  | 0, _ => []
  | width + 1, n => hexDigits width (n / 16) ++ [hexDigit (n % 16)]

def quoteOf (s : List Char) : Char :=
  if s.contains ('\x27') && !s.contains '"' then '"' else '\x27'

def numericEscape (n : Nat) : List Char :=
  if n < 0x100 then '\\' :: 'x' :: hexDigits 2 n
  else if n < 0x10000 then '\\' :: 'u' :: hexDigits 4 n
  else '\\' :: 'U' :: hexDigits 8 n

/-- a character as it stands between the given quotes -/
def escapeChar (quote c : Char) : List Char :=
  if c = quote ∨ c = '\\' then ['\\', c]
  else if c = '\t' then ['\\', 't']
  else if c = '\n' then ['\\', 'n']
  else if c = '\r' then ['\\', 'r']
  else if isPrintable c then [c]
  else numericEscape c.toNat

def quoted (s : List Char) : List Char :=
  let q := quoteOf s
  q :: s.flatMap (escapeChar q) ++ [q]

/-- bytes between quotes, after the letter that marks them; beyond ASCII each is a number. Where bytes can be written to,
every apostrophe is escaped, whatever the quote -/
def quotedBytes (isMutable : Bool) (bytes : List UInt8) : List Char :=
  let s := bytes.map fun b => Char.ofNat b.toNat
  let q := quoteOf s
  let escape (c : Char) : List Char :=
    if isMutable && c == '\x27' then escapeChar c c
    else if c.toNat < 0x80 then escapeChar q c
    else numericEscape c.toNat
  'b' :: q :: s.flatMap escape ++ [q]

/-! ## Bytes as text -/

/-- the character that stands for bytes that are no text -/
def replacement : Char := Char.ofNat 0xfffd

/-- the range that the second byte of a character must lie in, and how many bytes follow the first -/
def leadByte? (b : Nat) : Option (Nat × Nat × Nat) :=
  if 0xc2 ≤ b ∧ b ≤ 0xdf then some (1, 0x80, 0xbf)
  else if b = 0xe0 then some (2, 0xa0, 0xbf)
  else if b = 0xed then some (2, 0x80, 0x9f)
  else if 0xe1 ≤ b ∧ b ≤ 0xef then some (2, 0x80, 0xbf)
  else if b = 0xf0 then some (3, 0x90, 0xbf)
  else if 0xf1 ≤ b ∧ b ≤ 0xf3 then some (3, 0x80, 0xbf)
  else if b = 0xf4 then some (3, 0x80, 0x8f)
  else none

/-- what is still open of a character: bytes to come, bounds of the next, and the bits so far -/
structure Pending where
  left : Nat
  low : Nat
  high : Nat
  bits : Nat

def startChar (b : Nat) : List Char × Option Pending :=
  if b < 0x80 then ([Char.ofNat b], none)
  else match leadByte? b with
    | some (left, low, high) => ([], some ⟨left, low, high, b % Nat.pow 2 (6 - left)⟩)
    | none => ([replacement], none)

/-- one byte in the middle of a character, or where one begins. A character broken off gives one
replacement, and the byte that broke it is read again -/
def stepByte (pending : Option Pending) (b : Nat) : List Char × Option Pending :=
  match pending with
  | none => startChar b
  | some p =>
    if p.low ≤ b ∧ b ≤ p.high then
      let bits := p.bits * 64 + b % 64
      if p.left ≤ 1 then ([Char.ofNat bits], none) else ([], some ⟨p.left - 1, 0x80, 0xbf, bits⟩)
    else
      let (cs, next) := startChar b
      (replacement :: cs, next)

/-- the text of bytes in UTF-8 after those already read -/
def decodeFrom (pending : Option Pending) : List UInt8 → List Char
  | [] => if pending.isSome then [replacement] else []
  | b :: bs =>
    let (cs, next) := stepByte pending b.toNat
    cs ++ decodeFrom next bs

/-- the text of bytes in UTF-8, with a replacement for each longest run that is no text -/
def decodeUtf8 (bytes : List UInt8) : List Char := decodeFrom none bytes

end Intake.Text
