/-
Bytes as text in base 64: three bytes in four characters, in lines of 76 characters.

Reading skips what is no character of the alphabet, and ends at a filled group; it fails if characters are
left over.

Main definitions: `base64Lines`, `ofBase64?`.
-/
import Intake.Number.Numeral

namespace Intake.Yaml

def alphabet : List Char := "ABCDEFGHIJKLMNOPQRSTUVWXYZabcdefghijklmnopqrstuvwxyz0123456789+/".toList

/-- the character of a value below 64 -/
def sextet (n : Nat) : Char := alphabet.getD n 'A'

/-- bytes in groups of four characters, the last filled up -/
def base64 : List UInt8 → List Char
  | [] => []
  | [a] => [sextet (a.toNat / 4), sextet (a.toNat % 4 * 16), '=', '=']
  | [a, b] =>
    [sextet (a.toNat / 4), sextet (a.toNat % 4 * 16 + b.toNat / 16), sextet (b.toNat % 16 * 4), '=']
  | a :: b :: c :: rest =>
    sextet (a.toNat / 4) :: sextet (a.toNat % 4 * 16 + b.toNat / 16) ::
      sextet (b.toNat % 16 * 4 + c.toNat / 64) :: sextet (c.toNat % 64) :: base64 rest

/-- a run of characters in lines, each ended; `room` is what is left of the line -/
def inLines (size room : Nat) : List Char → List Char
  | [] => if room < size then ['\n'] else []
  | c :: cs => if room = 0 then '\n' :: c :: inLines size (size - 1) cs else c :: inLines size (room - 1) cs

def base64Lines (bytes : List UInt8) : List Char := inLines 76 76 (base64 bytes)

def sextetValue? (c : Char) : Option Nat := alphabet.findIdx? (· == c)

/-- reads from inside a group: `position` counts its characters, `bits` is what the last left over, and
`fill` counts the fill characters met since -/
def ofBase64From (position bits fill : Nat) : List Char → Option (List UInt8)
  | [] => if position = 0 then some [] else none
  | '=' :: cs =>
    if 2 ≤ position then
      if 4 ≤ position + (fill + 1) then some [] else ofBase64From position bits (fill + 1) cs
    else ofBase64From position bits fill cs
  | c :: cs =>
    match sextetValue? c with
    | none => ofBase64From position bits fill cs
    | some v =>
      match position with
      | 0 => ofBase64From 1 v 0 cs
      | 1 => (ofBase64From 2 (v % 16) 0 cs).map (UInt8.ofNat (bits * 4 + v / 16) :: ·)
      | 2 => (ofBase64From 3 (v % 4) 0 cs).map (UInt8.ofNat (bits * 16 + v / 4) :: ·)
      | _ => (ofBase64From 0 0 0 cs).map (UInt8.ofNat (bits * 64 + v) :: ·)

def ofBase64? (cs : List Char) : Option (List UInt8) := ofBase64From 0 0 0 cs

end Intake.Yaml
