/-
Universally unique identifiers: numbers of 128 bits, written as 32 hexadecimal digits in five groups.

Reading is lenient: the words `urn:` and `uuid:`, braces at the ends and hyphens anywhere do not count, and
what remains must be a hexadecimal numeral of 32 characters.
-/
import Intake.Text.Quoted
import Intake.Number.Numeral

namespace Intake

open Intake.Text Intake.Number

/-- an identifier of 128 bits -/
structure Uuid where
  value : Nat
  deriving DecidableEq, Repr, Inhabited

namespace Uuid

/-- a text without every occurrence of a word, read from the left; `skip` characters of an occurrence are
still to be passed over -/
def withoutFrom (word : List Char) : Nat → List Char → List Char
  | _, [] => []
  | skip + 1, _ :: cs => withoutFrom word skip cs
  | 0, c :: cs =>
    if word.isPrefixOf (c :: cs) then withoutFrom word (word.length - 1) cs else c :: withoutFrom word 0 cs

def without (word s : List Char) : List Char := withoutFrom word 0 s

def withoutBraces (s : List Char) : List Char :=
  let isBrace (c : Char) : Bool := c.toNat == 123 || c.toNat == 125
  ((s.dropWhile isBrace).reverse.dropWhile isBrace).reverse

def ofText? (s : List Char) : Option Uuid := do
  let hex := (withoutBraces (without "uuid:".toList (without "urn:".toList s))).filter (· != '-')
  if hex.length ≠ 32 then none
  else
    let n ← hexInteger? hex
    if 0 ≤ n ∧ n < Nat.pow 2 128 then some ⟨n.toNat⟩ else none

/-- the canonical text: groups of 8, 4, 4, 4 and 12 digits -/
def text (u : Uuid) : List Char :=
  let h := hexDigits 32 u.value
  h.take 8 ++ '-' :: (h.drop 8).take 4 ++ '-' :: (h.drop 12).take 4 ++ '-' :: (h.drop 16).take 4 ++ '-' :: h.drop 20

end Uuid

end Intake
