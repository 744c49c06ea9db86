/-
Blank characters and decimal digits, the two character classes that reading a number or a date needs.

Main statement: a text that neither begins nor ends with a blank is stripped already (`strip_eq_self`).
-/
import Intake.Text.CharSet

namespace Intake.Text

/-- characters that count as blank: the separators and the ASCII controls that move or divide. -/
def blankTable : CharSet := ⟨[
    9, 14, 28, 33, 133, 134, 160, 161, 5760, 5761, 8192, 8203, 8232, 8234, 8239, 8240, 8287, 8288, 12288, 12289]⟩

def isBlank (c : Char) : Bool := blankTable.contains c

/-- the zeros of the scripts that write decimal digits; the nine characters after each are its digits. -/
def digitZeros : List Nat := [
    48, 1632, 1776, 1984, 2406, 2534, 2662, 2790, 2918, 3046, 3174, 3302, 3430, 3558, 3664, 3792, 3872, 4160, 4240,
    6112, 6160, 6470, 6608, 6784, 6800, 6992, 7088, 7232, 7248, 42528, 43216, 43264, 43472, 43504, 43600, 44016,
    65296, 66720, 68912, 69734, 69872, 69942, 70096, 70384, 70736, 70864, 71248, 71360, 71472, 71904, 72016, 72784,
    73040, 73120, 92768, 92864, 93008, 120782, 120792, 120802, 120812, 120822, 123200, 123632, 125264, 130032]

/-- the value of a decimal digit of any script. -/
def digitValue? (c : Char) : Option Nat :=
  if c.isDigit then some (c.toNat - 48)
  else if c.toNat < 0x80 then none
  else (digitZeros.find? fun z => decide (z ≤ c.toNat ∧ c.toNat < z + 10)).map (c.toNat - ·)

def isDecimalDigit (c : Char) : Bool := (digitValue? c).isSome

def stripLeft (s : List Char) : List Char := s.dropWhile isBlank

def stripRight (s : List Char) : List Char := (s.reverse.dropWhile isBlank).reverse

/-- the text without the blanks at its two ends. -/
def strip (s : List Char) : List Char := stripRight (stripLeft s)

def isBlankText (s : List Char) : Bool := s.all isBlank

theorem stripLeft_sublist (s : List Char) : (stripLeft s).Sublist s := List.dropWhile_sublist _

/-- a text whose first and last characters are not blank is stripped already -/
theorem strip_eq_self {s : List Char} (hf : ∀ c, s.head? = some c → isBlank c = false)
    (hl : ∀ c, s.getLast? = some c → isBlank c = false) : strip s = s := by
  have dropped : ∀ t : List Char, (∀ c, t.head? = some c → isBlank c = false) → t.dropWhile isBlank = t := by
    intro t ht
    cases t with
    | nil => rfl
    | cons c t => simp [List.dropWhile, ht c rfl]
  unfold strip stripRight stripLeft
  rw [dropped s hf, dropped s.reverse (by simpa using hl), List.reverse_reverse]

end Intake.Text
