/-
Sets of characters, given by the places where membership changes.

A set is a list of ascending code points. A character belongs to it when an odd number of them lie at or
below it: the first opens a range, the second closes it, and so on. The tables of the library (blanks,
digits, letters, printable characters) are values of this type.
-/

namespace Intake.Text

/-- a set of characters by its boundaries. -/
structure CharSet where
  /-- ascending: each opens a range at even places and closes it at odd ones -/
  bounds : List Nat

namespace CharSet

/-- walks the boundaries at or below `n`, turning membership at each. -/
def walk (n : Nat) : Bool → List Nat → Bool
  | inside, [] => inside
  | inside, b :: bs => if b ≤ n then walk n (!inside) bs else inside

def contains (s : CharSet) (c : Char) : Bool := walk c.toNat false s.bounds

end CharSet

end Intake.Text
