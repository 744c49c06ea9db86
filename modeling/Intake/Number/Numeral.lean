/-
Decimal numerals: the digits of a natural number, the number of a run of digits, and the text of an
integer.

Reading and writing integers is bounded. A numeral of more than `maxDigits` digits is neither read nor
written, so that a short request cannot ask for a long computation. Both directions of the bound are
stated on the digits: `ofDigits?` refuses the numeral, `intText?` refuses the number.
-/
import Intake.Text.Blank

namespace Intake.Number

open Intake.Text

/-- most digits that an integer's text may have -/
def maxDigits : Nat := 4300

def digits (n : Nat) : List Char := Nat.toDigits 10 n

/-- how many decimal digits a number has; zero has one -/
def digitCount (n : Nat) : Nat := (digits n).length

/-- the number written by digits of any script, read from the left -/
def ofDigits (cs : List Char) : Nat := cs.foldl (fun n c => 10 * n + (digitValue? c).getD 0) 0

/-- the number of a run of digits, unless the run is longer than the bound -/
def ofDigits? (cs : List Char) : Option Nat := if cs.length ≤ maxDigits then some (ofDigits cs) else none

/-- the text of an integer, whatever its length -/
def intText (n : Int) : List Char :=
  if n < 0 then '-' :: digits n.natAbs else digits n.natAbs

/-- the text of an integer, unless it is longer than the bound -/
def intText? (n : Int) : Option (List Char) :=
  if digitCount n.natAbs ≤ maxDigits then some (intText n) else none

def takeSign : List Char → Bool × List Char
  | '-' :: cs => (true, cs)
  | '+' :: cs => (false, cs)
  | cs => (false, cs)

def signed (negative : Bool) (n : Nat) : Int := if negative then -(n : Int) else n

/-! ## Reading numerals -/

/-- the ASCII form of a character of a numeral: a digit of any script becomes the ASCII digit, a blank a
space. No other character beyond ASCII can stand in a numeral -/
def asciiNumeral? (c : Char) : Option Char :=
  if c.toNat < 0x80 then some c
  else if isBlank c then some ' '
  else (digitValue? c).map fun d => Char.ofNat (48 + d)

/-- takes out the low lines, each of which must stand between two digits; `inDigits` tells whether a digit
comes before -/
def joinDigits? (isDigit : Char → Bool) (inDigits : Bool) : List Char → Option (List Char)
  | [] => some []
  | '_' :: c :: cs =>
    if inDigits && isDigit c then (joinDigits? isDigit true cs).map (c :: ·) else none
  | '_' :: [] => none
  | c :: cs => (joinDigits? isDigit (isDigit c) cs).map (c :: ·)

/-- digits before and after the point, and what follows -/
def takeDigits (cs : List Char) : List Char × List Char × List Char :=
  let whole := cs.takeWhile Char.isDigit
  match cs.dropWhile Char.isDigit with
  | '.' :: rest => (whole, rest.takeWhile Char.isDigit, rest.dropWhile Char.isDigit)
  | rest => (whole, [], rest)

/-- the exponent at the end of a numeral; no exponent is zero -/
def exponent? : List Char → Option Int
  | [] => some 0
  | e :: cs =>
    if e = 'e' ∨ e = 'E' then
      let (neg, ds) := takeSign cs
      if !ds.isEmpty && ds.all Char.isDigit then some (signed neg (ofDigits ds)) else none
    else none

/-- the coefficient and the power of ten of an unsigned numeral such as `12.5e3` -/
def scientific? (cs : List Char) : Option (Nat × Int) := do
  let (whole, places, rest) := takeDigits cs
  if whole.isEmpty && places.isEmpty then none
  else
    let e ← exponent? rest
    some (ofDigits (whole ++ places), e - places.length)

/-- an integer from its text: blanks around it, a sign, digits that low lines may group -/
def integer? (s : List Char) : Option Int := do
  let plain ← (strip s).mapM asciiNumeral?
  let (neg, cs) := takeSign plain
  let ds ← joinDigits? Char.isDigit false cs
  if ds.isEmpty || !ds.all Char.isDigit then none
  else (ofDigits? ds).map (signed neg)

def hexValue? (c : Char) : Option Nat :=
  if c.isDigit then some (c.toNat - 48)
  else if 'a' ≤ c ∧ c ≤ 'f' then some (c.toNat - 87)
  else if 'A' ≤ c ∧ c ≤ 'F' then some (c.toNat - 55)
  else none

def baseDigit? (base : Nat) (c : Char) : Option Nat := (hexValue? c).filter fun d => decide (d < base)

def ofBaseDigits? (base : Nat) (cs : List Char) : Option Nat :=
  cs.foldlM (fun n c => (baseDigit? base c).map (base * n + ·)) 0

/-- an integer from its text to a base, which a zero and the mark of the base may open -/
def baseInteger? (base : Nat) (mark : Char) (s : List Char) : Option Int := do
  let plain ← (strip s).mapM asciiNumeral?
  let (neg, cs) := takeSign plain
  let body := match cs with
    | '0' :: x :: rest => if x.toLower = mark ∧ !rest.isEmpty then rest else cs
    | _ => cs
  let body := if body.length < cs.length && body.head? == some '_' then body.drop 1 else body
  let ds ← joinDigits? (fun c => (baseDigit? base c).isSome) false body
  if ds.isEmpty then none else (ofBaseDigits? base ds).map (signed neg)

def hexInteger? (s : List Char) : Option Int := baseInteger? 16 'x' s

/-- the quotient rounded to the nearest whole number, a half to the even one -/
def roundDiv (num den : Nat) : Nat :=
  let q := num / den
  let r := num % den
  if 2 * r < den then q else if 2 * r = den then q + q % 2 else q + 1

end Intake.Number
