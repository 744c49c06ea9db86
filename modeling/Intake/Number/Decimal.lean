/-
Decimal numbers: a sign, a coefficient and a power of ten, so that `1.50` and `1.5` are equal and yet
written differently. Beside the finite ones stand the infinities and the not-a-number data, quiet and
signaling.

Finite decimals hold every other kind of number exactly (`ofInt`, `ofBinary64`), so the order of decimals
(`compareFinite`) is the order of numbers of any kinds. Exponents may be astronomically large: comparing,
testing for a whole number and taking the whole part never compute a power of ten beyond the digits that
matter.
-/
import Intake.Number.Binary64

namespace Intake.Number

open Intake.Text

/-- a decimal number -/
inductive Decimal where
  /-- `± coefficient · 10 ^ exponent` -/
  | finite (negative : Bool) (coefficient : Nat) (exponent : Int)
  | infinite (negative : Bool)
  /-- not a number; `note` is its diagnostic number, zero when there is none, and `serial` tells apart the
  data that arise separately -/
  | nan (negative : Bool) (signaling : Bool) (note : Nat) (serial : Nat)
  deriving DecidableEq, Repr, Inhabited

namespace Decimal

def maxAdjusted : Int := 999999999999999999

def minExponent : Int := -1999999999999999997

def ofInt (n : Int) : Decimal := .finite (decide (n < 0)) n.natAbs 0

def adjustedOf (coefficient : Nat) (exponent : Int) : Int := exponent + digitCount coefficient - 1

def isFinite : Decimal → Bool
  | .finite .. => true
  | _ => false

/-- a finite binary datum is a decimal: `2 ^ -k` is `5 ^ k · 10 ^ -k` -/
def ofBinary64 : Binary64 → Decimal
  | .nan p => .nan false false 0 p
  | .infinite s => .infinite s
  | .finite s m e =>
    if e < 0 then .finite s (m * Nat.pow 5 e.natAbs) e else .finite s (m * Nat.pow 2 e.natAbs) 0

/-! ## Reading -/

/-- a numeral of the exact kind: its leading and last digit lie within the bounds of exponents -/
def ofNumeral (negative : Bool) (cs : List Char) : Option Decimal := do
  let (coefficient, exponent) ← scientific? cs
  let top := if coefficient = 0 then exponent else adjustedOf coefficient exponent
  if minExponent ≤ exponent ∧ top ≤ maxAdjusted then some (.finite negative coefficient exponent) else none

/-- the special values by name, in any case; a not-a-number datum may carry a diagnostic number -/
def ofName (negative : Bool) (cs : List Char) : Option Decimal :=
  let low := cs.map Char.toLower
  if low = "inf".toList ∨ low = "infinity".toList then some (.infinite negative)
  else
    let signaling := low.head? = some 's'
    let body := if signaling then low.drop 1 else low
    if body.take 3 = "nan".toList ∧ (body.drop 3).all Char.isDigit then
      some (.nan negative signaling (ofDigits (body.drop 3)) 0)
    else none

/-- a decimal from its text; blanks around it and low lines anywhere in it do not count -/
def ofText? (s : List Char) : Option Decimal := do
  let plain ← (strip s).mapM asciiNumeral?
  let (neg, cs) := takeSign (plain.filter (· != '_'))
  (ofNumeral neg cs).or (ofName neg cs)

/-! ## Writing -/

def exponentText (e : Int) : List Char :=
  'E' :: (if e < 0 then '-' else '+') :: digits e.natAbs

/-- positional when no exponent is needed and at most five zeros follow the point, else scientific -/
def finiteText (coefficient : Nat) (exponent : Int) : List Char :=
  let ds := digits coefficient
  let adjusted := adjustedOf coefficient exponent
  if exponent ≤ 0 ∧ -6 ≤ adjusted then
    if exponent = 0 then ds
    else
      let places := exponent.natAbs
      if ds.length ≤ places then '0' :: '.' :: (List.replicate (places - ds.length) '0' ++ ds)
      else ds.take (ds.length - places) ++ '.' :: ds.drop (ds.length - places)
  else
    let mantissa := match ds with
      | d :: e :: rest => d :: '.' :: e :: rest
      | ds => ds
    mantissa ++ exponentText adjusted

/-- the text of a decimal; every digit of the coefficient is kept -/
def text : Decimal → List Char
  | .finite s c e => (if s then ['-'] else []) ++ finiteText c e
  | .infinite s => (if s then ['-'] else []) ++ "Infinity".toList
  | .nan s sig note _ =>
    (if s then ['-'] else []) ++ (if sig then ['s'] else []) ++ "NaN".toList ++ (if note = 0 then [] else digits note)

/-! ## Order -/

/-- the order of two positive magnitudes: by the leading digit's place, then by the digits brought to one
exponent -/
def compareMagnitude (c : Nat) (e : Int) (d : Nat) (f : Int) : Ordering :=
  match compare (adjustedOf c e) (adjustedOf d f) with
  | .eq => if e ≤ f then compare c (d * Nat.pow 10 (f - e).natAbs) else compare (c * Nat.pow 10 (e - f).natAbs) d
  | o => o

/-- the order of two finite decimals; a zero has no sign -/
def compareFinite (s : Bool) (c : Nat) (e : Int) (t : Bool) (d : Nat) (f : Int) : Ordering :=
  if c = 0 then if d = 0 then .eq else if t then .gt else .lt
  else if d = 0 then if s then .lt else .gt
  else match s, t with
    | false, true => .gt
    | true, false => .lt
    | false, false => compareMagnitude c e d f
    | true, true => compareMagnitude d f c e

/-- the order of two decimals; with a not-a-number datum there is none -/
def compare? : Decimal → Decimal → Option Ordering
  | .finite s c e, .finite t d f => some (compareFinite s c e t d f)
  | .infinite s, .infinite t => some (if s = t then .eq else if s then .lt else .gt)
  | .infinite s, .finite .. => some (if s then .lt else .gt)
  | .finite .., .infinite t => some (if t then .gt else .lt)
  | _, _ => none

def numEq (x y : Decimal) : Bool := compare? x y == some .eq

/-! ## Whole numbers -/

/-- a whole number: the places after the point are all zero -/
def isWhole : Decimal → Bool
  | .finite _ c e =>
    if 0 ≤ e ∨ c = 0 then true
    else if digitCount c ≤ e.natAbs then false
    else c % Nat.pow 10 e.natAbs == 0
  | _ => false

/-- the whole part, toward zero -/
def truncate? : Decimal → Option Int
  | .finite s c e =>
    if c = 0 then some 0
    else if 0 ≤ e then some (signed s (c * Nat.pow 10 e.natAbs))
    else if digitCount c ≤ e.natAbs then some 0
    else some (signed s (c / Nat.pow 10 e.natAbs))
  | _ => none

def toBinary64 : Decimal → Binary64
  | .finite s c e => Binary64.ofScientific s c e
  | .infinite s => .infinite s
  | .nan _ _ _ serial => .nan serial

def isZero : Decimal → Bool
  | .finite _ c _ => c == 0
  | _ => false

end Decimal

end Intake.Number
