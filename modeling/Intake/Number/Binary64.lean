/-
Binary floating-point numbers of 64 bits, as exact values.

A finite datum is a sign, a mantissa and a power of two; beside these stand the two infinities and the
not-a-number data, which carry a payload. Arithmetic on them is never done in floating point: every
operation the library needs is an exact computation on integers followed by one rounding (`ofRatio`), so
each of its results can be reasoned about.

A finite datum made by this module is in canonical form (`Canonical`): the mantissa has 53 bits, or the
exponent is the least one.
-/
import Intake.Number.Numeral

namespace Intake.Number

open Intake.Text

/-- a 64-bit binary floating-point datum -/
inductive Binary64 where
  /-- not a number; the payload tells apart the data that arise separately -/
  | nan (payload : Nat)
  | infinite (negative : Bool)
  /-- `± mantissa · 2 ^ exponent` -/
  | finite (negative : Bool) (mantissa : Nat) (exponent : Int)
  deriving DecidableEq, Repr, Inhabited

namespace Binary64

def precision : Nat := 53

/-- the power of two of the smallest positive datum -/
def minExponent : Int := -1074

/-- the largest power of two that stands beside a full mantissa -/
def maxExponent : Int := 971

/-- the form in which each finite value has one datum -/
def Canonical : Binary64 → Prop
  | .finite _ m e =>
    m < Nat.pow 2 precision ∧ minExponent ≤ e ∧ e ≤ maxExponent ∧ (Nat.pow 2 (precision - 1) ≤ m ∨ e = minExponent)
  | _ => True

instance (x : Binary64) : Decidable x.Canonical := by
  cases x <;> unfold Canonical <;> infer_instance

def zero (negative : Bool) : Binary64 := .finite negative 0 minExponent

/-- `num / (den · 2 ^ e)` as a fraction of natural numbers -/
def scale (num den : Nat) (e : Int) : Nat × Nat :=
  if e < 0 then (num * Nat.pow 2 e.natAbs, den) else (num, den * Nat.pow 2 e.natAbs)

/-- the largest `e` with `2 ^ e ≤ num / den`, for a positive fraction -/
def floorLog2 (num den : Nat) : Int :=
  let e : Int := (num.log2 : Int) - den.log2
  let (n, d) := scale num den e
  if d ≤ n then e else e - 1

/-- the datum nearest to `± num / den`, ties to the even mantissa, beyond the range an infinity -/
def ofRatio (negative : Bool) (num den : Nat) : Binary64 :=
  if num = 0 then zero negative
  else
    let e := max (floorLog2 num den - (precision - 1)) minExponent
    let (n, d) := scale num den e
    let m := roundDiv n d
    let (m, e) := if m = Nat.pow 2 precision then (Nat.pow 2 (precision - 1), e + 1) else (m, e)
    if maxExponent < e then .infinite negative else .finite negative m e

def ofInt (n : Int) : Binary64 := ofRatio (decide (n < 0)) n.natAbs 1

/-- the datum nearest to `± digits · 10 ^ exponent`; far outside the range the power is not computed -/
def ofScientific (negative : Bool) (coefficient : Nat) (exponent : Int) : Binary64 :=
  if coefficient = 0 then zero negative
  else
    let adjusted := exponent + digitCount coefficient - 1
    if 310 < adjusted then .infinite negative
    else if adjusted < -330 then zero negative
    else if exponent < 0 then ofRatio negative coefficient (Nat.pow 10 exponent.natAbs)
    else ofRatio negative (coefficient * Nat.pow 10 exponent.natAbs) 1

def isFinite : Binary64 → Bool
  | .finite .. => true
  | _ => false

/-- the magnitude of a finite datum as a fraction -/
def ratio (mantissa : Nat) (exponent : Int) : Nat × Nat :=
  if exponent < 0 then (mantissa, Nat.pow 2 exponent.natAbs) else (mantissa * Nat.pow 2 exponent.natAbs, 1)

/-- the whole part, toward zero; only finite data have one -/
def truncate? : Binary64 → Option Int
  | .finite neg m e => let (n, d) := ratio m e; some (signed neg (n / d))
  | _ => none

def isWhole : Binary64 → Bool
  | .finite _ m e => let (n, d) := ratio m e; n % d == 0
  | _ => false

def isZero : Binary64 → Bool
  | .finite _ m _ => m == 0
  | _ => false

/-! ## Reading -/

/-- the infinities and the not-a-number datum by name, in any case -/
def ofName? (negative : Bool) (cs : List Char) : Option Binary64 :=
  let low := cs.map Char.toLower
  if low = "inf".toList ∨ low = "infinity".toList then some (.infinite negative)
  else if low = "nan".toList then some (.nan 0)
  else none

/-- a datum from its text, correctly rounded: blanks around it, a sign, a numeral whose digits low lines may
group, or a name -/
def ofText? (s : List Char) : Option Binary64 := do
  let plain ← (strip s).mapM asciiNumeral?
  let plain ← if plain.contains '_' then joinDigits? Char.isDigit false plain else some plain
  let (neg, cs) := takeSign plain
  match scientific? cs with
  | some (c, e) => some (ofScientific neg c e)
  | none => ofName? neg cs

/-! ## Sums and products -/

def ofBinary (n : Int) (e : Int) : Binary64 :=
  let (num, den) := ratio n.natAbs e
  ofRatio (decide (n < 0)) num den

/-- the sum, rounded once -/
def add : Binary64 → Binary64 → Binary64
  | .nan p, _ => .nan p
  | _, .nan p => .nan p
  | .infinite s, .infinite t => if s = t then .infinite s else .nan 0
  | .infinite s, .finite .. => .infinite s
  | .finite .., .infinite t => .infinite t
  | .finite s m e, .finite t n f =>
    let low := min e f
    let sum := signed s (m * Nat.pow 2 (e - low).natAbs) + signed t (n * Nat.pow 2 (f - low).natAbs)
    if sum = 0 then zero (s && t) else ofBinary sum low

/-- the product, rounded once -/
def mul : Binary64 → Binary64 → Binary64
  | .nan p, _ => .nan p
  | _, .nan p => .nan p
  | .infinite s, .infinite t => .infinite (s != t)
  | .infinite s, .finite t n _ => if n = 0 then .nan 0 else .infinite (s != t)
  | .finite s m _, .infinite t => if m = 0 then .nan 0 else .infinite (s != t)
  | .finite s m e, .finite t n f =>
    let (num, den) := ratio (m * n) (e + f)
    ofRatio (s != t) num den

def neg : Binary64 → Binary64
  | .nan p => .nan p
  | .infinite s => .infinite (!s)
  | .finite s m e => .finite (!s) m e

/-! ## Shortest decimal text -/

/-- the largest `k` with `10 ^ k ≤ num / den`, for a positive fraction -/
def floorLog10 (num den : Nat) : Int :=
  let k : Int := (digitCount num : Int) - digitCount den
  let reached := if k < 0 then den ≤ num * Nat.pow 10 k.natAbs else den * Nat.pow 10 k.natAbs ≤ num
  if reached then k else k - 1

/-- the value's lower neighbour on the grid of `10 ^ k`, and twice its distance compared to the grid -/
def onGrid (num den : Nat) (k : Int) : Nat × Ordering :=
  let (n, d) := if k < 0 then (num * Nat.pow 10 k.natAbs, den) else (num, den * Nat.pow 10 k.natAbs)
  (n / d, compare (2 * (n % d)) d)

/-- the fewest digits, at most `fuel` more than `count`, that read back as the datum; of two such numerals
of one length the nearer, of two equally near the even one -/
def shortestFrom (m : Nat) (e : Int) (num den : Nat) (top : Int) : Nat → Nat → Nat × Int
  | 0, count =>
    let k := top - count + 1
    let (low, _) := onGrid num den k
    (low, k)
  | fuel + 1, count =>
    let k := top - count + 1
    let (low, side) := onGrid num den k
    let readsBack (c : Nat) : Bool := decide (ofScientific false c k = .finite false m e)
    let nearer := match side with
      | .lt => low
      | .gt => low + 1
      | .eq => low + low % 2
    let other := if nearer = low then low + 1 else low
    if readsBack nearer then (nearer, k)
    else if readsBack other then (other, k)
    else shortestFrom m e num den top fuel (count + 1)

/-- the digits and the power of ten of the shortest numeral that reads back as a positive datum; a datum just
below a power of ten may be written by the power itself -/
def shortest (m : Nat) (e : Int) : Nat × Int :=
  let (num, den) := ratio m e
  let (c, k) := shortestFrom m e num den (floorLog10 num den) 17 1
  if c = 10 then (1, k + 1) else (c, k)

/-- an exponent with its sign and at least two digits -/
def exponentText (e : Int) : List Char :=
  let ds := digits e.natAbs
  (if e < 0 then '-' else '+') :: (if ds.length < 2 then '0' :: ds else ds)

/-- the text of a positive datum: positional from `10 ^ -4` up to below `10 ^ 16`, else with an exponent;
the positional form always has a point -/
def positiveText (m : Nat) (e : Int) : List Char :=
  let (c, k) := shortest m e
  let ds := digits c
  let point : Int := ds.length + k
  if -4 < point ∧ point ≤ 16 then
    if point ≤ 0 then '0' :: '.' :: (List.replicate point.natAbs '0' ++ ds)
    else if (ds.length : Int) ≤ point then ds ++ List.replicate (point.natAbs - ds.length) '0' ++ ['.', '0']
    else ds.take point.natAbs ++ '.' :: ds.drop point.natAbs
  else
    let mantissa := match ds with
      | [] => []
      | [d] => [d]
      | d :: rest => d :: '.' :: rest
    mantissa ++ 'e' :: exponentText (point - 1)

/-- the text of a datum, shortest among those that read back -/
def text : Binary64 → List Char
  | .nan _ => "nan".toList
  | .infinite s => if s then "-inf".toList else "inf".toList
  | .finite s m e =>
    let body := if m = 0 then "0.0".toList else positiveText m e
    if s then '-' :: body else body

end Binary64

end Intake.Number
