/-
Converting raw values to the built-in types.

Each converter takes the values that it can convert, and fails on every other with a fault of the kind that
casting turns into a failure of the attribute (`Fault.isCastFault`): a value of a wrong kind, a bad value, or
a number out of range. One fails in another way, too: a value that is no boolean is quoted, and the quoting of a value
that is nested too deep is broken off. A boolean is never taken for a number.
-/
import Intake.KeyView
import Intake.Calendar.Iso
import Intake.Text.LetterCase

namespace Intake.Cast

open Intake.Text Intake.Number Intake.Calendar

def orBad {α : Type} : Option α → Outcome α
  | some x => .ok x
  | none => .error .badValue

/-- the text of a value without the blanks around it -/
def stripped (s : String) : List Char := strip s.toList

/-- a text: texts as they are, booleans, numbers, identifiers and dates in their canonical form -/
def toText (v : Value) : Outcome Value :=
  match v with
  | .text _ | .textMember _ => .ok v
  | .bool b => .ok (.text (if b then "true" else "false"))
  | .int _ | .float _ | .decimal _ | .uuid _ => v.plain.map .text
  | .date d => .ok (.text (String.ofList d.text))
  | .moment m => .ok (.text (String.ofList m.text))
  | .time t => .ok (.text (String.ofList t.text))
  | _ => .error .illTyped

/-- the grammar of integers in text: a sign, digits, and perhaps a point that only zeros follow -/
def integerText? (cs : List Char) : Option Int :=
  let (neg, body) := takeSign cs
  let ds := body.takeWhile isDecimalDigit
  let tail := match body.dropWhile isDecimalDigit with
    | [] => true
    | c :: zeros => c == '.' && zeros.all (· == '0')
  if !ds.isEmpty && tail then (ofDigits? ds).map (signed neg) else none

/-- an integer: whole numbers of any kind, and integers in text -/
def toInteger (v : Value) : Outcome Value :=
  match v with
  | .int _ => .ok v
  | .decimal d =>
    match d with
    | .finite _ c e =>
      if (maxDigits : Int) ≤ Decimal.adjustedOf c e then .error .badValue
      else if d.isWhole then orBad (d.truncate?.map .int) else .error .badValue
    | _ => .error .badValue
  | .float x =>
    match x with
    | .nan _ => .error .badValue
    | .infinite _ => .error .outOfRange
    | _ => if x.isWhole then orBad (x.truncate?.map .int) else .error .badValue
  | .text s | .textMember s => orBad ((integerText? (stripped s)).map .int)
  | _ => .error .illTyped

/-- the binary datum of an integer; beyond the range there is none -/
def floatOfInt (n : Int) : Outcome Binary64 :=
  match Binary64.ofInt n with
  | .infinite _ => .error .outOfRange
  | x => .ok x

/-- a finite binary number: numbers of any kind, and their text -/
def toFloat (v : Value) : Outcome Value := do
  let x ← match v with
    | .int n => floatOfInt n
    | .float x => .ok x
    | .decimal d => .ok d.toBinary64
    | .text s | .textMember s => orBad (Binary64.ofText? (stripped s))
    | _ => .error .illTyped
  if x.isFinite then .ok (.float x) else .error .badValue

/-- a finite decimal; a binary number is taken by its shortest text. A member of an enumeration is taken by
the text that it shows, which is no numeral -/
def toDecimal (v : Value) : Outcome Value := do
  let d ← match v with
    | .decimal d => .ok d
    | .int n => .ok (Decimal.ofInt n)
    | .float x => orBad (Decimal.ofText? x.text)
    | .text s => orBad (Decimal.ofText? s.toList)
    | .textMember _ => .error .badValue
    | _ => .error .illTyped
  if d.isFinite then .ok (.decimal d) else .error .badValue

def trueWords : List String := ["true", "1", "yes", "on", "t", "y"]

def falseWords : List String := ["false", "0", "no", "off", "f", "n"]

/-- a boolean: booleans, the integers 0 and 1, and the words for them in any case -/
def toBoolean (v : Value) : Outcome Value :=
  match v with
  | .bool _ => .ok v
  | .int n => if n = 0 then .ok (.bool false) else if n = 1 then .ok (.bool true) else .error .badValue
  | .text s | .textMember s =>
    let word := String.ofList (lower (stripped s))
    if trueWords.contains word then .ok (.bool true)
    else if falseWords.contains word then .ok (.bool false)
    else .error .badValue
  -- the failure quotes the value
  | _ => do
    let _ ← v.shown
    .error .badValue

/-- a date: dates, the date of a moment, and dates in text -/
def toDate (v : Value) : Outcome Value :=
  match v with
  | .moment m => .ok (.date m.date)
  | .date _ => .ok v
  | .text s | .textMember s => orBad ((Iso.date? (stripped s)).map .date)
  | _ => .error .illTyped

/-- the text of a moment with a final `Z` written as an offset -/
def zuluAsOffset (cs : List Char) : List Char :=
  match cs.reverse with
  | c :: rest => if c = 'Z' ∨ c = 'z' then rest.reverse ++ "+00:00".toList else cs
  | [] => []

/-- a moment: moments, dates at midnight, moments in text, and timestamps -/
def toMoment (v : Value) : Outcome Value :=
  match v with
  | .moment _ => .ok v
  | .date d => .ok (.moment ⟨d, Time.midnight⟩)
  | .text s | .textMember s => orBad ((Iso.moment? (zuluAsOffset (stripped s))).map .moment)
  | .int n => orBad ((Moment.ofWholeTimestamp? n).map .moment)
  | .float x => orBad ((Moment.ofTimestamp? x).map .moment)
  | _ => .error .illTyped

def toTime (v : Value) : Outcome Value :=
  match v with
  | .time _ => .ok v
  | .text s | .textMember s => orBad ((Iso.time? (stripped s)).map .time)
  | _ => .error .illTyped

def toUuid (v : Value) : Outcome Value :=
  match v with
  | .uuid _ => .ok v
  | .text s | .textMember s => orBad ((Uuid.ofText? (stripped s)).map .uuid)
  | _ => .error .illTyped

def toList (v : Value) : Outcome Value :=
  match v with
  | .list xs | .tuple xs => .ok (.list xs)
  | _ => .error .illTyped

def toHash (v : Value) : Outcome Value :=
  match v with
  | .map _ es => .ok (.map false es)
  | _ => .error .illTyped

/-- the constructor of a class brought by the caller, which makes a new object -/
def construct (c : HostClass) (v : Value) : Outcome Value :=
  match c.construction with
  | .keepsAny => .ok (.object c .new [v])
  | .keepsTruthy => if v.truthy then .ok (.object c .new [v]) else .error .badValue
  | .takesNone => .error .illTyped

end Intake.Cast
