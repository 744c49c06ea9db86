/-
Calling the functions and classes that a caller declares as rules, and reading their answers.

A class called with a value is its constructor: the built-in ones convert more liberally than casting does,
and fail in their own ways.
-/
import Intake.Cast.Scalar
import Intake.Instance

namespace Intake

open Intake.Number Intake.Calendar

namespace Value

def rangeElements (a b s : Int) : List Value :=
  (List.range (rangeSize a b s)).map fun (i : Nat) => .int (a + (i : Int) * s)

/-- the elements of a value, one after another; what has none is of a wrong kind -/
def iterate (v : Value) : Outcome (List Value) :=
  match v with
  | .list xs | .tuple xs | .set _ xs => .ok xs
  | .map _ es => .ok (es.map (·.1))
  | .text s | .textMember s => .ok (s.toList.map fun c => .text (String.singleton c))
  | .bytes _ bs => .ok (bs.map fun b => .int b.toNat)
  | .range a b s => .ok (rangeElements a b s)
  | .parsed p => .ok (p.pairs.map fun (name, w) => .tuple [.text name, w])
  | _ => .error .illTyped

def pair (v : Value) : Outcome (Value × Value) := do
  match ← v.iterate with
  | [k, w] => .ok (k, w)
  | _ => .error .badValue

end Value

/-- an integer from a value of any kind, cut toward zero -/
def makeInteger (v : Value) : Outcome Value :=
  match v with
  | .bool b => .ok (.int (if b then 1 else 0))
  | .int _ => .ok v
  | .float x => match x with
    | .infinite _ => .error .outOfRange
    | x => Cast.orBad (x.truncate?.map .int)
  | .decimal d => match d with
    | .infinite _ => .error .outOfRange
    | d => Cast.orBad (d.truncate?.map .int)
  | .text s | .textMember s => Cast.orBad ((integer? s.toList).map .int)
  | .bytes _ bs => Cast.orBad ((integer? (bs.map fun b => Char.ofNat b.toNat)).map .int)
  | _ => .error .illTyped

/-- a binary number from a value of any kind -/
def makeFloat (v : Value) : Outcome Value :=
  match v with
  | .bool b => .ok (.float (Binary64.ofInt (if b then 1 else 0)))
  | .int n => (Cast.floatOfInt n).map .float
  | .float _ => .ok v
  | .decimal d => match d with
    | .nan _ true _ _ => .error .badValue
    | d => .ok (.float d.toBinary64)
  | .text s | .textMember s => Cast.orBad ((Binary64.ofText? s.toList).map .float)
  | _ => .error .illTyped

/-- a decimal from a value of any kind; text that is no numeral is an invalid operation -/
def makeDecimal (v : Value) : Outcome Value :=
  match v with
  | .bool b => .ok (.decimal (Decimal.ofInt (if b then 1 else 0)))
  | .int n => .ok (.decimal (Decimal.ofInt n))
  | .float x => .ok (.decimal (Decimal.ofBinary64 x))
  | .decimal _ => .ok v
  | .text s | .textMember s => match Decimal.ofText? s.toList with
    | some d => .ok (.decimal d)
    | none => .error .signaled
  | .list _ | .tuple _ => .error .badValue
  | _ => .error .illTyped

def makeHash (v : Value) : Outcome Value := do
  match v with
  | .map _ es => .ok (.map false es)
  | v =>
    let pairs ← (← v.iterate).mapM Value.pair
    .ok (.map false (Value.ofEntries pairs))

/-- the constructor of a type, called with one value -/
def ValueType.call (t : ValueType) (v : Value) : Outcome Value :=
  match t with
  | .text => v.plain.map .text
  | .integer => makeInteger v
  | .float => makeFloat v
  | .decimal => makeDecimal v
  | .boolean => .ok (.bool v.truthy)
  | .date | .moment => .error .illTyped
  | .time => match v with
    | .int n => Cast.orBad ((Time.make? n.toNat 0 0 0 none).bind fun t => if n < 0 then none else some (.time t))
    | _ => .error .illTyped
  | .uuid => match v with
    | .text s | .textMember s => Cast.orBad ((Uuid.ofText? s.toList).map .uuid)
    | v => .error (.noAttribute ("'" ++ v.className ++ "' object has no attribute 'replace'"))
  | .array => v.iterate.map .list
  | .hash => makeHash v
  | .custom c => Cast.construct c v

def Value.call (f v : Value) : Outcome Value :=
  match f with
  | .answers _ w => .ok w
  | .echoes _ => do .ok (.list [.text ("got " ++ (← v.shown))])
  | .type t => t.call v
  | _ => .error .illTyped

/-- the messages in the answer of a function: none for nothing and for true, one for false, a text as it is,
and the texts of the elements of all else -/
def answerMessages (w : Value) : Outcome (List Value) :=
  match w with
  | .null => .ok []
  | .bool true => .ok []
  | .bool false => .ok [.text "is invalid"]
  | .text _ | .textMember _ => .ok [w]
  | w => do (← w.iterate).mapM fun m => do .ok (.text (← m.plain))

end Intake
