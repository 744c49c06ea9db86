/-
The notions of JSON Schema (Draft 2020-12) that checking schemas and validating values share: the types of
values, equality that keeps booleans apart from numbers, distinct elements, and the order of numbers.

A hash is an object and a list is an array; tuples and read-only mappings are neither. A decimal is a number.
-/
import Intake.Fault
import Intake.Pattern.Reader
import Intake.Pattern.Search

namespace Intake.JsonSchema

open Intake.Number

def isNumber : Value → Bool
  | .int _ | .float _ | .decimal _ => true
  | _ => false

def isInteger : Value → Bool
  | .int _ => true
  | .float x => x.isWhole
  | _ => false

def typeNames : List String := ["array", "boolean", "integer", "null", "number", "object", "string"]

/-- a value is of a type by name -/
def isType (name : String) (v : Value) : Bool :=
  match name with
  | "array" => match v with
    | .list _ => true
    | _ => false
  | "boolean" => match v with
    | .bool _ => true
    | _ => false
  | "integer" => isInteger v
  | "null" => match v with
    | .null => true
    | _ => false
  | "number" => isNumber v
  | "object" => v.hash?.isSome
  | "string" => v.text?.isSome
  | _ => false

def sequence? : Value → Option (List Value)
  | .list xs | .tuple xs => some xs
  | .bytes _ bs => some (bs.map fun b => .int b.toNat)
  | _ => none

mutual

/-- equality in which a boolean is no number, and sequences are equal by their elements -/
def equal : Value → Value → Bool
  | .bool a, y => match y with
    | .bool b => a == b
    | _ => false
  | .list xs, y => match sequence? y with
    | some ys => equalAll xs ys
    | none => false
  | .tuple xs, y => match sequence? y with
    | some ys => equalAll xs ys
    | none => false
  | .map _ es, y => match y with
    | .map _ fs => es.length == fs.length && equalEntries es fs
    | _ => false
  | x, y => match y with
    | .bool _ => false
    | y => x.same y

def equalAll : List Value → List Value → Bool
  | [], [] => true
  | x :: xs, y :: ys => equal x y && equalAll xs ys
  | _, _ => false

/-- every entry has its key among the others, with an equal value there -/
def equalEntries : List (Value × Value) → List (Value × Value) → Bool
  | [], _ => true
  | (k, v) :: es, fs =>
    (match Value.lookup? k fs with
      | some w => equal v w
      | none => false) && equalEntries es fs

end

def distinct : List Value → Bool
  | [] => true
  | x :: xs => !xs.any (equal x) && distinct xs

/-- the order of two numbers. A binary not-a-number datum has no order, and comparing with a decimal one is a
fault -/
def order (x y : Value) : Outcome (Option Ordering) :=
  match x, y with
  | .decimal (.nan ..), _ | _, .decimal (.nan ..) => .error .signaled
  | x, y =>
    match x.numeric?, y.numeric? with
    | some a, some b => .ok (a.compare? b)
    | _, _ => .error .illTyped

def orderCount (n : Nat) (bound : Value) : Outcome (Option Ordering) := order (.int n) bound

/-- a decimal is no multiple of another: the remainder is not zero. A quotient of more than 28 digits is a
fault -/
def decimalRemains (x y : Decimal) : Outcome Bool :=
  match x, y with
  | .finite _ c e, .finite _ d f =>
    if d = 0 then .error .signaled
    else if c = 0 then .ok false
    else if 28 < Decimal.adjustedOf c e - Decimal.adjustedOf d f then .error .signaled
    else if Decimal.adjustedOf c e < Decimal.adjustedOf d f then .ok true
    else
      let low := min e f
      let a := c * Nat.pow 10 (e - low).toNat
      let b := d * Nat.pow 10 (f - low).toNat
      if Nat.pow 10 28 ≤ a / b then .error .signaled else .ok (a % b != 0)
  | .finite _ c _, .infinite _ => .ok (c != 0)
  | _, _ => .error .signaled

/-- a number is no multiple of another. By a binary number the quotient is taken in binary, unless it is out of
range; by any other the remainder is exact -/
def isNoMultiple (x y : Value) : Outcome Bool :=
  match y with
  | .float b =>
    match x with
    | .decimal _ => .error .illTyped
    | _ =>
      let a : Binary64 := match x with
        | .int n => Binary64.ofInt n
        | .float a => a
        | _ => .nan 0
      match a, b with
      | .nan _, _ | _, .nan _ => .error .badValue
      | .infinite _, .infinite _ => .error .badValue
      | .infinite _, _ => .error .outOfRange
      | _, .infinite _ => .ok false
      | .finite s m e, .finite t n f =>
        let (p, q) := Binary64.ratio m e
        let (u, v) := Binary64.ratio n f
        match Binary64.ofRatio (s != t) (p * v) (q * u) with
        | .infinite _ => .ok ((p * v) % (q * u) != 0)
        | quotient => .ok (!quotient.isWhole)
  | _ =>
    match x with
    | .float a =>
      match y with
      | .int n =>
        match a, Binary64.ofInt n with
        | _, .infinite _ => .error .outOfRange
        | .finite _ m e, .finite _ k f =>
          let (p, q) := Binary64.ratio m e
          let (u, v) := Binary64.ratio k f
          .ok ((p * v) % (q * u) != 0)
        | _, _ => .ok true
      | _ => .error .illTyped
    | _ =>
      match x, y with
      | .int a, .int b => .ok (a % b != 0)
      | _, _ =>
        match x.numeric?, y.numeric? with
        | some a, some b => decimalRemains a b
        | _, _ => .error .illTyped

/-- a refusal that is no word on the pattern is a fault -/
def faultOf? : Pattern.Refusal → Option Fault
  | .invalid => none
  | .tooMany => some .outOfRange
  | .badValue => some .badValue
  | .tooDeep => some .tooDeep
  | .named => some .notKept

/-- the fault that reading a text as a pattern ends in -/
def patternFault? (s : String) : Option Fault :=
  match Pattern.compile s.toList with
  | .ok _ => none
  | .error e => faultOf? e

/-- the result of searching a text for a pattern; a pattern that is refused matches nothing -/
def matchesText (pattern text : String) : Bool :=
  match Pattern.compile pattern.toList with
  | .ok p => p.search text.toList
  | .error _ => false

def isPattern (s : String) : Bool :=
  match Pattern.compile s.toList with
  | .ok _ => true
  | .error _ => false

end Intake.JsonSchema
