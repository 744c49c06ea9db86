/-
The settings that a definition is built with: how deep its schemas may be nested, and whether values must
already be of their declared types.

Settings are read leniently. The depth may be an integer in text, a whole number or a boolean; the strictness
may be a word or one of the numbers 0 and 1. Every problem is reported, the known fields first, then the
unknown ones in order.

Main statement: the depth is always between one and the limit (`Settings.inRange`).
-/
import Intake.Cast.Scalar

namespace Intake

open Intake.Text Intake.Number

/-- the deepest nesting that settings can allow -/
def depthLimit : Nat := 1000

/-- settings of a definition -/
structure Settings where
  maxDepth : Nat
  strictTypes : Bool
  inRange : 1 ≤ maxDepth ∧ maxDepth ≤ depthLimit
  deriving DecidableEq

namespace Settings

/-- the settings of a definition that names none -/
def default : Settings := ⟨32, false, by decide⟩

/-- an integer in text: a sign, digits that low lines may group, and perhaps a point that only zeros follow -/
def integerText? (cs : List Char) : Option Int :=
  let (neg, body) := takeSign (strip cs)
  let whole := body.takeWhile (· != '.')
  let zeros := (body.dropWhile (· != '.')).drop 1
  match joinDigits? Char.isDigit false whole with
  | some ds =>
    if !ds.isEmpty && ds.all Char.isDigit && zeros.all (· == '0') then (ofDigits? ds).map (signed neg) else none
  | none => none

/-- an integer, read leniently -/
def readInteger (v : Value) : Except SettingsProblem Int :=
  match v with
  | .int n => .ok n
  | .bool b => .ok (if b then 1 else 0)
  | .float x =>
    match x.truncate? with
    | none => .error .notFinite
    | some n => if x.isWhole then .ok n else .error .fractional
  | .decimal d =>
    if !d.isFinite then .error .notFinite
    else if d.isWhole then .ok (d.truncate?.getD 0)
    else .error .fractional
  | .text s | .textMember s =>
    match integerText? s.toList with
    | some n => .ok n
    | none => .error .noInteger
  | .bytes false bs =>
    match integerText? (decodeUtf8 bs) with
    | some n => .ok n
    | none => .error .noInteger
  | _ => .error .notIntegral

def readDepth (v : Value) : Except SettingsProblem { n : Nat // 1 ≤ n ∧ n ≤ depthLimit } := do
  let n ← readInteger v
  if n < 1 then .error .tooSmall
  else if h : 1 ≤ n.toNat ∧ n.toNat ≤ depthLimit then .ok ⟨n.toNat, h⟩
  else .error .tooLarge

def trueWords : List String := ["1", "true", "t", "yes", "y", "on"]

def falseWords : List String := ["0", "false", "f", "no", "n", "off"]

def readWord (s : String) : Except SettingsProblem Bool :=
  let word := String.ofList (s.toList.map Char.toLower)
  if trueWords.contains word then .ok true
  else if falseWords.contains word then .ok false
  else .error .noBoolean

/-- a truth value, read leniently -/
def readBoolean (v : Value) : Except SettingsProblem Bool :=
  match v with
  | .bool b => .ok b
  | .int n => if n = 0 then .ok false else if n = 1 then .ok true else .error .noBoolean
  | .float x =>
    if x.isWhole then
      match x.truncate? with
      | some 0 => .ok false
      | some 1 => .ok true
      | _ => .error .noBoolean
    else .error .notBoolean
  | .decimal d =>
    if d.numEq (Decimal.ofInt 0) then .ok false
    else if d.numEq (Decimal.ofInt 1) then .ok true
    else if d.isWhole then .error .noBoolean
    else .error .notBoolean
  | .text s | .textMember s => readWord s
  | .bytes false bs => readWord (String.ofList (decodeUtf8 bs))
  | _ => .error .notBoolean

/-- the problem of a field, if reading it failed -/
def problemOf {α : Type} (field : String) (r : Except SettingsProblem α) : List (SettingsProblem × String) :=
  match r with
  | .ok _ => []
  | .error p => [(p, field)]

def readField {α : Type} (es : List (Value × Value)) (field : String) (absent : α)
    (read : Value → Except SettingsProblem α) : Except SettingsProblem α :=
  match Value.field? field es with
  | none => .ok absent
  | some v => read v

/-- settings from the entries of a mapping, or everything that is wrong with them. A key that is no text is of
a wrong kind -/
def read (es : List (Value × Value)) : Outcome (Except (List (SettingsProblem × String)) Settings) :=
  match es.mapM (fun e => e.1.text?) with
  | none => .error .illTyped
  | some names =>
    let depth := readField es "max_depth" ⟨default.maxDepth, default.inRange⟩ readDepth
    let strict := readField es "strict_types" default.strictTypes readBoolean
    let unknown := (names.filter fun n => n != "max_depth" && n != "strict_types").map fun n =>
      (SettingsProblem.unknownField, n)
    match problemOf "max_depth" depth ++ problemOf "strict_types" strict ++ unknown, depth, strict with
    | [], .ok n, .ok b => .ok (.ok ⟨n.1, b, n.2⟩)
    | problems, _, _ => .ok (.error problems)

def toFields (s : Settings) : List (String × Value) :=
  [("max_depth", .int s.maxDepth), ("strict_types", .bool s.strictTypes)]

def changedFields (s : Settings) : List (String × Value) :=
  (if s.maxDepth = default.maxDepth then [] else [("max_depth", .int s.maxDepth)]) ++
    (if s.strictTypes = default.strictTypes then [] else [("strict_types", .bool s.strictTypes)])

end Settings

end Intake
