/-
Parsing: checking and casting raw input against a definition.

Every attribute is read by itself: its raw value is found through the normal forms of the keys, a missing one
is reported or takes its default, any other is resolved by the attribute's shape and then checked by its
rules. What an attribute yields is its `Reading`: a value, or nothing, or a finding for the report. The
readings of all attributes are gathered at the end: the findings, in order of declaration, make the report of a
failed parse, and without any the values make an instance. The objects that a parse makes on the way, in copies of
defaults and by converters, are told apart by their places.

Main definitions: `Attribute.rawValue`, `Shape.resolve`, `gather`, `Definition.parse`.
-/
import Intake.Definition.Basic
import Intake.Rule.Run
import Intake.Cast.Registry
import Intake.Json.Printer

namespace Intake

open Intake.Text

/-- a finding for the report, or what else a step yields -/
abbrev Reading (α : Type) := Except Finding α

/-- the reading of an attribute that has a name -/
structure NamedReading where
  name : String
  /-- the raw input has a key for the attribute -/
  supplied : Bool
  /-- the value, if the attribute has one -/
  reading : Reading (Option Value)

def Finding.message (s : String) : Finding := .messages [.text s]

def requiredMessage : String := "is required"
def notHashMessage : String := "must be a hash"
def notArrayMessage : String := "must be an array"

namespace Value

/-- nothing, and texts and collections that are empty, count as missing where a value is required -/
def isMissing : Value → Bool
  | .null => true
  | .text s | .textMember s => s.isEmpty
  | .bytes false bs => bs.isEmpty
  | .list xs | .tuple xs | .set _ xs => xs.isEmpty
  | .map _ es => es.isEmpty
  | _ => false

def isBlank (v : Value) : Bool := (v.text?.map fun s => (strip s.toList).isEmpty).getD false

end Value

namespace Attribute

/-- a blank form field means that no value is given, unless a text is declared -/
def blankIsNull (a : Attribute) : Bool :=
  match a.shape.scalar? with
  | none => false
  | some t => t != .text

/-- the raw value of the attribute; nothing where its key is absent -/
def rawValue (a : Attribute) (view : KeyView) : Value :=
  let v := (view.get? a.name).getD .null
  if a.blankIsNull && v.isBlank then .null else v

/-- the reading of an attribute without a raw value: its default, or nothing, which is a value only where the
key is there -/
def absent (a : Attribute) (here : Place) (supplied : Bool) : Outcome (Option Value) :=
  match a.default with
  | some _ => (a.defaultValue here).map some
  | none => .ok (if supplied then some .null else none)

end Attribute

/-- a value that is resolved, checked by rules -/
def checked (rules : List Rule) (resolved : Reading Value) : Outcome (Reading Value) :=
  match resolved with
  | .error f => .ok (.error f)
  | .ok v => do
    match ← runRules rules v with
    | [] => .ok (.ok v)
    | messages => .ok (.error (.messages messages))

/-- the elements of an array, or the findings of those that failed, by index -/
def gatherItems : Nat → List (Reading Value) → Except (List (String × Finding)) (List Value)
  | _, [] => .ok []
  | i, r :: rs =>
    match r, gatherItems (i + 1) rs with
    | .ok v, .ok vs => .ok (v :: vs)
    | .ok _, .error fs => .error fs
    | .error f, .ok _ => .error [(numeral i, f)]
    | .error f, .error fs => .error ((numeral i, f) :: fs)

def findings (rs : List NamedReading) : List (String × Finding) :=
  rs.filterMap fun r => match r.reading with
    | .error f => some (r.name, f)
    | .ok _ => none

def valuesOf (rs : List NamedReading) : List (String × Value) :=
  rs.filterMap fun r => match r.reading with
    | .ok (some v) => some (r.name, v)
    | _ => none

def suppliedOf (rs : List NamedReading) : List String := (rs.filter (·.supplied)).map (·.name)

/-- the report of the readings, if any failed, and else the instance that they make -/
def gather (heading : Heading) (raw : Value) (rs : List NamedReading) : Except Report Instance :=
  match findings rs with
  | [] => .ok ⟨heading, raw, valuesOf rs, suppliedOf rs⟩
  | fs => .error ⟨fs⟩

/-- a nested parse of any value: what is no mapping is reported -/
def parseNested (parse : Value → Outcome (Except Report Instance)) (v : Value) : Outcome (Reading Value) :=
  match v with
  | .map _ _ => do
    match ← parse v with
    | .ok p => .ok (.ok (.parsed p))
    | .error r => .ok (.error (.nested r.entries))
  | _ => .ok (.error (.message notHashMessage))

/-- a parse of every element of a list or tuple, which is told its index; all that fail are reported -/
def parseItems (parse : Nat → Value → Outcome (Except Report Instance)) (v : Value) : Outcome (Reading Value) :=
  match v.items? with
  | none => .ok (.error (.message notArrayMessage))
  | some xs => do
    match gatherItems 0 (← xs.zipIdx.mapM fun e => parseNested (parse e.2) e.1) with
    | .ok vs => .ok (.ok (.list vs))
    | .error fs => .ok (.error (.nested fs))

/-- an object that a converter has made anew, with the place at which it stands. Strict types convert numbers alone -/
def Value.placedAt (here : Place) (strict : Bool) : Value → Value
  | .object c .new content => .object c (if strict || c.comparesContent then .new else .made .new here) content
  | v => v

def castScalar (r : Registry) (here : Place) (strict : Bool) (t : ValueType) (v : Value) : Outcome (Reading Value) := do
  match ← r.cast t strict v with
  | .ok w => .ok (.ok (w.placedAt here strict))
  | .error f => .ok (.error (.message f.message))

mutual

/-- checks and casts a mapping against a definition -/
def Definition.read (r : Registry) (here : Place) : Definition → Value → Outcome (Except Report Instance)
  | ⟨stamp, name, attributes, settings⟩, raw => do
    let view ← KeyView.ofEntries (raw.entries?.getD [])
    let readings ← readAttributes r here settings.strictTypes view attributes
    .ok (gather ⟨stamp, name, attributes.map (·.name)⟩ raw readings)

/-- the readings of several attributes -/
def readAttributes (r : Registry) (here : Place) (strict : Bool) (view : KeyView) :
    List Attribute → Outcome (List NamedReading)
  | [] => .ok []
  | a :: as => do
    let x ← Attribute.read r here strict view a
    let xs ← readAttributes r here strict view as
    .ok (x :: xs)

/-- the reading of an attribute -/
def Attribute.read (r : Registry) (here : Place) (strict : Bool) (view : KeyView) : Attribute → Outcome NamedReading
  | ⟨name, shape, required, default, rules⟩ => do
    let a : Attribute := ⟨name, shape, required, default, rules⟩
    let supplied := (view.get? name).isSome
    let raw := a.rawValue view
    if required && raw.isMissing then .ok ⟨name, supplied, .error (.message requiredMessage)⟩
    else
      match raw with
      | .null => do .ok ⟨name, supplied, .ok (← a.absent (here.within name) supplied)⟩
      | v => do
        let resolved ← Shape.resolve r (here.within name) strict shape v
        .ok ⟨name, supplied, (← checked rules resolved).map some⟩

/-- a raw value as an attribute of a shape holds it -/
def Shape.resolve (r : Registry) (here : Place) (strict : Bool) : Shape → Value → Outcome (Reading Value)
  | .untyped, v => .ok (.ok v)
  | .scalar t, v => castScalar r here strict t v
  | .nested d, v => parseNested (fun raw => Definition.read r here d raw) v
  | .arrayOf d, v => parseItems (fun i raw => Definition.read r (here.within (numeral i)) d raw) v

end

namespace Definition

/-- checks and casts raw input, where nothing stands for an empty mapping. The number of the run tells what it makes
from what others make. A failed parse is a fault with the report of every failure, which must have a text -/
def parse (r : Registry) (run : Nat) (d : Definition) (raw : Value) : Outcome Instance := do
  let raw : Value := match raw with
    | .null => .map false []
    | v => v
  match raw with
  | .map _ _ =>
    match ← d.read r (.root run) raw with
    | .ok p => .ok p
    | .error report => do
      let _ ← report.payload.json .compact
      .error (.rejected report)
  | v => .error (.notMapping d.name v.className)

end Definition

end Intake
