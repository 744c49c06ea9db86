/-
Definitions in their declarative form, a mapping that documents hold and that a definition can be built from
again, and definitions and attributes in messages.

In the declarative form every value is in its plain form. The keys of an attribute come in a fixed order: its
type or nested attributes, whether it is required, its default, and its rules.
-/
import Intake.Definition.Basic
import Intake.Rule.Build
import Intake.Cast.Registry
import Intake.Value.Canonical
import Intake.Yaml.Printer

namespace Intake

/-- a rule as an option in plain form, if it can be written -/
def Rule.written (rule : Rule) : Outcome (Option (String × Value)) := do
  match ← rule.described with
  | some (option, config) => .ok (some (option, ← config.canonical))
  | none => .ok none

/-- the rules that can be written, as options in plain form -/
def describeRules (rules : List Rule) : Outcome (List (String × Value)) := do
  .ok ((← rules.mapM Rule.written).filterMap id)

/-- whether the attribute is required, as a field that is written only if it is -/
def requiredField (isRequired : Bool) : List (String × Value) :=
  if isRequired then [("required", .bool true)] else []

def defaultField (default : Option Value) : Outcome (List (String × Value)) :=
  match default with
  | none => .ok []
  | some v => do .ok [("default", ← v.canonical)]

mutual

def Definition.attributeFields (r : Registry) : Definition → Outcome (List (String × Value))
  | ⟨_, _, attributes, _⟩ => attributesFields r attributes

def attributesFields (r : Registry) : List Attribute → Outcome (List (String × Value))
  | [] => .ok []
  | a :: as => do
    let v ← Attribute.toValue r a
    let rest ← attributesFields r as
    .ok ((a.name, v) :: rest)

/-- the declarative form of an attribute -/
def Attribute.toValue (r : Registry) : Attribute → Outcome Value
  | ⟨_, shape, required, default, rules⟩ => do
    let shapeFields ← Shape.toFields r shape
    let defaults ← defaultField default
    let options ← describeRules rules
    .ok (.map false (Value.ofEntries
      ((shapeFields ++ requiredField required ++ defaults ++ options).map fun (k, v) => (.text k, v))))

def Shape.toFields (r : Registry) : Shape → Outcome (List (String × Value))
  | .untyped => .ok []
  | .scalar t => .ok [("type", .text (r.typeName t))]
  | .nested d => do .ok [("attributes", Value.ofFields (← Definition.attributeFields r d))]
  | .arrayOf d => do .ok [("type", .text "array"), ("attributes", Value.ofFields (← Definition.attributeFields r d))]

end

namespace Definition

/-- the parts of the declarative form; settings are written only where they differ from the default -/
def toFields (r : Registry) (d : Definition) : Outcome (List (String × Value)) := do
  let fields ← d.attributeFields r
  let changed := d.settings.changedFields
  let settings := if changed.isEmpty then [] else [("settings", Value.ofFields changed)]
  .ok (("name", .text d.name) :: settings ++ [("attributes", Value.ofFields fields)])

def toValue (r : Registry) (d : Definition) : Outcome Value := (d.toFields r).map Value.ofFields

def dump (r : Registry) (d : Definition) : Outcome String := do
  let fields ← d.toFields r
  Yaml.print (fields.map fun (k, v) => (.text k, v))

def shown (d : Definition) : Outcome String := (Value.schema d.heading).shown

end Definition

/-- an attribute in a message -/
def Attribute.shown (a : Attribute) : Outcome String := do
  let shape := match a.shape with
    | .untyped => []
    | .scalar t => ["type=" ++ t.className]
    | .nested d => ["definition=" ++ quotedName d.name]
    | .arrayOf d => ["definition=" ++ quotedName d.name, "many=True"]
  let required := if a.required then ["required=True"] else []
  let default ← match a.default with
    | some v => do pure ["default=" ++ (← v.shown)]
    | none => pure []
  .ok ("Attribute(" ++ joinNames (("name=" ++ quotedName a.name) :: shape ++ required ++ default) ++ ")")

end Intake
