/-
Definitions: what a set of parameters consists of.

A definition names its attributes in order. An attribute has one of four shapes: untyped, of a scalar type,
nested by a definition of its own, or an array of such. `Definition`, `Attribute` and `Shape` are declared
together, since each holds the next.

Main definitions: `Definition.heading`, what a value knows of a definition; `Definition.height`, the length of
the longest chain of nested definitions.
-/
import Intake.Rule.Basic
import Intake.Settings

namespace Intake

mutual

/-- what an attribute holds -/
inductive Shape where
  /-- any value, as it is -/
  | untyped
  | scalar (t : ValueType)
  | nested (d : Definition)
  | arrayOf (d : Definition)

/-- a declared attribute -/
structure Attribute where
  name : String
  shape : Shape
  required : Bool
  /-- the value of an optional attribute that is absent -/
  default : Option Value
  rules : List Rule

/-- a set of parameters -/
structure Definition where
  /-- tells apart definitions that were declared separately -/
  stamp : Nat
  name : String
  attributes : List Attribute
  settings : Settings

end

namespace Shape

def scalar? : Shape → Option ValueType
  | .scalar t => some t
  | _ => none

/-- the nested definition, of one or of an array -/
def definition? : Shape → Option Definition
  | .nested d => some d
  | .arrayOf d => some d
  | _ => none

def isArray : Shape → Bool
  | .arrayOf _ => true
  | _ => false

end Shape

namespace Definition

def names (d : Definition) : List String := d.attributes.map (·.name)

def heading (d : Definition) : Heading := ⟨d.stamp, d.name, d.names⟩

def attribute? (d : Definition) (name : String) : Option Attribute := d.attributes.find? (·.name == name)

/-- the attribute under a key of any spelling; its absence is a fault that shows the normal form -/
def lookup (d : Definition) (key : Value) : Outcome Attribute := do
  let name ← normalizeKey key
  match d.attribute? name with
  | some a => .ok a
  | none => .error (.missingKey (quotedName name))

def has (d : Definition) (name : Value) : Bool :=
  (name.text?.map fun s => (d.attribute? s).isSome).getD false

def immutable : Fault := .noAttribute "ParametersDefinition is immutable"

/-- a definition from attributes that are declared already, each once -/
def combine (stamp : Nat) (name : String) (attributes : List Attribute) : Outcome Definition :=
  let rec check : List String → List Attribute → Outcome Unit
    | _, [] => .ok ()
    | seen, a :: as =>
      if seen.contains a.name then refuse (.declaredTwice a.name name) else check (a.name :: seen) as
  do
    check [] attributes
    .ok ⟨stamp, name, attributes, Settings.default⟩

mutual

/-- the length of the longest chain of nested definitions that starts here -/
def height : Definition → Nat
  | ⟨_, _, attributes, _⟩ => heightOfAll attributes + 1

def heightOfAll : List Attribute → Nat
  | [] => 0
  | a :: as => max (heightOfAttribute a) (heightOfAll as)

/-- the longest chain that starts in an attribute -/
def heightOfAttribute : Attribute → Nat
  | ⟨_, shape, _, _, _⟩ => heightOfShape shape

def heightOfShape : Shape → Nat
  | .nested d => height d
  | .arrayOf d => height d
  | .untyped => 0
  | .scalar _ => 0

end

end Definition

namespace Value

mutual

/-- the fault of copying a value in depth, if it cannot be copied: definitions, the instances that belong to
them, and read-only mappings -/
def copyFault? : Value → Option Fault
  | .schema _ => some Definition.immutable
  | .parsed _ => some Definition.immutable
  | .map true _ => some .illTyped
  | .map false es => copyFaultOfEntries? es
  | .list xs => copyFaultOfAll? xs
  | .tuple xs => copyFaultOfAll? xs
  | .set _ xs => copyFaultOfAll? xs
  | .object _ _ content => copyFaultOfAll? content
  | _ => none

def copyFaultOfAll? : List Value → Option Fault
  | [] => none
  | x :: xs => (copyFault? x).or (copyFaultOfAll? xs)

def copyFaultOfEntries? : List (Value × Value) → Option Fault
  | [] => none
  | (k, v) :: es => ((copyFault? k).or (copyFault? v)).or (copyFaultOfEntries? es)

end

mutual

/-- a copy in depth, made at a place: objects that are compared by identity are others than those copied -/
def copiedAt (here : Place) : Value → Value
  | .object c i content => .object c (if c.comparesContent then i else .made i here) (copiedAllAt here content)
  | .map readOnly es => .map readOnly (copiedEntriesAt here es)
  | .list xs => .list (copiedAllAt here xs)
  | .tuple xs => .tuple (copiedAllAt here xs)
  | .set frozen xs => .set frozen (copiedAllAt here xs)
  | v => v

def copiedAllAt (here : Place) : List Value → List Value
  | [] => []
  | x :: xs => copiedAt here x :: copiedAllAt here xs

def copiedEntriesAt (here : Place) : List (Value × Value) → List (Value × Value)
  | [] => []
  | (k, v) :: es => (copiedAt here k, copiedAt here v) :: copiedEntriesAt here es

end

end Value

namespace Attribute

/-- a copy of the default, made at a place; nothing where there is none -/
def defaultValue (a : Attribute) (here : Place) : Outcome Value :=
  match a.default with
  | none => .ok .null
  | some v =>
    match v.copyFault? with
    | some f => .error f
    | none => .ok (v.copiedAt here)

end Attribute

end Intake
