/-
Parsed instances: casted values by attribute, and raw values by key.

Attribute access gives casted values, unless an operation has the name, and key access gives raw ones, also those
that no attribute declares. A projection holds the casted values of the attributes whose keys were supplied, in order
of declaration; a recursive one turns the instances inside it into hashes too. So does one whose keys are written as
texts.
-/
import Intake.KeyView

namespace Intake

namespace Parsed

/-- the attributes whose keys were supplied, with their values -/
def pairs (p : Instance) : List (String × Value) := p.values.filter fun e => p.supplied.contains e.1

def keys (p : Instance) : List String := p.pairs.map (·.1)

def valueOf (p : Instance) (name : String) : Value := ((p.values.find? (·.1 == name)).map (·.2)).getD .null

/-- the casted value under a name; only declared attributes have one -/
def access (p : Instance) (name : String) : Outcome Value :=
  if name.toList.head? = some '_' then .error (.noAttribute name)
  else if p.heading.names.contains name then .ok (p.valueOf name)
  else .error (.noAttribute ("'" ++ p.heading.name ++ "' parameters have no attribute '" ++ name ++ "'"))

/-- what a name gives on an instance: a value, or one of the operations that every instance has -/
inductive Member where
  | value (v : Value)
  | operation (name : String)

def operations : List String :=
  ["define", "get", "keys", "items", "to_dict", "stringify_keys", "reject", "select"]

/-- what a name gives. An instance's own names come before those of its attributes -/
def member (p : Instance) (name : String) : Outcome Member :=
  if name = "raw" then .ok (.value p.raw)
  else if name = "definition" then .ok (.value (.schema p.heading))
  else if operations.contains name then .ok (.operation name)
  else (p.access name).map .value

def readOnly : Fault := .noAttribute "Parameters is read-only"

def view (p : Instance) : Outcome KeyView := KeyView.ofEntries (p.raw.entries?.getD [])

def item (p : Instance) (key : Value) : Outcome Value := do (← p.view).item key

def getD (p : Instance) (key default : Value) : Outcome Value := do (← p.view).getD key default

def has (p : Instance) (key : Value) : Outcome Bool := do (← p.view).has key

/-- the raw values of the attributes whose keys were supplied -/
def rawFields (p : Instance) : Outcome (List (String × Value)) := do
  let view ← p.view
  p.keys.mapM fun k => do .ok (k, ← view.item (.text k))

def select (p : Instance) (pick : String → Value → Bool) : List (String × Value) :=
  p.pairs.filter fun e => pick e.1 e.2

/-- the attributes that a predicate does not pick -/
def reject (p : Instance) (pick : String → Value → Bool) : List (String × Value) :=
  p.pairs.filter fun e => !pick e.1 e.2

end Parsed

namespace Value

mutual

/-- the value with every instance in it, also inside lists, as the hash of its supplied attributes -/
def projected : Value → Value
  | .parsed ⟨_, _, values, supplied⟩ => .map false (projectedFields supplied values)
  | .list xs => .list (projectedAll xs)
  | v => v

def projectedAll : List Value → List Value
  | [] => []
  | x :: xs => projected x :: projectedAll xs

/-- the supplied attributes among fields, projected -/
def projectedFields (supplied : List String) : List (String × Value) → List (Value × Value)
  | [] => []
  | (name, v) :: fields =>
    if supplied.contains name then (.text name, projected v) :: projectedFields supplied fields
    else projectedFields supplied fields

end

def writtenKey (name : String) : Value := .text (String.ofList ((Value.text name).plain?.getD []))

mutual

/-- the value with every instance in it, also inside lists, as the hash of its supplied attributes under written keys -/
def stringified : Value → Value
  | .parsed ⟨_, _, values, supplied⟩ => .map false (stringifiedFields supplied values)
  | .list xs => .list (stringifiedAll xs)
  | v => v

def stringifiedAll : List Value → List Value
  | [] => []
  | x :: xs => stringified x :: stringifiedAll xs

/-- the supplied attributes among fields, with written keys -/
def stringifiedFields (supplied : List String) : List (String × Value) → List (Value × Value)
  | [] => []
  | (name, v) :: fields =>
    if supplied.contains name then (writtenKey name, stringified v) :: stringifiedFields supplied fields
    else stringifiedFields supplied fields

end

end Value

namespace Parsed

def toHash (p : Instance) (recursive : Bool) : Value :=
  if recursive then (Value.parsed p).projected else Value.ofFields p.pairs

/-- the supplied attributes as a hash with written keys -/
def stringifyKeys (p : Instance) (recursive : Bool) : Value :=
  if recursive then (Value.parsed p).stringified else .map false (p.pairs.map fun e => (Value.writtenKey e.1, e.2))

/-- an element added to the list that an attribute holds -/
def append (p : Instance) (name : String) (v : Value) : Instance :=
  let grow : Value → Value
    | .list xs => .list (xs ++ [v])
    | w => w
  { p with values := p.values.map fun e => if e.1 = name then (e.1, grow e.2) else e }

end Parsed

end Intake
