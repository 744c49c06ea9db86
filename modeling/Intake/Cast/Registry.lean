/-
Casting: the table of types with their converters and names, and the one function that casts a value.

A registry holds two tables: for each registered type its canonical name, its converter and its failure
message, and for each name that a declaration may use the type. Registering a type writes to both. Casting
with a registered converter turns the faults of a conversion that cannot be done into a `CastFailure`; other
faults of a converter brought by the caller pass through.
-/
import Intake.Cast.Scalar

namespace Intake

open Intake.Text

/-- a converter with the canonical name of its type and its failure message -/
structure Caster where
  name : String
  convert : Value → Outcome Value
  message : String

/-- a value could not be cast: the message, the value as it was given, and the name of the declared type -/
structure CastFailure where
  message : String
  value : Value
  expected : String

/-- the two tables of casting -/
structure Registry where
  casters : List (ValueType × Caster)
  names : List (String × ValueType)

namespace CastFailure

def shown (f : CastFailure) : String :=
  "CastFailure(message=" ++ quotedName f.message ++ ", expected=" ++ quotedName f.expected ++ ")"

end CastFailure

/-- the faults of a conversion that cannot be done -/
def Fault.isCastFault : Fault → Bool
  | .illTyped | .badValue | .outOfRange | .signaled => true
  | _ => false

namespace Registry

/-- the failure message of a type without one of its own -/
def defaultMessage (name : String) : String := "is not a valid " ++ name

def builtinCaster (t : ValueType) (name : String) (convert : Value → Outcome Value) : ValueType × Caster :=
  (t, ⟨name, convert, defaultMessage name⟩)

/-- the registry with the built-in types; several names may stand for one type -/
def builtin : Registry where
  casters := [
    builtinCaster .text "string" Cast.toText,
    builtinCaster .integer "integer" Cast.toInteger,
    builtinCaster .float "float" Cast.toFloat,
    builtinCaster .decimal "decimal" Cast.toDecimal,
    builtinCaster .boolean "boolean" Cast.toBoolean,
    builtinCaster .date "date" Cast.toDate,
    builtinCaster .moment "datetime" Cast.toMoment,
    builtinCaster .time "time" Cast.toTime,
    builtinCaster .uuid "uuid" Cast.toUuid,
    builtinCaster .array "array" Cast.toList,
    builtinCaster .hash "hash" Cast.toHash]
  names := [
    ("str", .text), ("string", .text), ("text", .text), ("int", .integer), ("integer", .integer),
    ("float", .float), ("decimal", .decimal), ("bigdecimal", .decimal), ("bool", .boolean),
    ("boolean", .boolean), ("date", .date), ("datetime", .moment), ("time", .time), ("uuid", .uuid),
    ("list", .array), ("array", .array), ("dict", .hash), ("hash", .hash), ("mapping", .hash)]

def find {α β : Type} [DecidableEq α] (k : α) : List (α × β) → Option β
  | [] => none
  | (l, v) :: es => if l = k then some v else find k es

/-- puts a value under a key of a table, in place of the one there -/
def put {α β : Type} [DecidableEq α] (k : α) (v : β) : List (α × β) → List (α × β)
  | [] => [(k, v)]
  | (l, w) :: es => if l = k then (l, v) :: es else (l, w) :: put k v es

theorem find_put_self {α β : Type} [DecidableEq α] (k : α) (v : β) (es : List (α × β)) :
    find k (put k v es) = some v := by
  induction es with
  | nil => simp [put, find]
  | cons e es ih =>
    obtain ⟨l, w⟩ := e
    by_cases h : l = k <;> simp [put, find, h, ih]

theorem find_put_ne {α β : Type} [DecidableEq α] {k l : α} (h : l ≠ k) (v : β) (es : List (α × β)) :
    find l (put k v es) = find l es := by
  induction es with
  | nil => simp [put, find, Ne.symm h]
  | cons e es ih =>
    obtain ⟨m, w⟩ := e
    by_cases hm : m = k
    · subst hm; simp [put, find, Ne.symm h]
    · by_cases hl : m = l <;> simp_all [put, find]

def casterOf? (r : Registry) (t : ValueType) : Option Caster := find t r.casters

def lowered (s : String) : String := String.ofList (lower s.toList)

/-- the canonical name of a type; an unregistered class goes by its class name -/
def typeName (r : Registry) (t : ValueType) : String :=
  match r.casterOf? t with
  | some c => c.name
  | none => lowered t.className

/-- the converter of a type; an unregistered class converts by its constructor -/
def casterOf (r : Registry) (t : ValueType) : Caster :=
  match r.casterOf? t with
  | some c => c
  | none =>
    let name := lowered t.className
    ⟨name, fun v => match t with
      | .custom c => Cast.construct c v
      | _ => .error .illTyped, defaultMessage name⟩

/-- every name that a declaration may use, sorted -/
def sortedNames (r : Registry) : List String := (r.names.map (·.1)).mergeSort (fun a b => decide (a ≤ b))

/-- registers a converter for a type, under a name that defaults to the class name, with a failure message
that defaults to the usual one -/
def register (r : Registry) (declared : Value) (convert : Value → Outcome Value) (name message : Option String) :
    Outcome Registry :=
  match declared with
  | .type t =>
    let given := name.getD ""
    let name := lowered (if given = "" then t.className else given)
    let text := message.getD ""
    .ok ⟨put t ⟨name, convert, if text = "" then defaultMessage name else text⟩ r.casters, put name t r.names⟩
  | v => do refuse (.notAType (← v.shown))

/-- the form under which a declared name is looked up -/
def nameKey (s : String) : String := lowered (String.ofList (strip s.toList))

/-- the type that a declaration names or gives -/
def resolve (r : Registry) (declared : Value) : Outcome ValueType :=
  match declared with
  | .type t => .ok t
  | v =>
    match v.text? with
    | some s =>
      match find (nameKey s) r.names with
      | some t => .ok t
      | none => do refuse (.unknownType (← v.plain) r.sortedNames)
    | none => do refuse (.invalidType (← v.shown))

/-- whether a value is admitted without conversion of texts: a boolean only as a boolean, an integer also as
a binary or decimal number, a moment not as a date -/
def strictlyOf (t : ValueType) (v : Value) : Bool :=
  match v with
  | .bool _ => t == .boolean
  | .int _ => t == .integer || t == .float || t == .decimal
  | .moment _ => t == .moment
  | v => v.hasType t

def convertWith (c : Caster) (v : Value) : Outcome (Except CastFailure Value) :=
  match c.convert v with
  | .ok w => .ok (.ok w)
  | .error f => if f.isCastFault then .ok (.error ⟨c.message, v, c.name⟩) else .error f

/-- casts a value to a type. Under strict types the value must be of the type, and only numbers are still
converted, so that integers widen and what is not finite is refused; otherwise every value is converted,
but for objects of an unregistered class -/
def cast (r : Registry) (t : ValueType) (strict : Bool) (v : Value) : Outcome (Except CastFailure Value) :=
  let c := r.casterOf t
  if strict then
    if !strictlyOf t v then .ok (.error ⟨c.message, v, c.name⟩)
    else if t == .float || t == .decimal then convertWith c v
    else .ok (.ok v)
  else if (r.casterOf? t).isNone && v.hasType t then .ok (.ok v)
  else convertWith c v

end Registry

end Intake
