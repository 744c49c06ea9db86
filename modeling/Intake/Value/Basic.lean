/-
Values: what callers hand in, what attributes hold, and what definitions are declared with.

Input is dynamic by nature. A request holds JSON scalars, lists and mappings; callers inside a program also
hand in dates, decimals, byte strings, classes, functions and already parsed instances. `Value` is the one
type of all of them. Definitions themselves are not values; where a value mentions one, it holds the
definition's `Heading`, which tells its identity, its name and its attribute names.

Values are compared by content. What is compared by identity carries what tells it apart: functions, not-a-number
data and definitions a serial number, given by whoever makes them, and objects an `Identity`, which also tells
objects apart that are made on the way, by the place at which they are made.
-/
import Intake.Number.Decimal
import Intake.Calendar.Moment
import Intake.Value.Uuid

namespace Intake

open Intake.Number Intake.Calendar

/-- what a class brought by the caller makes of the argument of its constructor -/
inductive Construction where
  /-- it stores any argument -/
  | keepsAny
  /-- it stores an argument that counts as true, and refuses others -/
  | keepsTruthy
  /-- it takes no argument -/
  | takesNone
  deriving DecidableEq, Repr

/-- a class brought by the caller -/
structure HostClass where
  name : String
  construction : Construction
  /-- objects with equal contents are equal -/
  comparesContent : Bool
  deriving DecidableEq, Repr

/-- where an object is made: the parse, and the names and indices that lead there, the innermost first -/
structure Place where
  run : Nat
  path : List String
  deriving DecidableEq, Repr

def Place.root (run : Nat) : Place := ⟨run, []⟩

def Place.within (p : Place) (name : String) : Place := ⟨p.run, name :: p.path⟩

/-- what tells an object from others of its class -/
inductive Identity where
  /-- it is brought by the caller -/
  | given (serial : Nat)
  /-- it is new, and stands nowhere yet -/
  | new
  /-- it is made at a place, after another or of its own -/
  | made (original : Identity) (place : Place)
  deriving DecidableEq, Repr

/-- a type that an attribute may be declared with -/
inductive ValueType where
  | text | integer | float | decimal | boolean | date | moment | time | uuid | array | hash
  | custom (c : HostClass)
  deriving DecidableEq, Repr

/-- what a value knows of a definition -/
structure Heading where
  /-- tells apart definitions that were declared separately -/
  stamp : Nat
  name : String
  /-- the declared attributes, in order -/
  names : List String
  deriving DecidableEq, Repr

/-- a successful parse: the raw input, the casted values, and the attributes whose key was supplied -/
structure Parsed (α : Type) where
  heading : Heading
  /-- the mapping that was parsed -/
  raw : α
  values : List (String × α)
  supplied : List String

/-- a value -/
inductive Value where
  | null
  | bool (b : Bool)
  | int (n : Int)
  | float (x : Binary64)
  | decimal (d : Decimal)
  | text (s : String)
  /-- a member of an enumeration of texts: it is the text, and shows itself as a member -/
  | textMember (s : String)
  /-- a member of any other enumeration -/
  | member (serial : Nat) (v : Value)
  | bytes (isMutable : Bool) (bs : List UInt8)
  | date (d : Date)
  | moment (m : Moment)
  | time (t : Time)
  | uuid (u : Uuid)
  | list (xs : List Value)
  | tuple (xs : List Value)
  | set (frozen : Bool) (xs : List Value)
  | range (start stop step : Int)
  /-- keys and values in insertion order; a read-only mapping is no hash -/
  | map (readOnly : Bool) (entries : List (Value × Value))
  | type (t : ValueType)
  /-- the mark of a default that was not declared -/
  | missing
  /-- an object of a class brought by the caller, with the content it stores, if any -/
  | object (c : HostClass) (identity : Identity) (content : List Value)
  /-- a function with one answer for every argument -/
  | answers (serial : Nat) (v : Value)
  /-- a function whose answer shows its argument -/
  | echoes (serial : Nat)
  /-- a compiled pattern -/
  | pattern (source : String)
  | schema (h : Heading)
  | parsed (p : Parsed Value)
  deriving Inhabited

abbrev Instance := Parsed Value

namespace ValueType

/-- the class name of a type -/
def className : ValueType → String
  | .text => "str"
  | .integer => "int"
  | .float => "float"
  | .decimal => "Decimal"
  | .boolean => "bool"
  | .date => "date"
  | .moment => "datetime"
  | .time => "time"
  | .uuid => "UUID"
  | .array => "list"
  | .hash => "dict"
  | .custom c => c.name

/-- the module that a class name is shown with -/
def homeName : ValueType → String
  | .decimal => "decimal.Decimal"
  | .date => "datetime.date"
  | .moment => "datetime.datetime"
  | .time => "datetime.time"
  | .uuid => "uuid.UUID"
  | .custom c => "__main__." ++ c.name
  | t => t.className

end ValueType

namespace Value

def ofFields (fields : List (String × Value)) : Value := .map false (fields.map fun (k, v) => (.text k, v))

/-- the text of a text or of a member of an enumeration of texts -/
def text? : Value → Option String
  | .text s => some s
  | .textMember s => some s
  | _ => none

def entries? : Value → Option (List (Value × Value))
  | .map _ es => some es
  | _ => none

/-- the entries of a hash: a mapping that can be written to -/
def hash? : Value → Option (List (Value × Value))
  | .map false es => some es
  | _ => none

def items? : Value → Option (List Value)
  | .list xs => some xs
  | .tuple xs => some xs
  | _ => none

/-- the name of a value's class -/
def className : Value → String
  | .null => "NoneType"
  | .bool _ => "bool"
  | .int _ => "int"
  | .float _ => "float"
  | .decimal _ => "Decimal"
  | .text _ => "str"
  | .textMember _ => "E"
  | .member _ _ => "E"
  | .bytes false _ => "bytes"
  | .bytes true _ => "bytearray"
  | .date _ => "date"
  | .moment _ => "datetime"
  | .time _ => "time"
  | .uuid _ => "UUID"
  | .list _ => "list"
  | .tuple _ => "tuple"
  | .set false _ => "set"
  | .set true _ => "frozenset"
  | .range .. => "range"
  | .map false _ => "dict"
  | .map true _ => "mappingproxy"
  | .type _ => "type"
  | .missing => "_Missing"
  | .object c _ _ => c.name
  | .answers _ _ => "function"
  | .echoes _ => "function"
  | .pattern _ => "Pattern"
  | .schema _ => "ParametersDefinition"
  | .parsed _ => "Parameters"

/-- a value is of a type. A boolean is an integer, and a moment is a date -/
def hasType (t : ValueType) : Value → Bool
  | .bool _ => t == .boolean || t == .integer
  | .int _ => t == .integer
  | .float _ => t == .float
  | .decimal _ => t == .decimal
  | .text _ => t == .text
  | .textMember _ => t == .text
  | .date _ => t == .date
  | .moment _ => t == .moment || t == .date
  | .time _ => t == .time
  | .uuid _ => t == .uuid
  | .list _ => t == .array
  | .map false _ => t == .hash
  | .object c _ _ => t == .custom c
  | _ => false

def rangeSize (start stop step : Int) : Nat :=
  if 0 < step then if start < stop then ((stop - start - 1) / step + 1).toNat else 0
  else if stop < start then ((start - stop - 1) / (-step) + 1).toNat else 0

/-- the largest size that can be counted. Only a range, which does not hold its elements, can be larger -/
def maxSize : Nat := Nat.pow 2 63 - 1

def countable : Value → Bool
  | .range a b s => decide (rangeSize a b s ≤ maxSize)
  | _ => true

/-- how many elements or characters a value has; numbers, dates and objects have none to count -/
def size? : Value → Option Nat
  | .text s => some s.length
  | .textMember s => some s.length
  | .bytes _ bs => some bs.length
  | .list xs => some xs.length
  | .tuple xs => some xs.length
  | .set _ xs => some xs.length
  | .map _ es => some es.length
  | .range a b s => some (rangeSize a b s)
  | .schema h => some h.names.length
  | _ => none

/-- whether a value counts as true: zero, nothing, and what has no elements count as false -/
def truthy : Value → Bool
  | .null => false
  | .missing => false
  | .bool b => b
  | .int n => n != 0
  | .float x => !x.isZero
  | .decimal d => !d.isZero
  | .object .. => true
  | v => match v.size? with
    | some n => n != 0
    | none => true

/-- a value that can be called with one argument -/
def callable : Value → Bool
  | .type _ => true
  | .answers _ _ => true
  | .echoes _ => true
  | _ => false

end Value

end Intake
