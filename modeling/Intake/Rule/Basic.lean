/-
Rules: checks of a casted value, each of which answers with messages.

Every kind of rule is a structure or a constructor of its own, and holds what its declaration gave, so that a
rule can be written as a declaration again. A rule's own message, where one was declared, replaces every
message of the rule; an empty one counts as none.
-/
import Intake.Fault
import Intake.Pattern.Reader

namespace Intake

open Intake.Number

/-- how a number is compared with a bound -/
inductive Comparison where
  | greaterThan | greaterOrEqual | equalTo | otherThan | lessThan | lessOrEqual
  deriving DecidableEq, Repr

namespace Comparison

/-- the comparisons, in the order in which they are checked and written -/
def all : List Comparison := [.greaterThan, .greaterOrEqual, .equalTo, .otherThan, .lessThan, .lessOrEqual]

/-- the name in a declaration -/
def name : Comparison → String
  | .greaterThan => "greater_than"
  | .greaterOrEqual => "greater_than_or_equal_to"
  | .equalTo => "equal_to"
  | .otherThan => "other_than"
  | .lessThan => "less_than"
  | .lessOrEqual => "less_than_or_equal_to"

/-- the words in a message -/
def words : Comparison → String
  | .greaterThan => "greater than"
  | .greaterOrEqual => "greater than or equal to"
  | .equalTo => "equal to"
  | .otherThan => "other than"
  | .lessThan => "less than"
  | .lessOrEqual => "less than or equal to"

/-- the comparison holds of a number that stands in this order to the bound -/
def holds : Comparison → Ordering → Bool
  | .greaterThan, o => o == .gt
  | .greaterOrEqual, o => o != .lt
  | .equalTo, o => o == .eq
  | .otherThan, o => o != .eq
  | .lessThan, o => o == .lt
  | .lessOrEqual, o => o != .gt

end Comparison

/-- a rule about numbers -/
structure Numericality where
  /-- the declared bounds, in the order of `Comparison.all`; each is a finite number -/
  bounds : List (Comparison × Value)
  onlyInteger : Bool
  odd : Bool
  even : Bool
  message : Option Value

/-- a rule about the number of characters or elements -/
structure LengthBounds where
  minimum : Option Int
  maximum : Option Int
  exactly : Option Int
  message : Option Value

/-- a rule about the text of a value: it matches a pattern, or it does not -/
structure Format where
  /-- the pattern as it was declared -/
  source : Value
  pattern : Pattern.Compiled
  negated : Bool
  message : Option Value

/-- a rule that a value is among some values, or that it is not -/
structure Membership where
  /-- a range, or a tuple of values -/
  values : Value
  message : Option Value

/-- a rule by JSON Schema -/
structure SchemaRule where
  schema : Value
  message : Option Value

/-- a check of a casted value -/
inductive Rule where
  | numericality (r : Numericality)
  | length (r : LengthBounds)
  | format (r : Format)
  | inclusion (r : Membership)
  | exclusion (r : Membership)
  | presence (message : Option Value)
  | jsonSchema (r : SchemaRule)
  /-- a function of the caller -/
  | callback (f : Value)

/-- the finite number that a value denotes: numbers that are no booleans, and decimals in text -/
def asNumber (v : Value) : Option Value :=
  match v with
  | .int _ => some v
  | .float x => if x.isFinite then some v else none
  | .decimal d => if d.isFinite then some v else none
  | .text s | .textMember s =>
    match Decimal.ofText? s.toList with
    | some d => if d.isFinite then some (.decimal d) else none
    | none => none
  | _ => none

end Intake
