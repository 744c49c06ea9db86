/-
Which hashes are schemas: the keywords of Draft 2020-12 with the form that each value must have. A keyword
that the draft does not know may have any value.

`wellFormed` descends into the subschemas that a keyword holds. The depth of a schema bounds the descent, so
the fuel that `isSchema` gives, the number of values in the schema, is never used up.
-/
import Intake.JsonSchema.Basic

namespace Intake.JsonSchema

/-- the forms of keywords' values -/
inductive Form where
  | schema | schemas | schemaMap | patternMap | dependencies
  | text | pattern | identifier | anchor | boolean | number | positive | count | list | texts | textsMap
  | booleanMap | typeNames

/-- the keywords of the draft with their forms -/
def keywords : List (String × Form) := [
  ("$id", .identifier), ("$schema", .text), ("$ref", .text), ("$anchor", .anchor), ("$dynamicRef", .text),
  ("$dynamicAnchor", .anchor), ("$vocabulary", .booleanMap), ("$comment", .text), ("$defs", .schemaMap),
  ("definitions", .schemaMap), ("dependencies", .dependencies), ("$recursiveAnchor", .anchor),
  ("$recursiveRef", .text),
  ("prefixItems", .schemas), ("items", .schema), ("contains", .schema), ("additionalProperties", .schema),
  ("properties", .schemaMap), ("patternProperties", .patternMap), ("dependentSchemas", .schemaMap),
  ("propertyNames", .schema), ("if", .schema), ("then", .schema), ("else", .schema), ("allOf", .schemas),
  ("anyOf", .schemas), ("oneOf", .schemas), ("not", .schema), ("unevaluatedItems", .schema),
  ("unevaluatedProperties", .schema),
  ("type", .typeNames), ("enum", .list), ("multipleOf", .positive), ("maximum", .number),
  ("exclusiveMaximum", .number), ("minimum", .number), ("exclusiveMinimum", .number), ("maxLength", .count),
  ("minLength", .count), ("pattern", .pattern), ("maxItems", .count), ("minItems", .count),
  ("uniqueItems", .boolean), ("maxContains", .count), ("minContains", .count), ("maxProperties", .count),
  ("minProperties", .count), ("required", .texts), ("dependentRequired", .textsMap),
  ("title", .text), ("description", .text), ("deprecated", .boolean), ("readOnly", .boolean),
  ("writeOnly", .boolean), ("examples", .list), ("format", .text), ("contentEncoding", .text),
  ("contentMediaType", .text), ("contentSchema", .schema)]

def isCount (v : Value) : Bool :=
  isInteger v && (match v.numeric? with
    | some d => d.compare? (Number.Decimal.ofInt 0) != some .lt
    | none => false)

def isPositive (v : Value) : Bool :=
  isNumber v && (match v.numeric? with
    | some d => d.compare? (Number.Decimal.ofInt 0) == some .gt || d.compare? d == none
    | none => false)

def isTexts : Value → Bool
  | .list xs => xs.all (·.text?.isSome) && distinct xs
  | _ => false

def isBoolean (v : Value) : Bool := isType "boolean" v

def isTypeName (v : Value) : Bool := (v.text?.map typeNames.contains).getD false

/-- a name of a type, or a list of different ones that is not empty -/
def isTypeNames (v : Value) : Bool :=
  match v with
  | .list xs => !xs.isEmpty && xs.all isTypeName && distinct xs
  | v => isTypeName v

def isAnchor (s : String) : Bool :=
  match s.toList with
  | c :: cs =>
    (c.isAlpha || c == '_') && cs.all fun d => d.isAlphanum || d == '-' || d == '.' || d == '_'
  | [] => false

/-- an identifier of a schema: it has no fragment, though it may end as if it had one -/
def isIdentifier (s : String) : Bool := !((s.toList.dropWhile (· != '#')).drop 1).any (fun _ => true)

/-- the value has the form; `isPattern` tells patterns among texts -/
def Form.fits (isPattern : String → Bool) (isSchema : Value → Bool) (form : Form) (v : Value) : Bool :=
  let mapOf (ok : Value → Bool) : Bool := match v with
    | .map false es => es.all fun e => ok e.2
    | _ => false
  match form with
  | .schema => isSchema v
  | .schemas => match v with
    | .list xs => !xs.isEmpty && xs.all isSchema
    | _ => false
  | .schemaMap => mapOf isSchema
  | .patternMap => mapOf isSchema && (match v with
    | .map _ es => es.all fun e => (e.1.text?.map isPattern).getD true
    | _ => false)
  | .dependencies => mapOf fun w => isSchema w || isTexts w
  | .text => v.text?.isSome
  | .pattern => (v.text?.map isPattern).getD false
  | .identifier => (v.text?.map isIdentifier).getD false
  | .anchor => (v.text?.map isAnchor).getD false
  | .boolean => isBoolean v
  | .number => isNumber v
  | .positive => isPositive v
  | .count => isCount v
  | .list => isType "array" v
  | .texts => isTexts v
  | .textsMap => mapOf isTexts
  | .booleanMap => mapOf isBoolean
  | .typeNames => isTypeNames v

/-- a boolean or a hash whose keywords' values have their forms, to a depth -/
def wellFormed (isPattern : String → Bool) : Nat → Value → Bool
  | 0, _ => false
  | fuel + 1, v =>
    match v with
    | .bool _ => true
    | .map false es => es.all fun e =>
      match e.1.text? with
      | none => true
      | some k =>
        match keywords.find? (·.1 == k) with
        | some (_, form) => form.fits isPattern (wellFormed isPattern fuel) e.2
        | none => true
    | _ => false

mutual

/-- the number of values in a value, itself included -/
def weight : Value → Nat
  | .list xs => weightAll xs + 1
  | .map _ es => weightEntries es + 1
  | _ => 1

def weightAll : List Value → Nat
  | [] => 0
  | x :: xs => weight x + weightAll xs

def weightEntries : List (Value × Value) → Nat
  | [] => 0
  | (_, v) :: es => weight v + weightEntries es + 1

end

def isSchema (v : Value) : Bool := wellFormed isPattern (weight v) v

/-- the texts that are read as patterns in a value of the form -/
def Form.patterns (patternsIn : Value → List String) (form : Form) (v : Value) : List String :=
  let inside := (v.entries?.getD []).flatMap fun e => patternsIn e.2
  match form with
  | .schema => patternsIn v
  | .schemas => (v.items?.getD []).flatMap patternsIn
  | .schemaMap | .dependencies => inside
  | .patternMap => (v.entries?.getD []).filterMap (·.1.text?) ++ inside
  | .pattern => v.text?.toList
  | _ => []

/-- the texts that are read as patterns in a schema, to a depth -/
def patternsIn : Nat → Value → List String
  | 0, _ => []
  | fuel + 1, v => (v.entries?.getD []).flatMap fun e =>
    match keywords.find? (some ·.1 == e.1.text?) with
    | some (_, form) => form.patterns (patternsIn fuel) e.2
    | none => []

/-- the fault of a pattern in a value that would be a schema otherwise -/
def fault? (v : Value) : Option Fault :=
  if wellFormed (fun s => isPattern s || (patternFault? s).isSome) (weight v) v then
    (patternsIn (weight v) v).findSome? patternFault?
  else none

end Intake.JsonSchema
