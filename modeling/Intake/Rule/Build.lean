/-
Building rules from the options of a declaration, and writing them as options again.

Every option has a form in full, a hash of what the rule needs together with its message; some have a short
form. What is given is checked when the rule is built: an unknown part, a bad bound, a message that is no text
or a pattern that cannot be compiled refuses the declaration.

Main definitions: `buildRules`, `Rule.described`.
-/
import Intake.Rule.Basic
import Intake.JsonSchema.WellFormed

namespace Intake

open Intake.Number

/-- the parts of an option that are not read yet -/
abbrev Parts := List (Value × Value)

namespace Parts

/-- the part of this name, if there is one, and the others -/
def pop (name : String) (parts : Parts) : Option Value × Parts :=
  (Value.field? name parts, Value.removeKey name parts)

/-- a part counts as given unless it is nothing -/
def given (v : Option Value) : Option Value :=
  match v with
  | some .null => none
  | v => v

end Parts

/-- the parts of an option in full, or in its short form -/
def optionParts (option : String) (config : Value) (short : Option String) : Outcome Parts :=
  match config.hash?, short with
  | some es, _ => .ok es
  | none, some name => .ok [(.text name, config)]
  | none, none => do refuse (.optionsNotHash option (← config.shown))

/-- the message among the parts, which must be a text -/
def popMessage (option : String) (parts : Parts) : Outcome (Option Value × Parts) := do
  let (message, rest) := parts.pop "message"
  match Parts.given message with
  | none => .ok (none, rest)
  | some m => if m.text?.isSome then .ok (some m, rest) else refuse (.messageNotText option (← m.shown))

/-- keys in order: texts by their characters, numbers by their size; other keys have an order only alone -/
def sortedKeys (keys : List Value) : Outcome (List Value) :=
  if keys.length ≤ 1 then .ok keys
  else if keys.all (·.text?.isSome) then
    .ok (keys.mergeSort fun a b => decide (a.text?.getD "" ≤ b.text?.getD ""))
  else if keys.all (fun k => k.numeric?.isSome && !k.isNaN) then
    .ok (keys.mergeSort fun a b => match a.numeric?, b.numeric? with
      | some x, some y => x.compare? y != some .gt
      | _, _ => true)
  else .error .illTyped

def rejectUnknown (option : String) (parts : Parts) : Outcome Unit := do
  if parts.isEmpty then .ok ()
  else refuse (.unknownOptions option (← (Value.list (← sortedKeys (parts.map (·.1)))).shown))

/-! ## Building -/

/-- the bounds among the parts, in the order of comparisons -/
def popBounds : List Comparison → Parts → Outcome (List (Comparison × Value) × Parts)
  | [], parts => .ok ([], parts)
  | c :: cs, parts => do
    match parts.pop c.name with
    | (none, _) => popBounds cs parts
    | (some v, rest) =>
      match asNumber v with
      | none => refuse (.notNumber c.name (← v.shown))
      | some n =>
        let (bounds, rest) ← popBounds cs rest
        .ok ((c, n) :: bounds, rest)

def popFlag (name : String) (parts : Parts) : Bool × Parts :=
  let (v, rest) := parts.pop name
  ((v.map Value.truthy).getD false, rest)

def buildNumericality (config : Value) : Outcome Rule := do
  let parts ← match config with
    | .bool true => .ok []
    | config => optionParts "numericality" config none
  let (message, parts) ← popMessage "numericality" parts
  let (bounds, parts) ← popBounds Comparison.all parts
  let (onlyInteger, parts) := popFlag "only_integer" parts
  let (odd, parts) := popFlag "odd" parts
  let (even, parts) := popFlag "even" parts
  rejectUnknown "numericality" parts
  .ok (.numericality ⟨bounds, onlyInteger, odd, even, message⟩)

/-- a bound of a length: an integer that is not negative -/
def lengthBound (name : String) (v : Option Value) : Outcome (Option Int) :=
  match v with
  | none => .ok none
  | some (.int n) => if n < 0 then do refuse (.badLength name (← (Value.int n).shown)) else .ok (some n)
  | some v => do refuse (.badLength name (← v.shown))

/-- the two ends of a length, from a range, whose end is not itself a length, or from a pair -/
def lengthEnds (within : Value) : Outcome (Option Value × Option Value) :=
  match within with
  | .range a b _ => .ok (some (.int a), some (.int (b - 1)))
  | v =>
    match v.items? with
    | some [a, b] => .ok (Parts.given (some a), Parts.given (some b))
    | _ => do refuse (.badLengthRange (← v.shown))

def buildLength (config : Value) : Outcome Rule := do
  let parts ← optionParts "length" config none
  let (message, parts) ← popMessage "length" parts
  let (minimum, parts) := parts.pop "minimum"
  let (maximum, parts) := parts.pop "maximum"
  let (exactly, parts) := parts.pop "is"
  let (within, parts) := parts.pop "within"
  let (inside, parts) := parts.pop "in"
  let (minimum, maximum) ← match Parts.given (inside.or within) with
    | some v => lengthEnds v
    | none => .ok (Parts.given minimum, Parts.given maximum)
  rejectUnknown "length" parts
  let minimum ← lengthBound "minimum" minimum
  let maximum ← lengthBound "maximum" maximum
  let exactly ← lengthBound "is" (Parts.given exactly)
  .ok (.length ⟨minimum, maximum, exactly, message⟩)

/-- the pattern of a format, with its text as it was declared -/
def compileFormat (v : Value) (negated : Bool) (message : Option Value) : Outcome Format :=
  let source : Option (Value × String) := match v with
    | .pattern s => some (.text s, s)
    | v => v.text?.map fun s => (v, s)
  match source with
  | none => do refuse (.patternNotText (← v.shown))
  | some (declared, s) =>
    match Pattern.compile s.toList with
    | .ok p => .ok ⟨declared, p, negated, message⟩
    | .error e =>
      match JsonSchema.faultOf? e with
      | some f => .error f
      | none => do refuse (.badPattern (← v.shown))

def buildFormat (config : Value) : Outcome Rule := do
  let parts ← optionParts "format" config (some "with")
  let (message, parts) ← popMessage "format" parts
  let (positive, parts) := parts.pop "with"
  let (negative, parts) := parts.pop "without"
  let rule ← match positive, negative with
    | some _, some _ => refuse .patternTwice
    | some p, none => compileFormat p false message
    | none, some p => compileFormat p true message
    | none, none => refuse .patternMissing
  rejectUnknown "format" parts
  .ok (.format rule)

def buildMembership (option : String) (config : Value) : Outcome Membership := do
  let parts ← optionParts option config (some "in")
  let (message, parts) ← popMessage option parts
  let (within, parts) := parts.pop "within"
  let (inside, parts) := parts.pop "in"
  rejectUnknown option parts
  match (inside.or within).getD .null with
  | .range a b s => .ok ⟨.range a b s, message⟩
  | .list xs | .tuple xs | .set _ xs => .ok ⟨.tuple xs, message⟩
  | v => do refuse (.notCollection option (← v.shown))

/-- the message of a presence rule, whatever it is -/
def presenceMessage (config : Value) : Option Value :=
  Parts.given ((config.hash?).bind (Value.field? "message"))

/-- a hash that wraps a schema: it has the key `schema`, and beside it at most `message` -/
def wrapsSchema (es : List (Value × Value)) : Bool :=
  (Value.field? "schema" es).isSome &&
    es.all fun e => (Value.text "schema").sameKey e.1 || (Value.text "message").sameKey e.1

def schemaRule (schema : Value) (message : Option Value) : Outcome Rule :=
  if JsonSchema.isSchema schema then .ok (.jsonSchema ⟨schema, message⟩)
  else match JsonSchema.fault? schema with
    | some f => .error f
    | none => refuse .badSchema

def buildSchema (config : Value) : Outcome Rule := do
  match config.hash? with
  | none => refuse (.schemaNotHash (← config.shown))
  | some es =>
    if wrapsSchema es then
      let (message, parts) ← popMessage "json_schema" es
      let schema := (Value.field? "schema" parts).getD .null
      if schema.hash?.isSome then schemaRule schema message
      else refuse (.innerSchemaNotHash (← schema.shown))
    else schemaRule config none

def buildCallbacks (config : Value) : Outcome (List Rule) := do
  let functions := config.items?.getD [config]
  functions.mapM fun f => do
    if f.callable then .ok (.callback f) else refuse (.notCallable (← f.shown))

/-- the rules of one option -/
def buildOption (key config : Value) : Outcome (List Rule) := do
  match key.text? with
  | some "numericality" => .ok [← buildNumericality config]
  | some "length" => .ok [← buildLength config]
  | some "format" => .ok [← buildFormat config]
  | some "inclusion" => .ok [.inclusion (← buildMembership "inclusion" config)]
  | some "exclusion" => .ok [.exclusion (← buildMembership "exclusion" config)]
  | some "presence" => .ok [.presence (presenceMessage config)]
  | some "json_schema" => .ok [← buildSchema config]
  | some "validate" => buildCallbacks config
  | _ => refuse (.unknownRule (← key.plain))

def isOff : Value → Bool
  | .null => true
  | .bool false => true
  | _ => false

/-- the rules of all options, in order; an option given as nothing or as false is left out -/
def buildRules (options : List (Value × Value)) : Outcome (List Rule) := do
  let all ← (options.filter fun o => !isOff o.2).mapM fun o => buildOption o.1 o.2
  .ok all.flatten

/-! ## Describing -/

def withMessage (parts : List (String × Value)) (message : Option Value) : Value :=
  match message with
  | none => Value.ofFields parts
  | some m => Value.ofFields (parts ++ [("message", m)])

/-- a configuration that may be empty: then it is `true`, unless there is a message -/
def withMessageOrTrue (parts : List (String × Value)) (message : Option Value) : Value :=
  if parts.isEmpty && message.isNone then .bool true else withMessage parts message

def flagPart (name : String) (set_ : Bool) : List (String × Value) := if set_ then [(name, .bool true)] else []

def boundPart (name : String) (bound : Option Int) : List (String × Value) :=
  match bound with
  | some n => [(name, .int n)]
  | none => []

def Membership.listed (r : Membership) : Value :=
  match r.values with
  | .range a b s => .list ((List.range (Value.rangeSize a b s)).map fun (i : Nat) => .int (a + (i : Int) * s))
  | v => .list (v.items?.getD [])

/-- a rule as an option with its configuration; functions of the caller have none -/
def Rule.describe (rule : Rule) : Option (String × Value) :=
  match rule with
  | .numericality r =>
    let parts := r.bounds.map (fun b => (b.1.name, b.2)) ++ flagPart "only_integer" r.onlyInteger ++
      flagPart "odd" r.odd ++ flagPart "even" r.even
    some ("numericality", withMessageOrTrue parts r.message)
  | .length r =>
    let parts := boundPart "minimum" r.minimum ++ boundPart "maximum" r.maximum ++ boundPart "is" r.exactly
    some ("length", withMessage parts r.message)
  | .format r => some ("format", withMessage [(if r.negated then "without" else "with", r.source)] r.message)
  | .inclusion r => some ("inclusion", withMessage [("in", r.listed)] r.message)
  | .exclusion r => some ("exclusion", withMessage [("in", r.listed)] r.message)
  | .presence message => some ("presence", withMessageOrTrue [] message)
  | .jsonSchema r =>
    match r.message with
    | none => some ("json_schema", r.schema)
    | some m => some ("json_schema", Value.ofFields [("schema", r.schema), ("message", m)])
  | .callback _ => none

def Rule.listable : Rule → Bool
  | .inclusion r => r.values.countable
  | .exclusion r => r.values.countable
  | _ => true

/-- a rule as an option with its configuration, for which the values that it lists are counted -/
def Rule.described (rule : Rule) : Outcome (Option (String × Value)) :=
  if rule.listable then .ok rule.describe else .error .outOfRange

end Intake
