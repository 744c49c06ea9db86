/-
Validating a value against a JSON Schema: every violation with its place and its message.

`violations` goes through the keywords of a schema in their order. Keywords that hold subschemas go
down into them, either with the same value or with a part of it; references go to another place of the root.
A round of references that never goes down into the value would not end, so the descent has fuel: the number
of values in the schema for each level of the value. Only such a round uses it up, and then the fault is
`Fault.tooDeep`.
-/
import Intake.JsonSchema.WellFormed
import Intake.Text.Pieces

namespace Intake.JsonSchema

/-- a violation: the keys and indexes that lead to the part of the value, and the message -/
structure Violation where
  path : List Value
  message : String

/-- what a schema is seen in: the root that references start from -/
structure Scope where
  root : Value

def keyword? (name : String) (schema : List (Value × Value)) : Option Value := Value.field? name schema

/-- a subschema that identifies itself is the root of the references inside it -/
def Scope.enter (scope : Scope) (schema : Value) : Scope :=
  match schema with
  | .map _ es => match (keyword? "$id" es).bind Value.text? with
    | some _ => ⟨schema⟩
    | none => scope
  | _ => scope

/-! ## References -/

/-- a text with its percent escapes resolved -/
def unescapePercent : List Char → List UInt8
  | '%' :: a :: b :: cs =>
    match Number.hexValue? a, Number.hexValue? b with
    | some m, some n => UInt8.ofNat (16 * m + n) :: unescapePercent cs
    | _, _ => '%'.toUInt8 :: unescapePercent (a :: b :: cs)
  | c :: cs => (String.singleton c).toUTF8.toList ++ unescapePercent cs
  | [] => []

/-- a step of a pointer with its two escapes resolved -/
def unescapeStep : List Char → List Char
  | '~' :: '1' :: cs => '/' :: unescapeStep cs
  | '~' :: '0' :: cs => '~' :: unescapeStep cs
  | c :: cs => c :: unescapeStep cs
  | [] => []

def follow (step : List Char) (v : Value) : Option Value :=
  match v with
  | .list xs => (Number.integer? step).bind fun n => if n < 0 then none else xs[n.toNat]?
  | .map _ es => Value.field? (String.ofList (unescapeStep step)) es
  | _ => none

mutual

/-- the schema with a name, searched through a value -/
def findAnchor (name : String) : Value → Option Value
  | .map r es =>
    let here := [keyword? "$anchor" es, keyword? "$dynamicAnchor" es].any fun v => (v.bind Value.text?) == some name
    if here then some (.map r es) else findAnchorInEntries name es
  | .list xs => findAnchorInAll name xs
  | _ => none

def findAnchorInAll (name : String) : List Value → Option Value
  | [] => none
  | x :: xs => (findAnchor name x).or (findAnchorInAll name xs)

def findAnchorInEntries (name : String) : List (Value × Value) → Option Value
  | [] => none
  | (_, v) :: es => (findAnchor name v).or (findAnchorInEntries name es)

end

/-- the schema that a reference leads to, from the root -/
def Scope.resolve? (scope : Scope) (reference : String) : Option Value :=
  match reference.toList with
  | [] => some scope.root
  | '#' :: [] => some scope.root
  | '#' :: '/' :: pointer =>
    let plain := (Text.decodeUtf8 (unescapePercent pointer))
    (Text.pieces '/' plain).foldlM (fun v step => follow step v) scope.root
  | '#' :: name => findAnchor (String.ofList name) scope.root
  | _ => none

/-! ## Messages -/

/-- texts in a message with the verb that agrees with their number -/
def extras (shown : List String) : String :=
  "(" ++ joinNames shown ++ (if shown.length = 1 then " was" else " were") ++ " unexpected)"

def sortedByText (keys : List Value) : Outcome (List Value) := do
  let pairs ← keys.mapM fun k => do
    let s ← k.plain
    pure (s, k)
  pure ((pairs.mergeSort fun a b => decide (a.1 ≤ b.1)).map (·.2))

def violation (message : String) : Outcome (List Violation) := .ok [⟨[], message⟩]

def fine : Outcome (List Violation) := .ok []

/-- a violation if a condition holds, shown with the value in front -/
def about (v : Value) (isBad : Bool) (rest : String) : Outcome (List Violation) :=
  if isBad then do violation ((← v.shown) ++ rest) else fine

/-- violations inside a part, with its key in front of their places -/
def inside (key : Value) (vs : List Violation) : List Violation := vs.map fun w => { w with path := key :: w.path }

/-- violations of several parts, one after another -/
def collect {α : Type} (xs : List α) (f : α → Outcome (List Violation)) : Outcome (List Violation) := do
  let all ← xs.mapM f
  .ok all.flatten

def indexed {α : Type} (xs : List α) : List (Nat × α) := (List.range xs.length).zip xs

/-- the keys of an object that neither `properties` nor `patternProperties` of the schema cover -/
def uncovered (schema : List (Value × Value)) (es : List (Value × Value)) : Outcome (List (Value × Value)) := do
  let named := ((keyword? "properties" schema).bind Value.entries?).getD []
  let patterns := (((keyword? "patternProperties" schema).bind Value.entries?).getD []).filterMap (·.1.text?)
  let kept ← es.mapM fun e =>
    if (Value.lookup? e.1 named).isSome then .ok none
    else if patterns.isEmpty then .ok (some e)
    else match e.1.text? with
      | some k => .ok (if patterns.any (matchesText · k) then none else some e)
      | none => .error .illTyped
  .ok (kept.filterMap id)

def hasKey (k : Value) (es : List (Value × Value)) : Bool := (Value.lookup? k es).isSome

/-- a bound of a size: whether it is broken, and the words for it -/
def sizeKeyword (v : Value) (size : Nat) (isLeast : Bool) (bound : Value) (emptyWords otherWords : String) :
    Outcome (List Violation) := do
  let o ← orderCount size bound
  let broken := if isLeast then o == some .lt else o == some .gt
  let special := bound.equal (.int (if isLeast then 1 else 0))
  about v broken (if special then emptyWords else otherWords)

def boundKeyword (v bound : Value) (broken : Option Ordering → Bool) (words : String) : Outcome (List Violation) := do
  if !isNumber v then fine
  else
    let o ← order v bound
    if broken o then violation ((← v.shown) ++ words ++ (← bound.shown)) else fine

/-! ## Keywords -/

abbrev Descend := Scope → Value → Value → Outcome (List Violation)

def satisfies (down : Descend) (scope : Scope) (schema v : Value) : Outcome Bool := do
  .ok (← down scope schema v).isEmpty

/-- goes down into a part with its subschema. The one violation of the subschema that admits nothing is filed
at the whole -/
def part (down : Descend) (scope : Scope) (key schema v : Value) : Outcome (List Violation) := do
  let found ← down scope schema v
  match schema with
  | .bool false => .ok found
  | _ => .ok (inside key found)

/-- keywords about any value -/
def anyKeyword (down : Descend) (scope : Scope) (schema : List (Value × Value)) (name : String) (arg v : Value) :
    Outcome (List Violation) := do
  let subschemas := (arg.items?).getD []
  match name with
  | "type" =>
    let names := match arg with
      | .list xs => xs
      | x => [x]
    if names.any fun n => (n.text?.map fun s => isType s v).getD false then fine
    else about v true (" is not of type " ++ joinNames (← names.mapM Value.shown))
  | "enum" => if subschemas.any (fun x => equal x v) then fine else about v true (" is not one of " ++ (← arg.shown))
  | "const" => if equal v arg then fine else violation ((← arg.shown) ++ " was expected")
  | "allOf" => collect subschemas fun s => down scope s v
  | "anyOf" =>
    let valid ← subschemas.mapM fun s => satisfies down scope s v
    about v (!valid.contains true) " is not valid under any of the given schemas"
  | "oneOf" =>
    let valid ← subschemas.filterM fun s => satisfies down scope s v
    match valid with
    | [] => about v true " is not valid under any of the given schemas"
    | [_] => fine
    | first :: more =>
      about v true (" is valid under each of " ++ joinNames (← (more ++ [first]).mapM Value.shown))
  | "not" =>
    if ← satisfies down scope arg v then about v true (" should not be valid under " ++ (← arg.shown)) else fine
  | "if" =>
    let branch := if ← satisfies down scope arg v then keyword? "then" schema else keyword? "else" schema
    match branch with
    | some s => down scope s v
    | none => fine
  | "$ref" | "$dynamicRef" =>
    match (arg.text?).bind scope.resolve? with
    | some s => down scope s v
    | none => .error .unresolved
  | _ => fine

/-- keywords about numbers and texts -/
def scalarKeyword (name : String) (arg v : Value) : Outcome (List Violation) := do
  match name with
  | "minimum" => boundKeyword v arg (· == some .lt) " is less than the minimum of "
  | "maximum" => boundKeyword v arg (· == some .gt) " is greater than the maximum of "
  | "exclusiveMinimum" =>
    boundKeyword v arg (fun o => o == some .lt || o == some .eq) " is less than or equal to the minimum of "
  | "exclusiveMaximum" =>
    boundKeyword v arg (fun o => o == some .gt || o == some .eq) " is greater than or equal to the maximum of "
  | "multipleOf" =>
    if isNumber v then about v (← isNoMultiple v arg) (" is not a multiple of " ++ (← arg.shown)) else fine
  | "minLength" | "maxLength" =>
    match v.text? with
    | some s =>
      if name = "minLength" then sizeKeyword v s.length true arg " should be non-empty" " is too short"
      else sizeKeyword v s.length false arg " is expected to be empty" " is too long"
    | none => fine
  | "pattern" =>
    match v.text?, arg.text? with
    | some s, some p => about v (!matchesText p s) (" does not match " ++ (← arg.shown))
    | _, _ => fine
  | _ => fine

/-- the indexes of the elements that a schema evaluates -/
def evaluatedItems (down : Descend) (scope : Scope) (xs : List Value) : Nat → Value → Outcome (List Nat)
  | 0, _ => .error .tooDeep
  | fuel + 1, schema =>
    let rec_ := evaluatedItems down scope xs fuel
    let all := List.range xs.length
    let whole : Value := .list xs
    match schema with
    | .map _ es => do
      if (keyword? "items" es).isSome then .ok all
      else
        let referred ← ["$ref", "$dynamicRef"].mapM fun k =>
          match (keyword? k es).bind Value.text? with
          | some r => match scope.resolve? r with
            | some s => rec_ s
            | none => .error .unresolved
          | none => .ok []
        let first := match (keyword? "prefixItems" es).bind Value.items? with
          | some ss => List.range ss.length
          | none => []
        let fitting ← ["contains", "unevaluatedItems"].mapM fun k =>
          match keyword? k es with
          | some s => do
            let hits ← (indexed xs).filterM fun (_, x) => satisfies down scope s x
            .ok (hits.map (·.1))
          | none => .ok []
        let branches ← match keyword? "if" es with
          | some s => do
            if ← satisfies down scope s whole then
              let own ← rec_ s
              let more ← match keyword? "then" es with
                | some t => rec_ t
                | none => .ok []
              .ok (own ++ more)
            else match keyword? "else" es with
              | some t => rec_ t
              | none => .ok []
          | none => .ok []
        let combined ← ["allOf", "oneOf", "anyOf"].mapM fun k => do
          let parts ← (((keyword? k es).bind Value.items?).getD []).mapM fun s => do
            if ← satisfies down scope s whole then rec_ s else .ok []
          .ok parts.flatten
        .ok (referred.flatten ++ first ++ fitting.flatten ++ branches ++ combined.flatten)
    | _ => .ok []

/-- keywords about arrays -/
def arrayKeyword (down : Descend) (scope : Scope) (fuel : Nat) (schema : List (Value × Value)) (name : String)
    (arg : Value) (xs : List Value) : Outcome (List Violation) := do
  let v : Value := .list xs
  match name with
  | "prefixItems" =>
    collect ((indexed xs).zip (arg.items?.getD [])) fun ((i, x), s) => part down scope (.int i) s x
  | "items" =>
    let covered := (((keyword? "prefixItems" schema).bind Value.items?).getD []).length
    let rest := (indexed xs).drop covered
    match arg, rest with
    | _, [] => fine
    | .bool false, _ =>
      let shown ← match rest with
        | [(_, x)] => x.shown
        | _ => (Value.list (rest.map (·.2))).shown
      violation ("Expected at most " ++ numeral covered ++ (if covered = 1 then " item" else " items") ++
        " but found " ++ numeral rest.length ++ " extra: " ++ shown)
    | _, _ => collect rest fun (i, x) => part down scope (.int i) arg x
  | "contains" =>
    let hits ← xs.filterM fun x => satisfies down scope arg x
    let least := (keyword? "minContains" schema).getD (.int 1)
    let most := (keyword? "maxContains" schema).getD (.int xs.length)
    if (← orderCount hits.length most) == some .gt then
      violation ("Too many items match the given schema (expected at most " ++ (← most.plain) ++ ")")
    else if (← orderCount hits.length least) == some .lt then
      if hits.isEmpty then about v true " does not contain items matching the given schema"
      else violation ("Too few items match the given schema (expected at least " ++ (← least.plain) ++
        " but only " ++ numeral hits.length ++ " matched)")
    else fine
  | "minItems" => sizeKeyword v xs.length true arg " should be non-empty" " is too short"
  | "maxItems" => sizeKeyword v xs.length false arg " is expected to be empty" " is too long"
  | "uniqueItems" => about v (arg.truthy && !distinct xs) " has non-unique elements"
  | "unevaluatedItems" =>
    let seen ← evaluatedItems down scope xs fuel (.map false schema)
    let rest := ((indexed xs).filter fun (i, _) => !seen.contains i).map (·.2)
    if rest.isEmpty then fine
    else violation ("Unevaluated items are not allowed " ++ extras (← rest.mapM Value.shown))
  | _ => fine

/-- the keys of the properties that a schema evaluates -/
def evaluatedKeys (down : Descend) (scope : Scope) (es : List (Value × Value)) : Nat → Value → Outcome (List Value)
  | 0, _ => .error .tooDeep
  | fuel + 1, schema =>
    let rec_ := evaluatedKeys down scope es fuel
    let whole : Value := .map false es
    match schema with
    | .map _ ss => do
      let referred ← ["$ref", "$dynamicRef"].mapM fun k =>
        match (keyword? k ss).bind Value.text? with
        | some r => match scope.resolve? r with
          | some s => rec_ s
          | none => .error .unresolved
        | none => .ok []
      let named := (((keyword? "properties" ss).bind Value.hash?).getD []).map (·.1)
      let fitting ← ["additionalProperties", "unevaluatedProperties"].mapM fun k =>
        match keyword? k ss with
        | some s => do
          let hits ← es.filterM fun e => satisfies down scope s e.2
          .ok (hits.map (·.1))
        | none => .ok []
      let patterns := (((keyword? "patternProperties" ss).bind Value.entries?).getD []).filterMap (·.1.text?)
      let matching := (es.map (·.1)).filter fun k =>
        (k.text?.map fun s => patterns.any (matchesText · s)).getD false
      let dependent ← (((keyword? "dependentSchemas" ss).bind Value.entries?).getD []).mapM fun d =>
        if hasKey d.1 es then rec_ d.2 else .ok []
      let combined ← ["allOf", "oneOf", "anyOf"].mapM fun k => do
        let parts ← (((keyword? k ss).bind Value.items?).getD []).mapM fun s => do
          if ← satisfies down scope s whole then rec_ s else .ok []
        .ok parts.flatten
      let branches ← match keyword? "if" ss with
        | some s => do
          if ← satisfies down scope s whole then
            let own ← rec_ s
            let more ← match keyword? "then" ss with
              | some t => rec_ t
              | none => .ok []
            .ok (own ++ more)
          else match keyword? "else" ss with
            | some t => rec_ t
            | none => .ok []
        | none => .ok []
      .ok (referred.flatten ++ named ++ fitting.flatten ++ matching ++ dependent.flatten ++ combined.flatten ++
        branches)
    | _ => .ok []

/-- keywords about objects -/
def objectKeyword (down : Descend) (scope : Scope) (fuel : Nat) (schema : List (Value × Value)) (name : String)
    (arg : Value) (es : List (Value × Value)) : Outcome (List Violation) := do
  let v : Value := .map false es
  let args := (arg.entries?).getD []
  match name with
  | "properties" =>
    collect args fun (k, s) => match Value.lookup? k es with
      | some x => part down scope k s x
      | none => fine
  | "patternProperties" =>
    collect args fun (p, s) => collect es fun (k, x) =>
      match p.text?, k.text? with
      | some p, some t => if matchesText p t then part down scope k s x else fine
      | _, _ => .error .illTyped
  | "additionalProperties" =>
    let rest ← uncovered schema es
    match arg with
    | .map false _ => collect rest fun (k, x) => part down scope k arg x
    | _ =>
      if arg.truthy || rest.isEmpty then fine
      else
        let shown ← (← sortedByText (rest.map (·.1))).mapM Value.shown
        match (keyword? "patternProperties" schema).bind Value.entries? with
        | some ps =>
          let patterns ← (← sortedByText (ps.map (·.1))).mapM Value.shown
          violation (joinNames shown ++ (if shown.length = 1 then " does" else " do") ++
            " not match any of the regexes: " ++ joinNames patterns)
        | none => violation ("Additional properties are not allowed " ++ extras shown)
  | "propertyNames" => collect es fun (k, _) => down scope arg k
  | "required" =>
    collect (arg.items?.getD []) fun k =>
      if hasKey k es then fine else do violation ((← k.shown) ++ " is a required property")
  | "dependentRequired" =>
    collect args fun (k, needed) =>
      if hasKey k es then collect (needed.items?.getD []) fun n =>
        if hasKey n es then fine else do violation ((← n.shown) ++ " is a dependency of " ++ (← k.shown))
      else fine
  | "dependentSchemas" => collect args fun (k, s) => if hasKey k es then down scope s v else fine
  | "minProperties" =>
    sizeKeyword v es.length true arg " should be non-empty" " does not have enough properties"
  | "maxProperties" => sizeKeyword v es.length false arg " is expected to be empty" " has too many properties"
  | "unevaluatedProperties" =>
    let seen ← evaluatedKeys down scope es fuel (.map false schema)
    let rest := es.filter fun e => !seen.any (Value.sameKey e.1)
    let faulty ← rest.mapM fun (k, x) => do .ok ((← down scope arg x).map fun _ => k)
    match faulty.flatten, arg with
    | [], _ => fine
    | ks, .bool false =>
      violation ("Unevaluated properties are not allowed " ++ extras (← (← sortedByText ks).mapM Value.shown))
    | ks, _ =>
      violation ("Unevaluated properties are not valid under the given schema " ++ extras (← ks.mapM Value.shown))
  | _ => fine

/-- one keyword of a schema -/
def checkKeyword (down : Descend) (scope : Scope) (fuel : Nat) (schema : List (Value × Value)) (name : String)
    (arg v : Value) : Outcome (List Violation) := do
  let general ← anyKeyword down scope schema name arg v
  let scalar ← scalarKeyword name arg v
  let parts ← match v with
    | .list xs => arrayKeyword down scope fuel schema name arg xs
    | .map false es => objectKeyword down scope fuel schema name arg es
    | _ => fine
  .ok (general ++ scalar ++ parts)

/-- every violation of a schema by a value -/
def violations : Nat → Descend
  | 0, _, _, _ => .error .tooDeep
  | fuel + 1, scope, schema, v =>
    match schema with
    | .bool true => fine
    | .bool false => do violation ("False schema does not allow " ++ (← v.shown))
    | .map _ es =>
      collect es fun (k, arg) =>
        match k.text? with
        | some name => checkKeyword (violations fuel) (scope.enter schema) fuel es name arg v
        | none => fine
    | _ => .error .illTyped

mutual

def depth : Value → Nat
  | .list xs => depthAll xs + 1
  | .map _ es => depthEntries es + 1
  | _ => 0

def depthAll : List Value → Nat
  | [] => 0
  | x :: xs => max (depth x) (depthAll xs)

def depthEntries : List (Value × Value) → Nat
  | [] => 0
  | (_, v) :: es => max (depth v) (depthEntries es)

end

/-- every violation of a whole schema by a value, in the order of their places -/
def check (schema v : Value) : Outcome (List (List String × String)) := do
  let found ← violations ((weight schema + 2) * (depth v + 2)) ⟨schema⟩ schema v
  let placed ← found.mapM fun w => do
    let path ← w.path.mapM Value.plain
    pure (path, w.message)
  pure (placed.mergeSort fun a b => !b.1.lex a.1 fun s t => decide (s < t))

end Intake.JsonSchema
