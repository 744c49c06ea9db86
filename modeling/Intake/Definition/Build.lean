/-
Building definitions from declarations.

A declaration gives an attribute's name, what it holds, whether it is required, and its options. What it holds
may be a type, a built definition, or a block of further declarations; a block may also be written as a mapping
of names to configurations, as documents write it, and then each configuration is turned into a declaration
when its turn comes. Declarations are taken in order, and the first that is refused refuses the whole.

A `Builder` gathers the attributes of one definition. The nesting depth is bounded by the settings: `left`
counts the levels that are still allowed below, and building recurs on it.
-/
import Intake.Definition.Basic
import Intake.Rule.Build
import Intake.Cast.Registry
import Intake.Text.Identifier

namespace Intake

/-- a type that a declaration gives: none, one to be resolved, or a definition -/
inductive DeclaredType where
  | none
  | value (v : Value)
  | definition (d : Definition)

mutual

/-- what is declared inside an attribute -/
inductive Block where
  | none
  /-- declarations one after another -/
  | declarations (ds : List Declaration)
  /-- configurations by name -/
  | document (es : List (Value × Value))
  | definition (d : Definition)
  /-- anything else: a function, which declares nothing, or what is none -/
  | value (v : Value)

/-- the declaration of one attribute -/
structure Declaration where
  required : Bool
  name : Value
  type : DeclaredType
  block : Block
  options : List (Value × Value)

end

def reservedNames : List String := [
  "raw", "definition", "define", "get", "keys", "items", "to_dict", "stringify_keys", "reject", "select"]

/-- the attributes declared so far of one definition -/
structure Builder where
  name : String
  settings : Settings
  /-- tells apart definitions that were declared separately -/
  stamp : Nat
  attributes : List Attribute

/-- a declaration whose name, type and block fit together -/
structure Prepared where
  name : String
  type : DeclaredType
  scalar : Option ValueType
  default : Option Value
  options : List (Value × Value)

namespace Builder

def empty (name : String) (settings : Settings) (stamp : Nat) : Builder := ⟨name, settings, stamp, []⟩

/-- the definition with the attributes declared so far -/
def build (b : Builder) : Definition := ⟨b.stamp, b.name, b.attributes, b.settings⟩

/-- a name that can be declared now -/
def checkName (b : Builder) (given : Value) : Outcome String := do
  let name ← normalizeKey given
  if !Text.isIdentifier name.toList then refuse (.notIdentifier name)
  else if name.toList.head? = some '_' then refuse (.underscoreName name)
  else if reservedNames.contains name then refuse (.reservedName name)
  else if b.attributes.any (·.name == name) then refuse (.declaredTwice name b.name)
  else .ok name

/-- names that an option cannot have, since they name other parts of a declaration -/
def partNames : List String := ["self", "name", "type", "block"]

/-- the options must go by texts that name no other part -/
def checkOptionNames (options : List (Value × Value)) : Outcome Unit :=
  if options.all fun o => (o.1.text?.map fun s => !partNames.contains s).getD false then .ok ()
  else .error .illTyped

/-- the default among the options, and the others -/
def popDefault (options : List (Value × Value)) : Option Value × List (Value × Value) :=
  let (v, rest) := Parts.pop "default" options
  match v with
  | some .missing => (none, rest)
  | v => (v, rest)

def hasBlock : Block → Bool
  | .none => false
  | _ => true

/-- everything about a declaration that does not need its block: the name, the default, the type, and whether
a block may stand beside it -/
def prepare (r : Registry) (b : Builder) (d : Declaration) : Outcome Prepared := do
  checkOptionNames d.options
  if d.required && (Value.field? "default" d.options).isSome then refuse (.requiredDefault (← d.name.plain))
  else
    let name ← b.checkName d.name
    let (default, options) := popDefault d.options
    let scalar ← match d.type with
      | .none => .ok none
      | .definition _ => if hasBlock d.block then refuse (.twoSchemas name) else .ok none
      | .value v => (r.resolve v).map some
    match scalar with
    | some t =>
      if hasBlock d.block && t != .array then refuse (.scalarWithBlock name t.className)
      else .ok ⟨name, d.type, scalar, default, options⟩
    | none => .ok ⟨name, d.type, scalar, default, options⟩

/-- the shape of an attribute, given the definition of its block -/
def shapeOf (p : Prepared) (block : Option Definition) : Shape :=
  match block, p.type, p.scalar with
  | some d, _, some _ => .arrayOf d
  | some d, _, none => .nested d
  | none, .definition d, _ => .nested d
  | none, _, some t => .scalar t
  | none, _, none => .untyped

/-- declares an attribute that is prepared, given the definition of its block -/
def append (b : Builder) (required : Bool) (p : Prepared) (block : Option Definition) : Outcome Builder := do
  let rules ← buildRules p.options
  .ok { b with attributes := b.attributes ++ [⟨p.name, shapeOf p block, required, p.default, rules⟩] }

def inner (b : Builder) (name : String) : Builder := empty (b.name ++ "." ++ name) b.settings b.stamp

/-- the levels of nesting that are in use when `left` more are allowed -/
def depthAt (b : Builder) (left : Nat) : Nat := b.settings.maxDepth - left

end Builder

/-! ## Configurations -/

/-- the parts of a configuration: nothing, a type by its name, or a mapping -/
def configParts (name config : Value) : Outcome (List (Value × Value)) :=
  match config with
  | .null => .ok []
  | .map _ es => .ok es
  | v =>
    if v.text?.isSome then .ok [(.text "type", v)]
    else do refuse (.badConfig (← name.plain))

def castDefault (r : Registry) (name type default : Value) : Outcome Value := do
  let t ← r.resolve type
  match ← r.cast t false default with
  | .ok v => .ok v
  | .error f => do refuse (.badDefault (← name.plain) (← default.shown) f.message)

/-- the options with the default as the declared type casts it. A nested attribute, and one without a type,
keeps its default as it is -/
def castDefaultOption (r : Registry) (name : Value) (type nested : Option Value) (options : List (Value × Value)) :
    Outcome (List (Value × Value)) :=
  match nested, type, Parts.given (Value.field? "default" options) with
  | none, some t, some d => do
    let v ← castDefault r name t d
    .ok (Value.insertEntry (.text "default") v options)
  | _, _, _ => .ok options

/-- a declared type that a document gives: a definition that it holds as a value, or anything to be resolved -/
def documentType (known : List Definition) (v : Value) : DeclaredType :=
  match v with
  | .schema h =>
    match known.find? fun d => d.stamp == h.stamp && d.name == h.name with
    | some d => .definition d
    | none => .value v
  | v => .value v

/-- the declaration that a configuration stands for -/
def Declaration.ofConfig (r : Registry) (known : List Definition) (name config : Value) : Outcome Declaration := do
  let parts ← configParts name config
  let (required, parts) := Parts.pop "required" parts
  let (type, parts) := Parts.pop "type" parts
  let (nested, parts) := Parts.pop "attributes" parts
  match required.getD (.bool false) with
  | .bool isRequired =>
    let type := Parts.given type
    let nested := Parts.given nested
    let block ← match nested with
      | none => .ok Block.none
      | some (.map _ es) => .ok (Block.document es)
      | some _ => refuse (.attributesNotMapping (← name.plain))
    let options ← castDefaultOption r name type nested parts
    .ok ⟨isRequired, name, (type.map (documentType known)).getD .none, block, options⟩
  | _ => refuse (.requiredNotBoolean (← name.plain))

/-! ## Building -/

/-- what a function of the caller is given when it is called as a block -/
def builderObject : Value := .object ⟨"DefinitionBuilder", .takesNone, false⟩ .new []

/-- a function of the caller called as a block; a value that cannot be called is no block -/
def callBlock (call : Value → Value → Outcome Value) (name : String) (v : Value) : Outcome Unit :=
  if v.callable then do
    let _ ← call v builderObject
    .ok ()
  else refuse (.blockNotCallable name)

/-- what building needs besides the declarations -/
structure Workshop where
  registry : Registry
  /-- built definitions that documents may hold as values -/
  known : List Definition
  /-- calls a function of the caller -/
  call : Value → Value → Outcome Value

namespace Builder

mutual

/-- declares one attribute, with `left` levels of nesting allowed below -/
def declare (w : Workshop) : Nat → Builder → Declaration → Outcome Builder
  | left, b, d => do
    let p ← prepare w.registry b d
    let block ← buildBlock w left b p.name d.block
    b.append d.required p block

/-- the definition that a block stands for -/
def buildBlock (w : Workshop) : Nat → Builder → String → Block → Outcome (Option Definition)
  | left, b, name, block =>
    match block with
    | .none => .ok none
    | .definition d => .ok (some d)
    | .value v =>
      if !v.callable then refuse (.blockNotCallable name)
      else
        match left with
        | 0 => refuse (.tooDeep (b.name ++ "." ++ name) (b.depthAt 0 + 1) b.settings.maxDepth)
        | _ + 1 => do
          callBlock w.call name v
          .ok (some (b.inner name).build)
    | .declarations ds =>
      match left with
      | 0 => refuse (.tooDeep (b.name ++ "." ++ name) (b.depthAt 0 + 1) b.settings.maxDepth)
      | left + 1 => do
        let inner ← declareAll w left (b.inner name) ds
        .ok (some inner.build)
    | .document es =>
      match left with
      | 0 => refuse (.tooDeep (b.name ++ "." ++ name) (b.depthAt 0 + 1) b.settings.maxDepth)
      | left + 1 => do
        let inner ← declareDocument w left (b.inner name) es
        .ok (some inner.build)

def declareAll (w : Workshop) : Nat → Builder → List Declaration → Outcome Builder
  | _, b, [] => .ok b
  | left, b, d :: ds => do
    let b ← declare w left b d
    declareAll w left b ds

/-- declares the attributes that configurations stand for -/
def declareDocument (w : Workshop) : Nat → Builder → List (Value × Value) → Outcome Builder
  | _, b, [] => .ok b
  | left, b, (name, config) :: es => do
    let d ← Declaration.ofConfig w.registry w.known name config
    let b ← declare w left b d
    declareDocument w left b es

end

end Builder

end Intake
