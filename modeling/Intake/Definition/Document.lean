/-
Definitions from a block of declarations, and from documents.

A document is a mapping of attribute names to configurations, or an envelope around one: a mapping whose
`attributes` are such a mapping, and whose other keys are among `name`, `settings` and `description`. A name
or settings given beside the document replace those inside it.

Main definitions: `Definition.define`, `Definition.ofDocument`.
-/
import Intake.Definition.Build

namespace Intake

namespace Definition

/-- the definition that a block declares under a name -/
def define (w : Workshop) (stamp : Nat) (name : Value) (block : Block) (settings : Settings) : Outcome Definition :=
  let start (name : String) : Builder := .empty name settings stamp
  match block with
  | .declarations ds => do
    let name ← normalizeKey name
    let b ← Builder.declareAll w (settings.maxDepth - 1) (start name) ds
    .ok b.build
  | .document es => do
    let name ← normalizeKey name
    let b ← Builder.declareDocument w (settings.maxDepth - 1) (start name) es
    .ok b.build
  | .value f =>
    if f.callable then do
      let name ← normalizeKey name
      let _ ← w.call f builderObject
      .ok (start name).build
    else do refuse (.definitionBlockNotCallable (← name.plain))
  | _ => do refuse (.definitionBlockNotCallable (← name.plain))

def envelopeKeys : List String := ["name", "settings", "attributes", "description"]

/-- the attributes inside an envelope; nothing for any other mapping -/
def envelope? (es : List (Value × Value)) : Option (List (Value × Value)) :=
  if es.all fun e => envelopeKeys.any fun k => (Value.text k).sameKey e.1 then
    (Value.field? "attributes" es).bind Value.entries?
  else none

/-- settings from the field of a document -/
def documentSettings (v : Option Value) : Outcome Settings :=
  match Parts.given v with
  | none => .ok Settings.default
  | some (.map _ es) => do
    match ← Settings.read es with
    | .ok s => .ok s
    | .error problems => refuse (.badSettings problems)
  | some _ => refuse .settingsNotMapping

def givenName (name : Option String) : Option String := name.filter (· != "")

/-- the name of a definition from what is given and from the field of a document, or the usual one -/
def documentName (given : Option String) (field : Option Value) : Outcome String :=
  match givenName given, field.filter Value.truthy with
  | some s, _ => .ok s
  | none, some v => v.plain
  | none, none => .ok "parameters"

/-- what a document says of the definition: its name, its settings, and the configurations of its attributes -/
structure Draft where
  name : String
  settings : Settings
  configs : List (Value × Value)

/-- a document without its envelope -/
def draft (v : Value) (name : Option String) (settings : Option Settings) : Outcome Draft :=
  match v with
  | .map _ es =>
    match envelope? es with
    | some inner => do
      let settings ← match settings with
        | some s => .ok s
        | none => documentSettings (Value.field? "settings" es)
      let name ← documentName name (Value.field? "name" es)
      .ok ⟨name, settings, inner⟩
    | none => do
      let name ← documentName name none
      .ok ⟨name, settings.getD Settings.default, es⟩
  | v => refuse (.notMapping v.className)

def ofDocument (w : Workshop) (stamp : Nat) (v : Value) (name : Option String) (settings : Option Settings) :
    Outcome Definition := do
  let d ← draft v name settings
  let b ← Builder.declareDocument w (d.settings.maxDepth - 1) (.empty d.name d.settings stamp) d.configs
  .ok b.build

end Definition

end Intake
