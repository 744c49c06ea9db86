/-
Definitions from the text of a document.

A text without a document, or with nothing in it, is refused. A definition from a file takes the stem of the
file's path as its name, unless a name is given or the document names the definition itself.

Main definitions: `Definition.ofText`, `Definition.ofFile`.
-/
import Intake.Definition.Document
import Intake.Yaml.Document
import Intake.File

namespace Intake

namespace Definition

/-- the value of a document; nothing stands for no document. The file that it is from, if any, is for messages -/
def documentOf (file : Option String) (text : String) : Outcome Value :=
  match Yaml.read text with
  | .ok .null => refuse (.emptyDocument file)
  | .ok v => .ok v
  | .error .malformed => refuse (.badDocument file)
  | .error (.fault f) => .error f

/-- the definition that the text of a document describes -/
def ofText (w : Workshop) (stamp : Nat) (text : String) (name : Option String) : Outcome Definition := do
  ofDocument w stamp (← documentOf none text) name none

def namesItself (v : Value) : Bool :=
  match v with
  | .map _ es => (envelope? es).isSome && ((Value.field? "name" es).map Value.truthy).getD false
  | _ => false

def nameInFile (path : Path) (v : Value) (name : Option String) : Option String :=
  match name with
  | some s => some s
  | none => if namesItself v then none else some path.stem

/-- the document of a file, given what is found under its path -/
def fileDocument (path : Path) (found : Entry) : Outcome Value :=
  match found with
  | .absent => refuse (.fileNotFound path.text)
  | .directory => .error .directory
  | .file text => documentOf (some path.text) (readText text)

def ofFile (w : Workshop) (stamp : Nat) (path : Path) (found : Entry) (name : Option String) : Outcome Definition := do
  let v ← fileDocument path found
  ofDocument w stamp v (nameInFile path v name) none

end Definition

end Intake
