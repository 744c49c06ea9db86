/-
Why an operation fails.

A definition is refused for one of the reasons of `DefinitionError`, each of which carries what its message
names. A parse is refused with a report. The other faults are those of values that reach a place where they
do not fit: a key that is not there, a number too long to be written, a value that has no order or no text.
-/
import Intake.Report

namespace Intake

open Intake.Text

/-- what is wrong with one field of the settings -/
inductive SettingsProblem where
  | tooSmall | tooLarge | noInteger | fractional | notIntegral | notFinite | noBoolean | notBoolean | unknownField
  deriving DecidableEq, Repr

/-- why a definition is refused -/
inductive DefinitionError where
  | notAType (shown : String)
  | unknownType (given : String) (known : List String)
  | invalidType (shown : String)
  | optionsNotHash (option shown : String)
  | messageNotText (option shown : String)
  | unknownOptions (option shown : String)
  | notNumber (option shown : String)
  | badLength (bound shown : String)
  | badLengthRange (shown : String)
  | patternNotText (shown : String)
  | badPattern (shown : String)
  | patternTwice
  | patternMissing
  | notCollection (option shown : String)
  | notCallable (shown : String)
  | schemaNotHash (shown : String)
  | innerSchemaNotHash (shown : String)
  | badSchema
  | unknownRule (option : String)
  | tooDeep (name : String) (depth maxDepth : Nat)
  | requiredDefault (name : String)
  | twoSchemas (name : String)
  | scalarWithBlock (name typeName : String)
  | notIdentifier (name : String)
  | underscoreName (name : String)
  | reservedName (name : String)
  | declaredTwice (name definition : String)
  | blockNotCallable (name : String)
  | definitionBlockNotCallable (name : String)
  | badConfig (name : String)
  | requiredNotBoolean (name : String)
  | attributesNotMapping (name : String)
  | badDefault (name shown problem : String)
  | settingsNotMapping
  | badSettings (problems : List (SettingsProblem × String))
  | notMapping (className : String)
  | badDocument (file : Option String)
  | emptyDocument (file : Option String)
  | fileNotFound (file : String)
  deriving DecidableEq, Repr

/-- why an operation fails -/
inductive Fault where
  | definition (e : DefinitionError)
  | settings (problems : List (SettingsProblem × String))
  | rejected (report : Report)
  | notMapping (definition className : String)
  /-- no entry under the key, whose text is given -/
  | missingKey (shown : String)
  | noAttribute (message : String)
  /-- a value of a kind that the operation does not take -/
  | illTyped
  /-- a value of the right kind that the operation cannot take -/
  | badValue
  /-- a number beyond the range of the result -/
  | outOfRange
  /-- an operation on a signaling datum -/
  | signaled
  /-- a position beyond the end -/
  | badIndex
  /-- a value that the document format cannot hold -/
  | unrepresentable
  /-- a reference that leads nowhere -/
  | unresolved
  /-- a nesting too deep to follow -/
  | tooDeep
  /-- a directory where a file is to be read -/
  | directory
  /-- a character asked for by its name: names of characters are not kept here -/
  | notKept

/-- the words of one message with the names of a list between commas -/
def joinNames (names : List String) : String := ", ".intercalate names

def numeral (n : Nat) : String := String.ofList (Number.digits n)

/-- a name in message form: between quotes, with what cannot be printed escaped -/
def quotedName (name : String) : String := String.ofList (quoted name.toList)

namespace DefinitionError

def inFile : Option String → String
  | none => ""
  | some f => " in " ++ f

/-- the message of a refusal. Where a foreign library's words would follow, it ends before them -/
def message : DefinitionError → String
  | .notAType shown => "Cannot register caster for non-type " ++ shown
  | .unknownType given known => "Unknown type '" ++ given ++ "'. Must be one of: " ++ joinNames known
  | .invalidType shown => "Invalid type " ++ shown ++ ": must be a type or a type name"
  | .optionsNotHash option shown => "Invalid " ++ option ++ " options " ++ shown ++ ": must be a dict"
  | .messageNotText option shown => "Invalid " ++ option ++ " message " ++ shown ++ ": must be a string"
  | .unknownOptions option shown => "Unknown " ++ option ++ " options: " ++ shown
  | .notNumber option shown => "numericality " ++ option ++ " must be a number, got " ++ shown
  | .badLength bound shown => "length " ++ bound ++ " must be a non-negative integer, got " ++ shown
  | .badLengthRange shown => "length in must be a range or [min, max], got " ++ shown
  | .patternNotText shown => "format pattern must be a string, got " ++ shown
  | .badPattern shown => "Invalid regex pattern " ++ shown
  | .patternTwice => "format accepts either 'with' or 'without', not both"
  | .patternMissing => "format requires a 'with' or 'without' pattern"
  | .notCollection option shown => option ++ " requires a list of values, got " ++ shown
  | .notCallable shown => "validate expects callables, got " ++ shown
  | .schemaNotHash shown => "json_schema must be a dict, got " ++ shown
  | .innerSchemaNotHash shown => "json_schema schema must be a dict, got " ++ shown
  | .badSchema => "Invalid json_schema"
  | .unknownRule option =>
    "Unknown validation option '" ++ option ++ "'. Must be one of: " ++
      "numericality, length, format, inclusion, exclusion, presence, json_schema, validate"
  | .tooDeep name depth maxDepth =>
    "Definition '" ++ name ++ "' is nested " ++ numeral depth ++ " levels deep (max_depth is " ++
      numeral maxDepth ++ ")"
  | .requiredDefault name => "Required attribute '" ++ name ++ "' cannot declare a default"
  | .twoSchemas name => "Attribute '" ++ name ++ "' declares both a nested definition and a block"
  | .scalarWithBlock name typeName =>
    "Attribute '" ++ name ++ "' has type " ++ typeName ++
      "; a nested block is only allowed without a type or with list"
  | .notIdentifier name => "Attribute name " ++ quotedName name ++ " is not a valid identifier"
  | .underscoreName name => "Attribute name " ++ quotedName name ++ " must not start with an underscore"
  | .reservedName name => "Attribute name " ++ quotedName name ++ " is reserved"
  | .declaredTwice name definition =>
    "Attribute " ++ quotedName name ++ " is declared twice in definition '" ++ definition ++ "'"
  | .blockNotCallable name => "Block for attribute '" ++ name ++ "' must be callable"
  | .definitionBlockNotCallable name => "Definition block for '" ++ name ++ "' must be callable"
  | .badConfig name => "Invalid config for attribute '" ++ name ++ "': must be a mapping or a type name"
  | .requiredNotBoolean name => "Attribute '" ++ name ++ "': required must be true or false"
  | .attributesNotMapping name => "Attribute '" ++ name ++ "': attributes must be a mapping"
  | .badDefault name shown problem => "Attribute '" ++ name ++ "': default " ++ shown ++ " " ++ problem
  | .settingsNotMapping => "settings must be a mapping"
  | .badSettings _ => "Invalid settings"
  | .notMapping className => "Definition must be a mapping, got " ++ className
  | .badDocument file => "Invalid YAML syntax" ++ inFile file
  | .emptyDocument none => "Definition document is empty"
  | .emptyDocument (some f) => "Definition file is empty: " ++ f
  | .fileNotFound f => "Definition file not found: " ++ f

end DefinitionError

abbrev Outcome := Except Fault

def refuse {α : Type} (e : DefinitionError) : Outcome α := .error (.definition e)

namespace Value

/-- the text of a value, written in calls that do not go too deep; a number too long for it is a bad value -/
def written (v : Value) (text : Option (List Char)) : Outcome String :=
  if callLimit ≤ v.calls then .error .tooDeep
  else match text with
    | some s => .ok (String.ofList s)
    | none => .error .badValue

theorem written_some {v : Value} (h : v.calls < callLimit) (s : List Char) : v.written (some s) = .ok (String.ofList s) :=
  if_neg (Nat.not_le.2 h)

theorem written_none {v : Value} (h : v.calls < callLimit) : v.written none = .error .badValue :=
  if_neg (Nat.not_le.2 h)

theorem calls_int_lt (n : Int) : (Value.int n).calls < callLimit := by simp [calls, callLimit]

def shown (v : Value) : Outcome String := v.written v.shown?

def plain (v : Value) : Outcome String := v.written v.plain?

end Value

end Intake
