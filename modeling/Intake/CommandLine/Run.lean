/-
Runs of the command line.

A run prints to the standard output and to the standard error, and ends with a status: zero if all went well, one if
input is rejected, two if the definition, the input or the command line itself cannot be used. A run that a fault
stops keeps what it has printed. Files are given as what is found under each path.

Main definitions: `validate`, `inspect`, `execute`.
-/
import Intake.CommandLine.Arguments
import Intake.CommandLine.Notice
import Intake.Definition.Describe
import Intake.Instance
import Intake.Json.Reader
import Intake.Parse
import Intake.Rule.Call

namespace Intake.CommandLine

/-- what is printed so far -/
structure Printed where
  out : String
  err : String

/-- how a run stops before its end -/
inductive Stop where
  | status (n : Nat)
  | fault (f : Fault)

abbrev Run := ExceptT Stop (StateM Printed)

/-- how a run ends -/
structure Ending where
  status : Nat
  out : String
  err : String
  /-- what stopped the run, if it did not end by itself -/
  fault : Option Fault

/-! ## Printing -/

/-- what follows a terminal's control sequence -/
def afterSequence (cs : List Char) : Option (List Char) :=
  match cs with
  | '\x1b' :: '[' :: rest =>
    match rest.dropWhile fun c => c == ';' || c == '?' || c.isDigit with
    | c :: after => if c.isAlpha then some after else none
    | [] => none
  | _ => none

theorem length_of_afterSequence {cs after : List Char} (h : afterSequence cs = some after) :
    after.length < cs.length := by
  unfold afterSequence at h
  split at h
  · rename_i rest
    split at h
    · rename_i c after' he
      have := congrArg List.length he
      have := (List.dropWhile_suffix (l := rest) fun c => c == ';' || c == '?' || c.isDigit).length_le
      split at h
      · simp_all
        omega
      · simp at h
    · simp at h
  · simp at h

/-- a text without the control sequences of a terminal -/
def withoutSequences (cs : List Char) : List Char :=
  match h : afterSequence cs with
  | some after =>
    have := length_of_afterSequence h
    withoutSequences after
  | none =>
    match cs with
    | c :: rest => c :: withoutSequences rest
    | [] => []
termination_by cs.length

def plainText (s : String) : String := String.ofList (withoutSequences s.toList)

def say (s : String) : Run Unit := modify fun p => { p with out := p.out ++ plainText s }

def sayLine (s : String) : Run Unit := say (s ++ "\n")

/-- ends with a status, after a message on the standard error -/
def fail {α : Type} (message : String) : Run α := do
  modify fun p => { p with err := p.err ++ plainText ("Error: " ++ message ++ "\n") }
  throw (.status 2)

/-- tells a notice, if the run is verbose enough -/
def tell (verbosity : Nat) (n : Notice) : Run Unit :=
  if n.verbosity ≤ verbosity then modify fun p => { p with err := p.err ++ n.line } else pure ()

/-- the result of an operation, whose fault stops the run -/
def orStop {α : Type} (x : Outcome α) : Run α :=
  match x with
  | .ok a => pure a
  | .error f => throw (.fault f)

/-- the result of an operation, where the refusal of a definition ends the run with a message -/
def orRefuse {α : Type} (x : Outcome α) : Run α :=
  match x with
  | .ok a => pure a
  | .error (.definition e) => fail e.message
  | .error f => throw (.fault f)

/-! ## Loading -/

/-- what building a definition from a file needs -/
def workshop : Workshop := ⟨Registry.builtin, [], Value.call⟩

/-- the definition in a file -/
def load (verbosity : Nat) (path : Path) (found : Entry) : Run Definition := do
  let v ← orRefuse (Definition.fileDocument path found)
  let name := Definition.nameInFile path v none
  for n in Definition.notices workshop 0 v name do tell verbosity n
  let d ← orRefuse (Definition.ofDocument workshop 0 v name none)
  tell verbosity (.loaded d.name d.attributes.length path)
  return d

/-- the text of an input, and what it is called -/
def inputText (look : Path → Entry) (input : String) : Run (String × String) :=
  match Command.inputPath? input with
  | none => pure (input, "--input")
  | some path =>
    match look path with
    | .absent => fail ("Input file not found: " ++ path.text)
    | .directory => throw (.fault .directory)
    | .file text => pure (readText text, "input file")

/-- the parameters that are given; none are an empty mapping -/
def readInput (look : Path → Entry) (input : Option String) : Run Value :=
  match input with
  | none => pure (.map false [])
  | some input => do
    let (text, source) ← inputText look input
    match Json.read text with
    | .ok (.map _ es) => pure (.map false es)
    | .ok v => fail ("Input must be a JSON object, got " ++ v.className)
    | .error .malformed => fail ("Invalid JSON in " ++ source)
    | .error .tooLong => throw (.fault .badValue)

/-! ## Commands -/

/-- the parameters that a definition makes of input; a rejection is printed -/
def parsed (verbosity : Nat) (d : Definition) (data : Value) : Run Instance :=
  match d.parse workshop.registry 0 data with
  | .ok p => pure p
  | .error (.rejected r) => do
    tell verbosity (.rejected d.name r.entries.length)
    sayLine (← orStop (r.payload.json .compact))
    throw (.status 1)
  | .error f => throw (.fault f)

/-- checks input against a definition, and prints the values -/
def validate (look : Path → Entry) (v : Validation) : Run Unit := do
  let verbosity := if v.quiet then 0 else v.verbosity
  let d ← load verbosity v.file (look v.file)
  let data ← readInput look v.input
  let p ← parsed verbosity d data
  tell verbosity (.accepted d.name)
  if v.quiet then return
  sayLine (← orStop ((p.toHash v.recursive).json .line))

def kindOf : Shape → String
  | .untyped => "any"
  | .scalar t => t.className
  | .nested _ => "nested"
  | .arrayOf _ => "array of"

/-- the line of an attribute without its indentation -/
def attributeLine (a : Attribute) : Outcome String := do
  let required := if a.required then "required" else "optional"
  let default ← match a.default with
    | some v => do pure (", default=" ++ (← v.shown))
    | none => pure ""
  .ok ("- " ++ a.name ++ " (" ++ kindOf a.shape ++ ", " ++ required ++ default ++ ")")

def indentation (level : Nat) : String := String.ofList (List.replicate (2 * level) ' ')

mutual

/-- the lines of a definition, each attribute before those inside it -/
def outline (level : Nat) : Definition → List (Outcome String)
  | ⟨_, _, attributes, _⟩ => outlineAll level attributes

def outlineAll (level : Nat) : List Attribute → List (Outcome String)
  | [] => []
  | a :: as => outlineAttribute level a ++ outlineAll level as

def outlineAttribute (level : Nat) : Attribute → List (Outcome String)
  | ⟨name, shape, required, default, rules⟩ =>
    (attributeLine ⟨name, shape, required, default, rules⟩).map (indentation level ++ ·) ::
      outlineShape (level + 1) shape

def outlineShape (level : Nat) : Shape → List (Outcome String)
  | .nested d => outline level d
  | .arrayOf d => outline level d
  | .untyped => []
  | .scalar _ => []

end

/-- shows the attributes of a definition -/
def inspect (look : Path → Entry) (i : Inspection) : Run Unit := do
  let d ← load 0 i.file (look i.file)
  match i.format with
  | .json => do
    let v ← orStop (d.toValue workshop.registry)
    sayLine (← orStop (v.json .tree))
  | .yaml => do say (← orStop (d.dump workshop.registry))
  | .text => do
    sayLine ("Definition: " ++ d.name)
    for line in outline 0 d do
      sayLine (← orStop line)

def runCommand (look : Path → Entry) : Command → Run Unit
  | .validate v => validate look v
  | .inspect i => inspect look i

def execute (look : Path → Entry) (c : Command) : Ending :=
  match (runCommand look c).run.run ⟨"", ""⟩ with
  | (.ok (), p) => ⟨0, p.out, p.err, none⟩
  | (.error (.status n), p) => ⟨n, p.out, p.err, none⟩
  | (.error (.fault f), p) => ⟨1, p.out, p.err, some f⟩

end Intake.CommandLine
