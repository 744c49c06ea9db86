/-
The arguments of the command line.

There are two commands. `validate` checks input against a definition, `inspect` shows the attributes of a
definition; each takes the path of the definition. Options may stand before and after the path. An option of one
letter takes its value from the rest of its argument or from the next one, a long option after an equals sign or
from the next argument; several letters without values may share one hyphen. After two hyphens alone no argument
is an option. Of an option that is given several times the last counts, except that `-v` counts how often.

Main definitions: `split`, the options and the others; `Command.ofArguments`, the command that they make, or
nothing where they make none.
-/
import Intake.File

namespace Intake.CommandLine

/-- a part of the command line -/
inductive Part where
  | other (text : String)
  | flag (name : String)
  | option (name value : String)
  deriving DecidableEq, Repr

/-- what an option takes -/
inductive Taking where
  | nothing
  | value
  deriving DecidableEq, Repr

abbrev Options := List (String × Taking)

def Options.find (os : Options) (name : String) : Option Taking := (os.find? (·.1 == name)).map (·.2)

/-- the parts that one argument makes, and the option, if any, that takes the next argument as its value -/
abbrev Opened := List Part × Option String

/-- the options of an argument with one hyphen, which is taken off -/
def letters (os : Options) : List Char → Option Opened
  | [] => some ([], none)
  | c :: cs =>
    let name := String.ofList ['-', c]
    match os.find name with
    | none => none
    | some .nothing => (letters os cs).map fun (ps, awaiting) => (.flag name :: ps, awaiting)
    | some .value => some (if cs.isEmpty then ([], some name) else ([.option name (String.ofList cs)], none))

/-- the option of an argument with two hyphens -/
def long (os : Options) (cs : List Char) : Option Opened :=
  let name := String.ofList (cs.takeWhile (· != '='))
  match os.find name, cs.dropWhile (· != '=') with
  | some .nothing, [] => some ([.flag name], none)
  | some .value, [] => some ([], some name)
  | some .value, _ :: value => some ([.option name (String.ofList value)], none)
  | _, _ => none

def opened (os : Options) (argument : String) : Option Opened :=
  match argument.toList with
  | '-' :: '-' :: cs => long os ('-' :: '-' :: cs)
  | '-' :: c :: cs => letters os (c :: cs)
  | _ => some ([.other argument], none)

/-- the parts of the rest of a command line, where an option may await its value -/
def splitFrom (os : Options) : Option String → List String → Option (List Part)
  | none, [] => some []
  | some _, [] => none
  | some name, value :: rest => (splitFrom os none rest).map (.option name value :: ·)
  | none, a :: rest =>
    if a = "--" then some (rest.map .other)
    else
      match opened os a with
      | none => none
      | some (ps, awaiting) => (splitFrom os awaiting rest).map (ps ++ ·)

/-- the parts of a command line; nothing where an option is unknown or lacks its value -/
def split (os : Options) (arguments : List String) : Option (List Part) := splitFrom os none arguments

def others (ps : List Part) : List String :=
  ps.filterMap fun p => match p with
    | .other s => some s
    | _ => none

def count (names : List String) (ps : List Part) : Nat :=
  ps.countP fun p => match p with
    | .flag n => names.contains n
    | _ => false

/-- the last value that an option is given under one of its names -/
def lastValue (names : List String) (ps : List Part) : Option String :=
  (ps.filterMap fun p => match p with
    | .option n v => if names.contains n then some v else none
    | _ => none).getLast?

def lastFlag (names : List String) (ps : List Part) : Option String :=
  (ps.filterMap fun p => match p with
    | .flag n => if names.contains n then some n else none
    | _ => none).getLast?

/-! ## Commands -/

/-- how `inspect` shows a definition -/
inductive Format where
  | text
  | json
  | yaml
  deriving DecidableEq, Repr

def Format.ofName? (s : String) : Option Format :=
  if s = "text" then some .text else if s = "json" then some .json else if s = "yaml" then some .yaml else none

/-- what `validate` is asked for -/
structure Validation where
  file : Path
  /-- JSON text, or the path of a file after an at sign -/
  input : Option String
  /-- nested parameters are shown as mappings -/
  recursive : Bool
  verbosity : Nat
  quiet : Bool
  deriving DecidableEq, Repr

/-- what `inspect` is asked for -/
structure Inspection where
  file : Path
  format : Format
  deriving DecidableEq, Repr

inductive Command where
  | validate (v : Validation)
  | inspect (i : Inspection)
  deriving DecidableEq, Repr

def validateOptions : Options := [
  ("--input", .value), ("-i", .value), ("--recursive", .nothing), ("--shallow", .nothing), ("--verbose", .nothing),
  ("-v", .nothing), ("--quiet", .nothing), ("-q", .nothing)]

def inspectOptions : Options := [("--format", .value), ("-f", .value)]

/-- a command needs the path of a definition and nothing more -/
def pathOf (ps : List Part) : Option Path :=
  match others ps with
  | [s] => some (Path.ofText s)
  | _ => none

def Validation.ofParts (ps : List Part) : Option Validation := do
  let file ← pathOf ps
  some {
    file
    input := lastValue ["--input", "-i"] ps
    recursive := lastFlag ["--recursive", "--shallow"] ps != some "--shallow"
    verbosity := count ["--verbose", "-v"] ps
    quiet := count ["--quiet", "-q"] ps != 0 }

def Inspection.ofParts (ps : List Part) : Option Inspection := do
  let file ← pathOf ps
  let format ← match lastValue ["--format", "-f"] ps with
    | none => some Format.text
    | some s => Format.ofName? s
  some ⟨file, format⟩

namespace Command

/-- the command that its name and the arguments after it make -/
def named (name : String) (arguments : List String) : Option Command :=
  if name = "validate" then do
    let ps ← split validateOptions arguments
    (Validation.ofParts ps).map .validate
  else if name = "inspect" then do
    let ps ← split inspectOptions arguments
    (Inspection.ofParts ps).map .inspect
  else none

def ofArguments : List String → Option Command
  | "--" :: name :: rest => named name rest
  | name :: rest => named name rest
  | [] => none

def inputPath? (input : String) : Option Path :=
  match input.toList with
  | '@' :: cs => some (Path.ofText (String.ofList cs))
  | _ => none

def paths : Command → List Path
  | .validate v => v.file :: ((v.input.bind inputPath?).toList)
  | .inspect i => [i.file]

end Command

end Intake.CommandLine
