/-
The program: checks input against definitions, and shows them.
-/
import Intake.CommandLine.Run

open Intake Intake.CommandLine

def usageText : String :=
  "Usage: intake validate FILE [--input JSON|@FILE] [--recursive|--shallow] [--verbose] [--quiet]\n" ++
    "       intake inspect FILE [--format text|json|yaml]\n"

/-- what is found under a path -/
def entryAt (p : Path) : IO Entry := do
  try
    return .file (← IO.FS.readFile p.text)
  catch
    | .noFileOrDirectory .. => return .absent
    | .inappropriateType .. => return .directory
    | e => throw e

/-- runs the command that the arguments make on the files that it reads -/
def main (arguments : List String) : IO UInt32 := do
  match Command.ofArguments arguments with
  | none =>
    IO.eprint usageText
    return 2
  | some c =>
    let found ← c.paths.mapM fun p => do return (p, ← entryAt p)
    let look (p : Path) : Entry := ((found.find? (·.1 == p)).map (·.2)).getD .absent
    let ending := execute look c
    IO.print ending.out
    IO.eprint ending.err
    return ending.status.toUInt32
