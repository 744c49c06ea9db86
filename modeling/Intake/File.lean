/-
Paths, and the texts that are kept under them.

A path is a root, which is empty for a path from the working directory, and the names below it; empty names and
those that stand for the directory itself are left out. The stem of a path is its last name without its last
ending, as long as something stands before and after the dot.

Main statement: a text without carriage returns is read as it is (`unifyBreaks_eq`).
-/
import Intake.Text.Pieces

namespace Intake

/-- a path to a file -/
structure Path where
  root : String
  parts : List String
  deriving DecidableEq, Repr

/-- what is found under a path -/
inductive Entry where
  | absent
  | directory
  | file (text : String)

namespace Path

/-- two slashes are a root of their own, any other number of them is the usual one -/
def rootOf (cs : List Char) : String :=
  match (cs.takeWhile (· == '/')).length with
  | 0 => ""
  | 2 => "//"
  | _ => "/"

def ofText (s : String) : Path :=
  let names := (Text.pieces '/' s.toList).map String.ofList
  ⟨rootOf s.toList, names.filter fun n => n != "" && n != "."⟩

def text (p : Path) : String :=
  if p.root == "" && p.parts.isEmpty then "." else p.root ++ "/".intercalate p.parts

def dropEnding (name : List Char) : List Char :=
  let ending := name.reverse.takeWhile (· != '.')
  match name.reverse.dropWhile (· != '.') with
  | _ :: before => if before.isEmpty || ending.isEmpty then name else before.reverse
  | [] => name

def stem (p : Path) : String := String.ofList (dropEnding (p.parts.getLastD "").toList)

end Path

/-- texts by the paths under which they are kept in the working directory -/
abbrev Folder := List (Path × String)

def Folder.entry (f : Folder) (p : Path) : Entry :=
  if p.parts.all (· == "..") then .directory
  else
    match f.reverse.find? (·.1 == p) with
    | some (_, text) => .file text
    | none => if f.any (fun e => e.1.root == p.root && p.parts.isPrefixOf e.1.parts) then .directory else .absent

/-! ## Line breaks -/

def unifyBreaks : List Char → List Char
  | '\r' :: '\n' :: cs => '\n' :: unifyBreaks cs
  | '\r' :: cs => '\n' :: unifyBreaks cs
  | c :: cs => c :: unifyBreaks cs
  | [] => []

theorem unifyBreaks_eq (cs : List Char) (h : '\r' ∉ cs) : unifyBreaks cs = cs := by
  fun_induction unifyBreaks cs with
  | case1 cs ih => simp at h
  | case2 cs _ ih => simp at h
  | case3 c cs _ hc ih => rw [ih fun h' => h (List.mem_cons_of_mem _ h')]
  | case4 => rfl

def readText (s : String) : String := String.ofList (unifyBreaks s.toList)

end Intake
