/-
What a run tells about its progress.

A definition is finished when the last of its attributes is declared, the definitions inside it before itself.
Where a document is refused, those that were finished before are told of all the same.

Main definitions: `Builder.finished`, `Definition.notices`.
-/
import Intake.Definition.Load

namespace Intake

/-- something that happens in a run -/
inductive Notice where
  | defined (name : String) (attributes : Nat)
  | loaded (name : String) (attributes : Nat) (path : Path)
  | rejected (name : String) (failing : Nat)
  | accepted (name : String)
  deriving DecidableEq, Repr

namespace Notice

def verbosity : Notice → Nat
  | .loaded .. | .accepted _ => 1
  | .defined .. | .rejected .. => 2

def label (n : Notice) : String := if n.verbosity = 1 then "INFO" else "DEBUG"

def text : Notice → String
  | .defined name n => "Defined parameters '" ++ name ++ "' with " ++ numeral n ++ " attribute(s)"
  | .loaded name n path =>
    "Loaded parameters definition '" ++ name ++ "' (" ++ numeral n ++ " attributes) from " ++ path.text
  | .rejected name n => "Parameters '" ++ name ++ "' rejected: " ++ numeral n ++ " failing attribute(s)"
  | .accepted name => "Parameters accepted by definition '" ++ name ++ "'"

def line (n : Notice) : String := n.label ++ ": " ++ n.text ++ "\n"

end Notice

namespace Builder

/-- the notice of a definition that is finished -/
def notice (b : Builder) : Notice := .defined b.name b.attributes.length

/-- the notices of the definitions that are finished while configurations are declared -/
def finished (w : Workshop) (left : Nat) (b : Builder) (es : List (Value × Value)) : List Notice :=
  match es with
  | [] => []
  | (name, config) :: rest =>
    match Declaration.ofConfig w.registry w.known name config with
    | .error _ => []
    | .ok d =>
      let inside := match prepare w.registry b d, d.block, left with
        | .ok p, .document inner, k + 1 =>
          let start := b.inner p.name
          match declareDocument w k start inner with
          | .ok i => finished w k start inner ++ [i.notice]
          | .error _ => finished w k start inner
        | _, _, _ => []
      match declare w left b d with
      | .ok b => inside ++ finished w left b rest
      | .error _ => inside
termination_by (left, es.length)

end Builder

namespace Definition

/-- the notices of the definitions that are finished while a document is read -/
def notices (w : Workshop) (stamp : Nat) (v : Value) (name : Option String) : List Notice :=
  match draft v name none with
  | .error _ => []
  | .ok d =>
    let start : Builder := .empty d.name d.settings stamp
    let inside := Builder.finished w (d.settings.maxDepth - 1) start d.configs
    match Builder.declareDocument w (d.settings.maxDepth - 1) start d.configs with
    | .ok b => inside ++ [b.notice]
    | .error _ => inside

end Definition

end Intake
