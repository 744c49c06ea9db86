/-
Documents as values.

A mapping first takes the entries of the mappings that it merges, which come before its own; of equal keys the
last entry counts. A key must be a scalar. What is wrong in a document is met level by level, so of two troubles
the one nearer to the root comes first.

Main definition: `read`.
-/
import Intake.Yaml.ScalarValue

namespace Intake.Yaml

namespace Node

def tag : Node → Tag
  | .scalar t _ => t
  | .list t _ => t
  | .mapping t _ => t
  | .endless => .null

/-- the key of a mapping's own value counts as a text -/
def asKey (n : Node) : Node :=
  match n with
  | .scalar .plainValue cs => .scalar .text cs
  | n => n

/-- the text of a scalar; a mapping has the text of its own value -/
def scalarText? : Node → Option (List Char)
  | .scalar _ cs => some cs
  | .mapping _ es => ownText? es
  | _ => none
where
  /-- the text of the first value whose key says that it is the mapping's own -/
  ownText? : List (Node × Node) → Option (List Char)
    | [] => none
    | (k, v) :: es => if k.tag == .plainValue then scalarText? v else ownText? es

mutual

/-- the entries that merging with a node takes: those of a mapping, or of each mapping in a list, the last
first -/
def merging : Node → Scan (List (Node × Node))
  | .mapping _ es => do
    let (merged, own) ← flatten es
    .ok (merged ++ own)
  | .list _ xs => mergingAll xs
  | .endless => .error (.fault .tooDeep)
  | .scalar .. => malformed

/-- the entries that merging with each of several mappings takes -/
def mergingAll : List Node → Scan (List (Node × Node))
  | [] => .ok []
  | x :: xs => do
    let es ← mergingMapping x
    let rest ← mergingAll xs
    .ok (rest ++ es)

/-- the entries that merging with a mapping takes -/
def mergingMapping : Node → Scan (List (Node × Node))
  | .mapping _ es => do
    let (merged, own) ← flatten es
    .ok (merged ++ own)
  | .endless => .error (.fault .tooDeep)
  | _ => malformed

/-- the entries that a mapping merges, and its own -/
def flatten : List (Node × Node) → Scan (List (Node × Node) × List (Node × Node))
  | [] => .ok ([], [])
  | (k, v) :: es =>
    if k.tag == .merge then do
      let first ← merging v
      let (merged, own) ← flatten es
      .ok (first ++ merged, own)
    else do
      let (merged, own) ← flatten es
      .ok (merged, (k.asKey, v) :: own)

end

/-- the entries of a mapping with those that it merges -/
def allEntries (es : List (Node × Node)) : Scan (List (Node × Node)) := do
  let (merged, own) ← flatten es
  .ok (merged ++ own)

mutual

def height : Node → Nat
  | .list _ xs => heightOfAll xs + 1
  | .mapping _ es => heightOfEntries es + 1
  | _ => 1

def heightOfAll : List Node → Nat
  | [] => 0
  | x :: xs => max x.height (heightOfAll xs)

def heightOfEntries : List (Node × Node) → Nat
  | [] => 0
  | (k, v) :: es => max (max k.height v.height) (heightOfEntries es)

end

end Node

/-! ## Levels -/

/-- a trouble and the level at which it is met -/
structure Met where
  level : Nat
  trouble : Trouble

abbrev Make := Except Met

def met {α : Type} (level : Nat) (x : Scan α) : Make α :=
  match x with
  | .ok a => .ok a
  | .error t => .error ⟨level, t⟩

/-- two parts; of two troubles the one nearer to the root is met first -/
def both {α β : Type} (x : Make α) (y : Make β) : Make (α × β) :=
  match x, y with
  | .ok a, .ok b => .ok (a, b)
  | .error s, .error t => .error (if t.level < s.level then t else s)
  | .error s, .ok _ => .error s
  | .ok _, .error t => .error t

def every {α : Type} : List (Make α) → Make (List α)
  | [] => .ok []
  | x :: xs => (both x (every xs)).map fun (a, as) => a :: as

def Tag.isCollection : Tag → Bool
  | .list | .hash | .set | .pairs | .orderedPairs => true
  | _ => false

/-- the single entry of each of several mappings -/
def singleEntries (xs : List Node) : List (Scan (Node × Node)) :=
  xs.map fun x => match x with
    | .mapping _ [e] => .ok e
    | _ => malformed

/-- an entry of a list of pairs, given how its parts are made -/
def makePair (level : Nat) (make : Node → Make Value) (e : Scan (Node × Node)) : Make Value :=
  match e with
  | .error t => .error ⟨level, t⟩
  | .ok (k, v) => (both (make k) (make v)).map fun (a, b) => .tuple [a, b]

/-- an entry of a mapping, given how its parts are made; a collection cannot be a key -/
def makeEntry (level : Nat) (make : Node → Make Value) (e : Node × Node) : Make (Value × Value) :=
  if e.1.tag.isCollection then .error ⟨level, .malformed⟩ else both (make e.1) (make e.2)

/-- the entries of a mapping, with those that it merges, given how parts are made -/
def makeEntries (level : Nat) (make : Node → Make Value) (es : List (Node × Node)) : Make (List (Value × Value)) := do
  let es ← met level (Node.allEntries es)
  let made ← every (es.map (makeEntry level make))
  .ok (Value.ofEntries made)

/-- the value of a node that is met at a level; what is inside a collection is met at the next -/
def make : Nat → Nat → Node → Make Value
  | 0, level, _ => .error ⟨level, .malformed⟩
  | fuel + 1, level, n =>
    let inner := make fuel (level + 1)
    match n.tag, n with
    | _, .endless => .error ⟨level, .fault .tooDeep⟩
    | .list, .list _ xs => (every (xs.map inner)).map .list
    | .pairs, .list _ xs | .orderedPairs, .list _ xs =>
      (every ((singleEntries xs).map (makePair (level + 1) inner))).map .list
    | .hash, .mapping _ es => (makeEntries (level + 1) inner es).map (.map false)
    | .set, .mapping _ es => (makeEntries (level + 1) inner es).map fun es => .set false (es.map (·.1))
    | tag, n =>
      if tag.isCollection then .error ⟨level + 1, .malformed⟩
      else
        match n.scalarText? with
        | some cs => met level (scalarValue tag cs)
        | none => .error ⟨level, .malformed⟩

/-- the value of the document in a text; nothing for a text without one -/
def read (text : String) : Scan Value := do
  match ← Node.ofText text.toList with
  | none => .ok .null
  | some n =>
    match make n.height 0 n with
    | .ok v => .ok v
    | .error m => .error m.trouble

end Intake.Yaml
