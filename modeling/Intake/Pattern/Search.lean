/-
Searching a text for a pattern.

`Node.run` matches a tree at a position and goes on with what follows; what follows may fail, and then the
next way of matching is tried. The first way that succeeds counts, in the order that the pattern's operators
give: left alternatives first, greedy repetitions longest first. A repetition ends when its body has matched
nothing, so it goes round at most once for each character that is left, and once more.

`Compiled.search` tells whether a match begins anywhere.
-/
import Intake.Pattern.Basic

namespace Intake.Pattern

open Intake.Text

/-- where a match stands: the position, and what the groups have matched so far -/
structure Spot where
  position : Nat
  groups : List (Nat × Nat × Nat)
  deriving Repr

namespace Spot

def group? (s : Spot) (i : Nat) : Option (Nat × Nat) := (s.groups.find? (·.1 == i)).map (·.2)

def file (s : Spot) (i start stop : Nat) : Spot :=
  { s with groups := (i, start, stop) :: s.groups.filter (·.1 != i) }

end Spot

def wordAt (f : Flags) (text : Array Char) (i : Nat) : Bool :=
  match text[i]? with
  | some c => Category.word.holds f.ascii c
  | none => false

/-- an edge of a word: of the characters on both sides one is a word character -/
def atWordEdge (f : Flags) (text : Array Char) (i : Nat) : Bool :=
  (i != 0 && wordAt f text (i - 1)) != wordAt f text i

/-- a position is at a place -/
def Place.holds (f : Flags) (text : Array Char) (i : Nat) : Place → Bool
  | .lineStart => i == 0 || (f.multiLine && text[i - 1]? == some '\n')
  | .lineEnd =>
    i == text.size || (i + 1 == text.size && text[i]? == some '\n') || (f.multiLine && text[i]? == some '\n')
  | .textStart => i == 0
  | .textEnd => i == text.size
  | .wordEdge => atWordEdge f text i
  | .insideWord => text.size != 0 && !atWordEdge f text i

abbrev Next := Spot → Option Spot

/-- exactly `n` rounds of a body -/
def rounds (body : Next → Next) (k : Next) : Nat → Next
  | 0 => k
  | n + 1 => body (rounds body k n)

/-- up to `n` further rounds: as many as can be, or as few. After a round that has not moved on no other
follows -/
def furtherRounds (isLazy : Bool) (body : Next → Next) (k : Next) : Nat → Next
  | 0 => k
  | n + 1 => fun s =>
    let again := fun (_ : Unit) =>
      body (fun t => if t.position = s.position then k t else furtherRounds isLazy body k n t) s
    if isLazy then (k s).orElse again else (again ()).orElse (fun _ => k s)

/-- the characters of a span, compared with those at a position -/
def sameSpan (f : Flags) (text : Array Char) (start : Nat) : Nat → Nat → Bool
  | 0, _ => true
  | n + 1, at_ =>
    (match text[start]?, text[at_]? with
      | some c, some d => c == d || (f.ignoreCase && sameLetter c d)
      | _, _ => false) && sameSpan f text (start + 1) n (at_ + 1)

/-- the flags inside a group; naming an alphabet replaces the one outside -/
def innerFlags (f on off : Flags) (setsAlphabet : Bool) : Flags :=
  ((if setsAlphabet then { f with ascii := false } else f).union on).minus off

/-- matches a tree at a spot, then what follows -/
def Node.run (text : Array Char) (f : Flags) : Node → Next → Next
  | .empty, k => k
  | .one t, k => fun s =>
    match text[s.position]? with
    | some c => if t.holds f c then k { s with position := s.position + 1 } else none
    | none => none
  | .place p, k => fun s => if p.holds f text s.position then k s else none
  | .seq a b, k => a.run text f (b.run text f k)
  | .alt a b, k => fun s => (a.run text f k s).orElse fun _ => b.run text f k s
  | .loop g least most body, k => fun s =>
    let left := text.size - s.position + 1
    let extra := match most with
      | some m => min (m - least) left
      | none => left
    match g with
    | .greedy => rounds (body.run text f) (furtherRounds false (body.run text f) k extra) least s
    | .lazy => rounds (body.run text f) (furtherRounds true (body.run text f) k extra) least s
    | .possessive =>
      match rounds (body.run text f) (furtherRounds false (body.run text f) some extra) least s with
      | some t => k t
      | none => none
  | .group index on off setsAlphabet body, k => fun s =>
    let inner := innerFlags f on off setsAlphabet
    match index with
    | none => body.run text inner k s
    | some i => body.run text inner (fun t => k (t.file i s.position t.position)) s
  | .atomic body, k => fun s =>
    match body.run text f some s with
    | some t => k t
    | none => none
  | .lookAhead negated body, k => fun s =>
    match body.run text f some s with
    | some t => if negated then none else k { t with position := s.position }
    | none => if negated then k s else none
  | .lookBehind negated width body, k => fun s =>
    let found :=
      if s.position < width then none else body.run text f some { s with position := s.position - width }
    match found with
    | some t => if negated then none else k { t with position := s.position }
    | none => if negated then k s else none
  | .sameAs i, k => fun s =>
    match s.group? i with
    | some (start, stop) =>
      if sameSpan f text start (stop - start) s.position then k { s with position := s.position + (stop - start) }
      else none
    | none => none
  | .ifGroup i yes no, k => fun s =>
    if (s.group? i).isSome then yes.run text f k s else no.run text f k s

namespace Compiled

/-- a match begins at the position or after it, with `n` further positions to try -/
def searchFrom (p : Compiled) (text : Array Char) (start : Nat) : Nat → Bool
  | 0 => (p.root.run text p.flags some ⟨start, []⟩).isSome
  | n + 1 => (p.root.run text p.flags some ⟨start, []⟩).isSome || searchFrom p text (start + 1) n

def search (p : Compiled) (text : List Char) : Bool :=
  let chars := text.toArray
  p.searchFrom chars 0 chars.size

end Compiled

end Intake.Pattern
