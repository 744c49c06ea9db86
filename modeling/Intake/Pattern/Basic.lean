/-
Patterns: regular expressions with groups, references, look-around, atomic groups and flags.

`Pattern` is the tree that a pattern's text is read into. Flags stand on groups and hold for what is inside;
the flags of the whole pattern stand beside the tree. A width is the number of characters that a tree can
match, from the least to the most; a look-behind needs the two to be equal.
-/
import Intake.Text.WordChar
import Intake.Text.Blank
import Intake.Text.LetterCase

namespace Intake.Pattern

open Intake.Text

/-- how a pattern is to be read and matched -/
structure Flags where
  ignoreCase : Bool
  multiLine : Bool
  dotAll : Bool
  verbose : Bool
  ascii : Bool
  deriving DecidableEq, Repr

namespace Flags

def none : Flags := ⟨false, false, false, false, false⟩

def union (f g : Flags) : Flags :=
  ⟨f.ignoreCase || g.ignoreCase, f.multiLine || g.multiLine, f.dotAll || g.dotAll, f.verbose || g.verbose,
    f.ascii || g.ascii⟩

/-- the flags of the first that are not in the second -/
def minus (f g : Flags) : Flags :=
  ⟨f.ignoreCase && !g.ignoreCase, f.multiLine && !g.multiLine, f.dotAll && !g.dotAll, f.verbose && !g.verbose,
    f.ascii && !g.ascii⟩

def meets (f g : Flags) : Bool :=
  (f.ignoreCase && g.ignoreCase) || (f.multiLine && g.multiLine) || (f.dotAll && g.dotAll) ||
    (f.verbose && g.verbose) || (f.ascii && g.ascii)

end Flags

/-- classes of characters that have an escape of their own -/
inductive Category where
  | digit | space | word
  deriving DecidableEq, Repr

/-- one item of a set of characters, which stand here as numbers: half of a pair is a number as well, though no
character -/
inductive SetItem where
  | single (code : Nat)
  | span (first last : Nat)
  | category (k : Category) (negated : Bool)
  deriving DecidableEq, Repr

/-- a test of one character -/
inductive CharTest where
  | anything
  | oneOf (negated : Bool) (items : List SetItem)
  deriving DecidableEq, Repr

/-- a place between characters -/
inductive Place where
  | lineStart | lineEnd | textStart | textEnd | wordEdge | insideWord
  deriving DecidableEq, Repr

/-- how a repetition goes on: as often as it can, as seldom, or as often as it can without going back -/
inductive Greed where
  | greedy | lazy | possessive
  deriving DecidableEq, Repr

/-- a regular expression -/
inductive Node where
  | empty
  | one (t : CharTest)
  | place (p : Place)
  | seq (a b : Node)
  | alt (a b : Node)
  | loop (g : Greed) (least : Nat) (most : Option Nat) (body : Node)
  | group (index : Option Nat) (on off : Flags) (setsAlphabet : Bool) (body : Node)
  | atomic (body : Node)
  | lookAhead (negated : Bool) (body : Node)
  | lookBehind (negated : Bool) (width : Nat) (body : Node)
  | sameAs (index : Nat)
  | ifGroup (index : Nat) (yes no : Node)
  deriving DecidableEq, Repr

/-- the least and the most characters that a tree matches -/
structure Width where
  least : Nat
  most : Option Nat
  deriving DecidableEq, Repr

namespace Width

def exactly (n : Nat) : Width := ⟨n, some n⟩

def plus (a b : Width) : Width :=
  ⟨a.least + b.least, match a.most, b.most with
    | some m, some n => some (m + n)
    | _, _ => none⟩

def either (a b : Width) : Width :=
  ⟨min a.least b.least, match a.most, b.most with
    | some m, some n => some (max m n)
    | _, _ => none⟩

def times (w : Width) (least : Nat) (most : Option Nat) : Width :=
  ⟨w.least * least, match w.most, most with
    | some m, some n => some (m * n)
    | some 0, none => some 0
    | _, _ => none⟩

/-- the largest number of repetitions that may be asked for, and one more -/
def limit : Nat := 4294967295

/-- the one width, if it cannot vary and is below the limit -/
def fixed? (w : Width) : Option Nat := if w.most = some w.least ∧ w.least < limit then some w.least else none

end Width

/-- the width of a tree, given the widths of groups -/
def Node.width (groups : List (Nat × Width)) : Node → Width
  | .empty => .exactly 0
  | .one _ => .exactly 1
  | .place _ => .exactly 0
  | .seq a b => (a.width groups).plus (b.width groups)
  | .alt a b => (a.width groups).either (b.width groups)
  | .loop _ least most body => (body.width groups).times least most
  | .group _ _ _ _ body => body.width groups
  | .atomic body => body.width groups
  | .lookAhead _ _ => .exactly 0
  | .lookBehind _ _ _ => .exactly 0
  | .sameAs i => ((groups.find? (·.1 == i)).map (·.2)).getD (.exactly 0)
  | .ifGroup _ yes no => (yes.width groups).either (no.width groups)

/-- a pattern that can be matched -/
structure Compiled where
  flags : Flags
  root : Node
  deriving Repr

/-! ## Tests of one character -/

def sameLetter (c d : Char) : Bool :=
  let low (x : Char) : Char := (lowerChar x).headD x
  low c == low d || upperChar (low c) == upperChar (low d)

/-- a character of a category; under `ascii` only ASCII characters are -/
def Category.holds (ascii : Bool) (k : Category) (c : Char) : Bool :=
  let plain := !ascii || decide (c.toNat < 0x80)
  plain && match k with
    | .digit => isDecimalDigit c
    | .space => isBlank c && !(ascii && decide (0x1c ≤ c.toNat ∧ c.toNat ≤ 0x1f))
    | .word => isWordChar c

/-- a character that a set's item holds, in either case if case is ignored -/
def SetItem.holds (f : Flags) (c : Char) : SetItem → Bool
  | .single n => c.toNat == n || (f.ignoreCase && n.isValidChar && sameLetter c (Char.ofNat n))
  | .span a b =>
    let within (x : Char) : Bool := decide (a ≤ x.toNat ∧ x.toNat ≤ b)
    within c || (f.ignoreCase &&
      (within ((lowerChar c).headD c) || within ((upperChar c).headD c) ||
        within ((upperChar ((lowerChar c).headD c)).headD c)))
  | .category k negated => k.holds f.ascii c != negated

def CharTest.holds (f : Flags) (t : CharTest) (c : Char) : Bool :=
  match t with
  | .anything => f.dotAll || c != '\n'
  | .oneOf negated items => items.any (·.holds f c) != negated

end Intake.Pattern
