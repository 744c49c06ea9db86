/-
The layout of scalars: in which style a text is written, and where its lines are broken.

A text stands without quotes if it then still reads as itself, between apostrophes if it holds nothing that
needs an escape, and between double quotes otherwise. A line that is longer than the width is broken at a
single space, which reading puts back.

Main definitions: `Traits.ofText`, `Scalar.style`, `Style.write`.
-/
import Intake.Yaml.Tag
import Intake.Text.Quoted

namespace Intake.Yaml

open Intake.Text Intake.Number

/-- a line is broken once it is longer than this -/
def width : Nat := 80

def isBreak (c : Char) : Bool := c == '\n' || c.toNat == 0x85 || c.toNat == 0x2028 || c.toNat == 0x2029

def isSpacing (c : Char) : Bool := c == ' ' || c == '\t' || c == '\r' || c == Char.ofNat 0 || isBreak c

def isPlainChar (c : Char) : Bool :=
  let n := c.toNat
  n == 10 || (0x20 ≤ n && n ≤ 0x7e) || n == 0x85 ||
    (0xa0 ≤ n && n != 0xfeff && n != 0xfffe && n != 0xffff && n < 0x10ffff)

/-- what a style must be able to hold -/
structure Traits where
  empty : Bool
  /-- more than one line -/
  multiline : Bool
  /-- would be taken for something else without quotes -/
  ambiguous : Bool
  /-- begins or ends with a space or a break -/
  ragged : Bool
  endsInSpace : Bool
  /-- a break and then a space -/
  spaceAfterBreak : Bool
  /-- a space and then a break, or a character that cannot be written as it is -/
  needsEscape : Bool

/-- the first characters that have a meaning of their own -/
def indicators : List Char := "#,[]&*!|>\"%@\x60\x27\x7b\x7d".toList

/-- a text that opens as a mark between documents does -/
def opensAsMark (cs : List Char) : Bool := cs.take 3 == ['-', '-', '-'] || cs.take 3 == ['.', '.', '.']

/-- a first character that would be read as more than a character -/
def isIndicatorFirst (c : Char) (rest : List Char) : Bool :=
  indicators.contains c || ((c == '?' || c == ':' || c == '-') && (rest.head?.map isSpacing).getD true)

/-- a colon before a spacing, or a number sign after one -/
def hasIndicatorInside : List Char → Bool
  | a :: b :: rest =>
    (b == ':' && (rest.head?.map isSpacing).getD true) || (b == '#' && isSpacing a) || hasIndicatorInside (b :: rest)
  | _ => false

/-- two neighbours of which the first and the second are of some kind -/
def hasPair (p q : Char → Bool) (cs : List Char) : Bool := (cs.zip cs.tail).any fun (a, b) => p a && q b

def isSpace (c : Char) : Bool := c == ' '

/-- the traits of a text -/
def Traits.ofText (cs : List Char) : Traits where
  empty := cs.isEmpty
  multiline := cs.any isBreak
  ambiguous :=
    match cs with
    | [] => false
    | c :: rest => opensAsMark cs || isIndicatorFirst c rest || hasIndicatorInside cs
  ragged := ((cs.head?.map fun c => isSpace c || isBreak c).getD false) ||
    ((cs.getLast?.map fun c => isSpace c || isBreak c).getD false)
  endsInSpace := (cs.getLast?.map isSpace).getD false
  spaceAfterBreak := hasPair isBreak isSpace cs
  needsEscape := hasPair isSpace isBreak cs || !cs.all isPlainChar

namespace Traits

def allowsPlain (t : Traits) : Bool :=
  !t.ragged && !t.spaceAfterBreak && !t.needsEscape && !t.multiline && !t.ambiguous

def allowsSingle (t : Traits) : Bool := !t.spaceAfterBreak && !t.needsEscape

def allowsBlock (t : Traits) : Bool := !t.empty && !t.endsInSpace && !t.needsEscape

end Traits

/-- how a scalar is written -/
inductive Style where
  | plain | single | double
  /-- a block of lines -/
  | block
  deriving DecidableEq, Repr

/-- a scalar that is to be written -/
structure Scalar where
  tag : Tag
  text : List Char
  /-- is written as a block of lines, if it can be -/
  wantsBlock : Bool

namespace Scalar

def readsPlain (s : Scalar) : Bool := Tag.ofPlain s.text == s.tag

/-- the style of a scalar; `inKey` tells whether it is the key of an entry, on one line with its value -/
def style (s : Scalar) (inKey : Bool) : Style :=
  let t := Traits.ofText s.text
  if s.wantsBlock then if !inKey && t.allowsBlock then .block else .double
  else if s.readsPlain && t.allowsPlain && !(inKey && (t.empty || t.multiline)) then .plain
  else if t.allowsSingle && !(inKey && t.multiline) then .single
  else .double

/-- the tag that must be written, since the style does not tell it -/
def writtenTag (s : Scalar) (style : Style) : List Char :=
  let told : Bool := match style with
    | .plain => s.readsPlain
    | _ => s.tag == .text
  if told then [] else s.tag.short.toList

end Scalar

/-! ## Lines -/

def newline (indent : Nat) : List Char := '\n' :: List.replicate indent ' '

/-- words without quotes from a column on; a line that is too long is broken at a single space -/
def plainWords (indent : Nat) (afterSpace : Bool) (column : Nat) : List Char → List Char
  | [] => []
  | c :: cs =>
    if c == ' ' && !afterSpace && cs.head? != some ' ' && width < column then
      newline indent ++ plainWords indent true indent cs
    else c :: plainWords indent (c == ' ') (column + 1) cs

/-- the inside of apostrophes from a column on. An apostrophe is doubled; a run of breaks is written with one
more, since reading folds the first -/
def singleInside (indent : Nat) (previous : Option Char) (column : Nat) : List Char → List Char
  | [] => if (previous.map isBreak).getD false then List.replicate indent ' ' else []
  | c :: cs =>
    let afterBreak := (previous.map isBreak).getD false
    if isBreak c then
      (if c == '\n' && !afterBreak then ['\n'] else []) ++ c :: singleInside indent (some c) 0 cs
    else
      let lead := if afterBreak then List.replicate indent ' ' else []
      let column := if afterBreak then indent else column
      let standsAlone := previous.isSome && previous != some ' ' && !cs.isEmpty && cs.head? != some ' '
      if c == ' ' && standsAlone && width < column then
        lead ++ newline indent ++ singleInside indent (some c) indent cs
      else if c == '\x27' then lead ++ '\x27' :: '\x27' :: singleInside indent (some c) (column + 2) cs
      else lead ++ c :: singleInside indent (some c) (column + 1) cs

def letterEscapes : List (Nat × Char) := [
  (0, '0'), (7, 'a'), (8, 'b'), (9, 't'), (10, 'n'), (11, 'v'), (12, 'f'), (13, 'r'), (0x1b, 'e'), (0x22, '"'),
  (0x5c, '\\'), (0x85, 'N'), (0x2028, 'L'), (0x2029, 'P')]

def upperHex (width n : Nat) : List Char := (hexDigits width n).map Char.toUpper

/-- a character between double quotes, where it stands as it is only if it is printable and of sixteen bits -/
def doubleEscape (c : Char) : Option (List Char) :=
  let n := c.toNat
  if isPlainChar c && c != '\n' && c != '"' && c != '\\' && !isBreak c && n < 0x10000 then none
  else match letterEscapes.lookup n with
    | some letter => some ['\\', letter]
    | none =>
      if n ≤ 0xff then some ('\\' :: 'x' :: upperHex 2 n)
      else if n ≤ 0xffff then some ('\\' :: 'u' :: upperHex 4 n)
      else some ('\\' :: 'U' :: upperHex 8 n)

/-- a broken line between double quotes; a space that would open the next is escaped -/
def doubleBreak (indent : Nat) (next : Option Char) : List Char × Nat :=
  if next == some ' ' then ('\\' :: newline indent ++ ['\\'], indent + 1) else ('\\' :: newline indent, indent)

/-- the inside of double quotes from a column on. The line may be broken before a space, and before and after
an escape; `afterEscape` tells that one comes before, and `isFirst` that nothing does -/
def doubleInside (indent : Nat) (fold isFirst afterEscape : Bool) (column : Nat) : List Char → List Char
  | [] => []
  | c :: cs =>
    let inside := fold && !isFirst && !cs.isEmpty
    match doubleEscape c with
    | some e =>
      let column := column + e.length
      if inside && width + 1 < column then
        let (gap, column) := doubleBreak indent cs.head?
        e ++ gap ++ doubleInside indent fold false true column cs
      else e ++ doubleInside indent fold false true column cs
    | none =>
      if inside && (c == ' ' || afterEscape) && width < column then
        let (gap, column) := doubleBreak indent (some c)
        gap ++ c :: doubleInside indent fold false false (column + 1) cs
      else c :: doubleInside indent fold false false (column + 1) cs

/-- the lines of a block, each with its indentation; the last break is left to what follows -/
def blockLines (indent : Nat) (atStart : Bool) : List Char → List Char
  | [] => []
  | ['\n'] => []
  | '\n' :: cs => '\n' :: blockLines indent true cs
  | c :: cs => (if atStart then List.replicate indent ' ' else []) ++ c :: blockLines indent false cs

/-- a scalar in a style, from a column on -/
def Style.write (style : Style) (inKey : Bool) (indent column : Nat) (cs : List Char) : List Char :=
  match style with
  | .plain => if inKey then cs else plainWords indent false column cs
  | .single =>
    '\x27' :: (if inKey then cs.flatMap fun c => if c == '\x27' then [c, c] else [c]
      else singleInside indent none (column + 1) cs) ++ ['\x27']
  | .double => '"' :: doubleInside indent (!inKey) true false (column + 1) cs ++ ['"']
  | .block => '|' :: '\n' :: blockLines indent true cs

end Intake.Yaml
