/-
The texts of scalars: without quotes, between quotes, and in blocks.

Lines are folded: one end of a line reads as a space, and each further one as itself. A scalar without quotes
ends where a mark of the format begins; between double quotes there are escapes; a block keeps its lines, or
folds them, and its header tells what becomes of the ends at its tail.

Every function that reads characters one after another takes as fuel the length of what is left.

Main definitions: `plainScalar`, `quotedScalar`, `blockScalar`.
-/
import Intake.Yaml.Cursor

namespace Intake.Yaml

open Intake.Number Intake.Text

def Cursor.fuel (c : Cursor) : Nat := c.rest.length + 1

/-- folded ends of lines: the first is a space if it stands alone and nothing if others follow; a separator of
its own is kept -/
def folded (first others : List Char) : List Char :=
  if first != ['\n'] then first ++ others
  else if others.isEmpty then [' ']
  else others

/-! ## Without quotes -/

/-- a scalar without quotes ends before this character -/
def endsPlain (inFlow : Bool) (c next : Char) : Bool :=
  isSpacing c || (c == ':' && (isSpacing next || (inFlow && [',', '[', ']', '\x7b', '\x7d'].contains next))) ||
    (inFlow && [',', '?', '[', ']', '\x7b', '\x7d'].contains c)

/-- the characters of a scalar without quotes up to a spacing or a mark -/
def plainWord (inFlow : Bool) : List Char → List Char
  | [] => []
  | c :: cs => if endsPlain inFlow c (cs.headD endChar) then [] else c :: plainWord inFlow cs

/-- the ends of lines and spaces at a cursor, as they read; nothing if a mark between documents is met -/
def plainBreaks : Nat → Cursor → List Char → Option (List Char) × Cursor
  | 0, c, breaks => (some breaks, c)
  | fuel + 1, c, breaks =>
    if c.peek == ' ' then plainBreaks fuel c.next breaks
    else
      match c.lineBreak with
      | ([], c) => (some breaks, c)
      | (ch, c) => if c.atMark then (none, c) else plainBreaks fuel c (breaks ++ ch)

/-- the spacing inside a scalar without quotes -/
structure PlainGap where
  /-- as it reads; nothing where the scalar ends -/
  text : List Char
  cursor : Cursor
  /-- it crosses the end of a line -/
  crosses : Bool

/-- the spacing at a cursor -/
def plainGap (c : Cursor) : PlainGap :=
  let (spaces, c) := c.span isSpace
  match c.lineBreak with
  | ([], c) => ⟨spaces, c, false⟩
  | (first, c) =>
    if c.atMark then ⟨[], c, true⟩
    else
      match plainBreaks c.fuel c [] with
      | (some others, c) => ⟨folded first others, c, true⟩
      | (none, c) => ⟨[], c, true⟩

/-- a scalar that is read -/
structure ScalarText where
  text : List Char
  cursor : Cursor
  /-- it ends after the end of a line -/
  crossed : Bool

/-- a scalar without quotes, given what is read of it and the gap after that; it goes on while lines are
indented by at least `indent` -/
def plainFrom (inFlow : Bool) (indent : Int) : Nat → List Char → PlainGap → ScalarText
  | 0, text, gap => ⟨text, gap.cursor, gap.crosses⟩
  | fuel + 1, text, gap =>
    let c := gap.cursor
    if gap.text.isEmpty || c.peek == '#' || (!inFlow && (c.column : Int) < indent) then ⟨text, c, gap.crosses⟩
    else
      match plainWord inFlow c.rest with
      | [] => ⟨text, c, gap.crosses⟩
      | word => plainFrom inFlow indent fuel (text ++ gap.text ++ word) (plainGap (c.skip word.length))

/-- a scalar without quotes in a block of some indentation -/
def plainScalar (inFlow : Bool) (indent : Int) (c : Cursor) : ScalarText :=
  let word := plainWord inFlow c.rest
  plainFrom inFlow (indent + 1) c.fuel word (plainGap (c.skip word.length))

/-! ## Between quotes -/

def escapeLetters : List (Char × Nat) := [
  ('0', 0), ('a', 7), ('b', 8), ('t', 9), ('\t', 9), ('n', 10), ('v', 11), ('f', 12), ('r', 13), ('e', 0x1b),
  (' ', 0x20), ('"', 0x22), ('\\', 0x5c), ('/', 0x2f), ('N', 0x85), ('_', 0xa0), ('L', 0x2028), ('P', 0x2029)]

/-- how many hexadecimal digits the letter of an escape takes -/
def escapeWidths : List (Char × Nat) := [('x', 2), ('u', 4), ('U', 8)]

/-- the character of a number; a surrogate reads as the replacement character, and there is none beyond the
range -/
def charOfCode (n : Nat) : Scan Char :=
  if n ≤ 0x10ffff then .ok (if 0xd800 ≤ n ∧ n < 0xe000 then replacement else Char.ofNat n)
  else if n < Nat.pow 2 31 then .error (.fault .badValue)
  else .error (.fault .outOfRange)

/-- the ends of lines and blanks at a cursor inside quotes, as they read -/
def quotedBreaks : Nat → Cursor → List Char → Scan (List Char × Cursor)
  | 0, c, breaks => .ok (breaks, c)
  | fuel + 1, c, breaks =>
    if c.atMark then malformed
    else
      match (c.span isGap).2.lineBreak with
      | ([], c) => .ok (breaks, c)
      | (ch, c) => quotedBreaks fuel c (breaks ++ ch)

/-- the spacing at a cursor inside quotes -/
def quotedGap (c : Cursor) : Scan (List Char × Cursor) := do
  let (blanks, c) := c.span isGap
  if c.peek == endChar then malformed
  else
    match c.lineBreak with
    | ([], c) => .ok (blanks, c)
    | (first, c) => do
      let (others, c) ← quotedBreaks c.fuel c []
      .ok (folded first others, c)

/-- an escape, from after its backslash -/
def quotedEscape (c : Cursor) : Scan (List Char × Cursor) := do
  let ch := c.peek
  match escapeLetters.lookup ch, escapeWidths.lookup ch with
  | some n, _ => .ok ([Char.ofNat n], c.next)
  | none, some width =>
    let ds := c.next.rest.take width
    match if ds.length = width then ofBaseDigits? 16 ds else none with
    | some n => do .ok ([← charOfCode n], c.next.skip width)
    | none => malformed
  | none, none =>
    match c.lineBreak with
    | ([], _) => malformed
    | (_, c) => quotedBreaks c.fuel c []

/-- the inside of quotes up to the closing one -/
def quotedFrom (quote : Char) : Nat → Cursor → List Char → Scan (List Char × Cursor)
  | 0, _, _ => malformed
  | fuel + 1, c, text =>
    let ch := c.peek
    if ch == quote then
      if quote == '\x27' && c.peekAt 1 == quote then quotedFrom quote fuel (c.skip 2) (text ++ [quote])
      else .ok (text, c.next)
    else if quote == '"' && ch == '\\' then do
      let (part, c) ← quotedEscape c.next
      quotedFrom quote fuel c (text ++ part)
    else if isSpacing ch then do
      let (gap, c) ← quotedGap c
      quotedFrom quote fuel c (text ++ gap)
    else
      let (word, c) := c.span fun ch => !isSpacing ch && ch != quote && !(quote == '"' && ch == '\\')
      quotedFrom quote fuel c (text ++ word)

def quotedScalar (c : Cursor) : Scan (List Char × Cursor) := quotedFrom c.peek c.fuel c.next []

/-! ## Blocks -/

/-- what becomes of the ends of lines at the tail of a block -/
inductive Chomping where
  | strip | clip | keep
  deriving DecidableEq, Repr

/-- the header of a block -/
structure BlockHeader where
  chomping : Chomping
  /-- the indentation beyond that of the collection around it, if it is given -/
  extra : Option Nat

/-- what a character of a header says of the tail -/
def chomping? (c : Char) : Option Chomping := if c == '+' then some .keep else if c == '-' then some .strip else none

/-- what a character of a header says of the indentation -/
def extra? (c : Char) : Option Nat := if c.isDigit then some (c.toNat - 48) else none

/-- the header of a block, with its two parts in any order, and the rest of its line -/
def blockHeader (c : Cursor) : Scan (BlockHeader × Cursor) := do
  let (chomping, extra, c) :=
    match chomping? c.peek, extra? c.peek with
    | some t, _ =>
      match extra? c.next.peek with
      | some n => (t, some n, c.skip 2)
      | none => (t, none, c.next)
    | none, some n =>
      match chomping? c.next.peek with
      | some t => (t, some n, c.skip 2)
      | none => (.clip, some n, c.next)
    | none, none => (.clip, none, c)
  if extra == some 0 || !(c.peek == ' ' || endsLine c.peek) then malformed
  else
    let c := c.skipSpaces.skipComment
    if endsLine c.peek then .ok (⟨chomping, extra⟩, c.lineBreak.2) else malformed

/-- the empty lines before a block, the widest of their indentations, and the place after them -/
def blockOpening : Nat → Cursor → List Char → Nat → List Char × Nat × Cursor
  | 0, c, breaks, widest => (breaks, widest, c)
  | fuel + 1, c, breaks, widest =>
    if c.peek == ' ' then blockOpening fuel c.next breaks (max widest c.next.column)
    else
      match c.lineBreak with
      | ([], c) => (breaks, widest, c)
      | (ch, c) => blockOpening fuel c (breaks ++ ch) widest

/-- the place after the spaces at a cursor, at most up to a column -/
def Cursor.skipIndent (c : Cursor) (indent : Nat) : Cursor :=
  c.skip ((c.rest.take (indent - c.column)).takeWhile isSpace).length

/-- the empty lines inside a block, and the place after them -/
def blockBreaks (indent : Nat) : Nat → Cursor → List Char → List Char × Cursor
  | 0, c, breaks => (breaks, c)
  | fuel + 1, c, breaks =>
    match (c.skipIndent indent).lineBreak with
    | ([], c) => (breaks, c)
    | (ch, c) => blockBreaks indent fuel c (breaks ++ ch)

/-- the tail of a block: the end of its last line, and the empty lines after it -/
def chomped (t : Chomping) (last breaks : List Char) : List Char :=
  match t with
  | .strip => []
  | .clip => last
  | .keep => last ++ breaks

/-- the lines of a block, given what is read of it and the empty lines before the next -/
def blockFrom (isFolded : Bool) (t : Chomping) (indent : Nat) :
    Nat → Cursor → List Char → List Char → List Char → List Char × Cursor
  | 0, c, text, last, breaks => (text ++ chomped t last breaks, c)
  | fuel + 1, c, text, last, breaks =>
    if c.column != indent || c.peek == endChar then (text ++ chomped t last breaks, c)
    else
      let opensWithBlank := isGap c.peek
      let (line, c) := c.span fun ch => !endsLine ch
      let text := text ++ breaks ++ line
      let (last, c) := c.lineBreak
      let (breaks, c) := blockBreaks indent c.fuel c []
      if c.column != indent || c.peek == endChar then (text ++ chomped t last breaks, c)
      else if isFolded && last == ['\n'] && !opensWithBlank && !isGap c.peek then
        blockFrom isFolded t indent fuel c (if breaks.isEmpty then text ++ [' '] else text) last breaks
      else blockFrom isFolded t indent fuel c (text ++ last) last breaks

/-- a block in a collection of some indentation -/
def blockScalar (isFolded : Bool) (around : Int) (c : Cursor) : Scan (List Char × Cursor) := do
  let (header, c) ← blockHeader c.next
  let least := max 1 (around + 1).toNat
  match header.extra with
  | none =>
    let (breaks, widest, c) := blockOpening c.fuel c [] 0
    .ok (blockFrom isFolded header.chomping (max least widest) c.fuel c [] [] breaks)
  | some n =>
    let indent := least + n - 1
    let (breaks, c) := blockBreaks indent c.fuel c []
    .ok (blockFrom isFolded header.chomping indent c.fuel c [] [] breaks)

end Intake.Yaml
