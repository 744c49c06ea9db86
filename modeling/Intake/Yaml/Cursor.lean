/-
A place in the text of a document, and the small steps from it.

A cursor knows its line and column, by which blocks are told. Stepping over a line's end opens a new line: a
carriage return and a line feed count as one end, and a byte order mark takes no column. Beyond the end of the
text a cursor sees the character zero, which no text holds.
-/
import Intake.Fault
import Intake.Yaml.Layout

namespace Intake.Yaml

/-- why a text cannot be read as a document -/
inductive Trouble where
  /-- it is not in the format -/
  | malformed
  /-- it is, but a value in it cannot be made -/
  | fault (f : Fault)

abbrev Scan := Except Trouble

def malformed {α : Type} : Scan α := .error .malformed

/-- the character that stands for the end of the text -/
def endChar : Char := Char.ofNat 0

/-- a character that ends a line, or the end of the text -/
def endsLine (c : Char) : Bool := c == endChar || c == '\r' || isBreak c

/-- a place in a text -/
structure Cursor where
  rest : List Char
  index : Nat
  line : Nat
  column : Nat

namespace Cursor

def start (cs : List Char) : Cursor := ⟨cs, 0, 0, 0⟩

def peek (c : Cursor) : Char := c.rest.headD endChar

def peekAt (c : Cursor) (n : Nat) : Char := c.rest.getD n endChar

/-- the place after the character at the cursor -/
def next (c : Cursor) : Cursor :=
  match c.rest with
  | [] => c
  | ch :: rest =>
    if isBreak ch || (ch == '\r' && rest.head? != some '\n') then ⟨rest, c.index + 1, c.line + 1, 0⟩
    else if ch.toNat = 0xfeff then ⟨rest, c.index + 1, c.line, c.column⟩
    else ⟨rest, c.index + 1, c.line, c.column + 1⟩

def skip (c : Cursor) : Nat → Cursor
  | 0 => c
  | n + 1 => c.next.skip n

/-- the characters of a kind at the cursor, and the place after them -/
def span (c : Cursor) (p : Char → Bool) : List Char × Cursor :=
  let word := c.rest.takeWhile p
  (word, c.skip word.length)

def skipSpaces (c : Cursor) : Cursor := (c.span isSpace).2

def skipLine (c : Cursor) : Cursor := (c.span fun ch => !endsLine ch).2

def skipComment (c : Cursor) : Cursor := if c.peek == '#' then c.skipLine else c

/-- the end of a line at the cursor, as it reads, and the place after it. Two separators of their own read as
themselves, every other end as a line feed -/
def lineBreak (c : Cursor) : List Char × Cursor :=
  let ch := c.peek
  if ch == '\r' && c.peekAt 1 == '\n' then (['\n'], c.skip 2)
  else if ch == '\r' || ch == '\n' || ch.toNat = 0x85 then (['\n'], c.next)
  else if isBreak ch then ([ch], c.next)
  else ([], c)

/-- a mark between documents: three hyphens or three points before a spacing -/
def atMark (c : Cursor) : Bool := opensAsMark c.rest && isSpacing (c.peekAt 3)

end Cursor

end Intake.Yaml
