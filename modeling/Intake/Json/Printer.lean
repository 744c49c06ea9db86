/-
Values as JSON text.

A style says how the text is laid out: on one line or indented, with what between items, whether all beyond
ASCII is escaped, and whether a value that JSON does not know is written by its text for readers. Without that
last permission such a value is of a wrong kind. The keys of a mapping are texts, numbers, booleans or nothing,
and are written as texts.
-/
import Intake.Fault

namespace Intake

open Intake.Text Intake.Number

namespace Json

/-- how a value is laid out -/
structure Style where
  /-- the blanks of one level of indentation; nothing for one line -/
  indent : Option Nat
  /-- between two items -/
  comma : String
  /-- between a key and its value -/
  colon : String
  /-- all beyond ASCII is escaped -/
  ascii : Bool
  /-- a value that JSON does not know is written by its text for readers -/
  lenient : Bool

namespace Style

def compact : Style := ⟨none, ",", ":", false, false⟩

def line : Style := ⟨none, ", ", ": ", false, true⟩

def tree : Style := ⟨some 2, ",", ": ", true, true⟩

end Style

def unitEscape (n : Nat) : List Char := '\\' :: 'u' :: hexDigits 4 n

/-- the escape of a character by its number, beyond sixteen bits by two halves -/
def numberEscape (n : Nat) : List Char :=
  if n < 0x10000 then unitEscape n
  else unitEscape (0xD800 + (n - 0x10000) / 0x400) ++ unitEscape (0xDC00 + (n - 0x10000) % 0x400)

/-- a character of a text -/
def escape (ascii : Bool) (c : Char) : List Char :=
  if c = '"' ∨ c = '\\' then ['\\', c]
  else if c = '\n' then ['\\', 'n']
  else if c = '\r' then ['\\', 'r']
  else if c = '\t' then ['\\', 't']
  else if c.toNat = 8 then ['\\', 'b']
  else if c.toNat = 12 then ['\\', 'f']
  else if c.toNat < 0x20 ∨ (ascii = true ∧ 0x7F ≤ c.toNat) then numberEscape c.toNat
  else [c]

def textJson (ascii : Bool) (s : List Char) : List Char := '"' :: s.flatMap (escape ascii) ++ ['"']

/-- a binary number; data that are no numbers have names -/
def floatJson (x : Binary64) : List Char :=
  match x with
  | .nan _ => lit "NaN"
  | .infinite false => lit "Infinity"
  | .infinite true => lit "-Infinity"
  | x => x.text

/-- an integer; one too long for a numeral is a bad value -/
def intJson (n : Int) : Outcome (List Char) :=
  match intText? n with
  | some s => .ok s
  | none => .error .badValue

/-- the text of a key -/
def keyText (k : Value) : Outcome (List Char) :=
  match k with
  | .text s | .textMember s => .ok s.toList
  | .null => .ok (lit "null")
  | .bool b => .ok (lit (if b then "true" else "false"))
  | .int n => intJson n
  | .float x => .ok (floatJson x)
  | _ => .error .illTyped

/-- a line feed and the blanks of a level; nothing on one line -/
def newline (style : Style) (level : Nat) : List Char :=
  match style.indent with
  | none => []
  | some n => '\n' :: List.replicate (n * level) ' '

/-- items between brackets -/
def bracketed (style : Style) (level : Nat) (opening closing : Char) (items : List (List Char)) : List Char :=
  match items with
  | [] => [opening, closing]
  | first :: rest =>
    opening :: newline style (level + 1) ++ first ++
      rest.flatMap (fun item => style.comma.toList ++ newline style (level + 1) ++ item) ++
      newline style level ++ [closing]

/-- a value that JSON does not know; how deep it is nested is not asked here -/
def foreign (style : Style) (v : Value) : Outcome (List Char) :=
  if style.lenient then match v.plain? with
    | some s => .ok (textJson style.ascii s)
    | none => .error .badValue
  else .error .illTyped

mutual

/-- a value, with the level of indentation that it stands at -/
def print (style : Style) (level : Nat) : Value → Outcome (List Char)
  | .null => .ok (lit "null")
  | .bool b => .ok (lit (if b then "true" else "false"))
  | .int n => intJson n
  | .float x => .ok (floatJson x)
  | .text s => .ok (textJson style.ascii s.toList)
  | .textMember s => .ok (textJson style.ascii s.toList)
  | .list xs => do .ok (bracketed style level '[' ']' (← printAll style (level + 1) xs))
  | .tuple xs => do .ok (bracketed style level '[' ']' (← printAll style (level + 1) xs))
  | .map false es => do .ok (bracketed style level '\x7b' '\x7d' (← printEntries style (level + 1) es))
  | v => foreign style v

def printAll (style : Style) (level : Nat) : List Value → Outcome (List (List Char))
  | [] => .ok []
  | x :: xs => do
    let first ← print style level x
    let rest ← printAll style level xs
    .ok (first :: rest)

/-- the entries of a mapping -/
def printEntries (style : Style) (level : Nat) : List (Value × Value) → Outcome (List (List Char))
  | [] => .ok []
  | (k, v) :: es => do
    let key ← keyText k
    let value ← print style level v
    let rest ← printEntries style level es
    .ok ((textJson style.ascii key ++ style.colon.toList ++ value) :: rest)

end

end Json

def Value.json (v : Value) (style : Json.Style) : Outcome String := do
  .ok (String.ofList (← Json.print style 0 v))

end Intake
