/-
Values as YAML documents.

Mappings and lists are written in blocks, one entry a line, with two blanks for each level; a list inside a
mapping stands at the level of its key. Empty ones are written as `[]` and as a pair of braces. A key that is
long, empty or of several lines, or that is itself a collection, is marked as a key and has its value on a line
of its own.

Only plain values can be written: a value of any other kind is unrepresentable.

Main definition: `print`.
-/
import Intake.Fault
import Intake.Yaml.Layout
import Intake.Yaml.Base64

namespace Intake.Yaml

open Intake.Number Intake.Text

/-- the text of a binary number: with a point before the exponent, by which it is read as a number again -/
def floatText (x : Binary64) : List Char :=
  match x with
  | .nan _ => ".nan".toList
  | .infinite false => ".inf".toList
  | .infinite true => "-.inf".toList
  | x =>
    let text := x.text
    if text.contains '.' then text
    else text.flatMap fun c => if c == 'e' then ['.', '0', 'e'] else [c]

/-- a value as a scalar -/
def Scalar.ofValue (v : Value) : Outcome Scalar :=
  match v with
  | .null => .ok ⟨.null, "null".toList, false⟩
  | .bool b => .ok ⟨.boolean, (if b then "true" else "false").toList, false⟩
  | .int n =>
    match intText? n with
    | some text => .ok ⟨.integer, text, false⟩
    | none => .error .badValue
  | .float x => .ok ⟨.float, floatText x, false⟩
  | .text s => .ok ⟨.text, s.toList, false⟩
  | .bytes false bs => .ok ⟨.binary, base64Lines bs, true⟩
  | .date d => .ok ⟨.timestamp, d.text, false⟩
  | .moment m => .ok ⟨.timestamp, m.textWith ' ', false⟩
  | _ => .error .unrepresentable

/-- a tag, and a space after it if there is one -/
def tagged (tag body : List Char) : List Char := if tag.isEmpty then body else tag ++ ' ' :: body

/-- a scalar as a value, from the column after its indicator on -/
def Scalar.asValue (s : Scalar) (indent column : Nat) : List Char :=
  let style := s.style false
  let tag := s.writtenTag style
  let start := if tag.isEmpty then column + 1 else column + tag.length + 2
  ' ' :: tagged tag (style.write false (indent + 2) start s.text)

/-- the longest key that stands on a line with its value, its tag counted -/
def maxKeyLength : Nat := 127

/-- a scalar as a key on a line with its value, unless it is too long, empty or of several lines -/
def Scalar.asKey? (s : Scalar) : Option (List Char) :=
  let t := Traits.ofText s.text
  if s.tag.short.length + s.text.length ≤ maxKeyLength && !t.empty && !t.multiline then
    let style := s.style true
    some (tagged (s.writtenTag style) (style.write true 0 0 s.text))
  else none

/-- a key on a line with its value; nothing for a key that needs a mark -/
def simpleKey? (k : Value) : Outcome (Option (List Char)) :=
  match k with
  | .list [] | .tuple [] => .ok (some ['[', ']'])
  | .list _ | .tuple _ => .ok none
  | k => (Scalar.ofValue k).map Scalar.asKey?

/-- where a node stands -/
structure Place where
  /-- the indentation of the collection around it -/
  indent : Nat
  /-- the column after its indicator -/
  column : Nat
  /-- its first entry may stand on the line of its indicator -/
  compact : Bool
  /-- it is the key or the value of an entry -/
  inMapping : Bool

namespace Place

/-- the indentation of a mapping that stands here -/
def mappingIndent (p : Place) : Nat := p.indent + 2

def listIndent (p : Place) : Nat := if p.inMapping && !p.compact then p.indent else p.indent + 2

/-- what comes before the first entry of a collection that stands here -/
def lead (p : Place) (indent : Nat) : List Char :=
  if p.compact then List.replicate (indent - p.column) ' ' else newline indent

end Place

/-- the place of a value after its key on the same line -/
def afterKey (indent : Nat) (key : List Char) : Place := ⟨indent, indent + key.length + 1, false, true⟩

/-- the place after the mark of a list item, a key or a value -/
def afterMark (indent : Nat) (inMapping : Bool) : Place := ⟨indent, indent + 1, true, inMapping⟩

def entry (indent : Nat) (key : Option (List Char)) (marked value : List Char) : List Char :=
  match key with
  | some k => k ++ ':' :: value
  | none => '?' :: marked ++ newline indent ++ ':' :: value

def valuePlace (indent : Nat) (key : Option (List Char)) : Place :=
  match key with
  | some k => afterKey indent k
  | none => afterMark indent true

mutual

/-- a node after its indicator -/
def printNode (p : Place) : Value → Outcome (List Char)
  | .list xs => if xs.isEmpty then .ok " []".toList else printItems p.listIndent (p.lead p.listIndent) xs
  | .tuple xs => if xs.isEmpty then .ok " []".toList else printItems p.listIndent (p.lead p.listIndent) xs
  | .map false es =>
    if es.isEmpty then .ok [' ', '\x7b', '\x7d']
    else printEntries p.mappingIndent (p.lead p.mappingIndent) es
  | .set false xs =>
    if xs.isEmpty then .ok (" !!set ".toList ++ ['\x7b', '\x7d'])
    else do
      let body ← printMembers p.mappingIndent xs
      .ok (" !!set".toList ++ body)
  | v => (Scalar.ofValue v).map fun s => s.asValue p.indent p.column

def printItems (indent : Nat) (lead : List Char) : List Value → Outcome (List Char)
  | [] => .ok []
  | x :: xs => do
    let item ← printNode (afterMark indent false) x
    let rest ← printItems indent (newline indent) xs
    .ok (lead ++ '-' :: item ++ rest)

/-- the entries of a mapping -/
def printEntries (indent : Nat) (lead : List Char) : List (Value × Value) → Outcome (List Char)
  | [] => .ok []
  | (k, v) :: es => do
    let key ← simpleKey? k
    let marked ← match key with
      | some _ => .ok []
      | none => printNode (afterMark indent true) k
    let value ← printNode (valuePlace indent key) v
    let rest ← printEntries indent (newline indent) es
    .ok (lead ++ entry indent key marked value ++ rest)

/-- the members of a set, as the keys of entries without values -/
def printMembers (indent : Nat) : List Value → Outcome (List Char)
  | [] => .ok []
  | x :: xs => do
    let key ← simpleKey? x
    let marked ← match key with
      | some _ => .ok []
      | none => printNode (afterMark indent true) x
    let rest ← printMembers indent xs
    .ok (newline indent ++ entry indent key marked " null".toList ++ rest)

end

def print (es : List (Value × Value)) : Outcome String := do
  if es.isEmpty then .ok "\x7b\x7d\n"
  else
    let body ← printEntries 0 [] es
    .ok (String.ofList (body ++ ['\n']))

end Intake.Yaml
