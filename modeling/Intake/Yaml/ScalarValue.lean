/-
The values of scalars.

A scalar's tag says what its text is read as. By spelling alone a text gets a tag only if it can be read so, or
nearly: an empty binary numeral and a thirteenth month are told apart only here. A tag that is written can stand
before any text.

Main definition: `scalarValue`.
-/
import Intake.Yaml.Base64
import Intake.Yaml.Node
import Intake.Cast.Scalar
import Intake.Rule.Call

namespace Intake.Yaml

open Intake.Number Intake.Calendar Intake.Text

def ofSixties (parts : List Int) : Int := parts.foldl (fun n d => 60 * n + d) 0

/-- the magnitude of an integer: the base is told by how it opens, and colons separate sixties -/
def magnitude (cs : List Char) : Outcome Int :=
  match cs with
  | [] => .error .badIndex
  | '0' :: 'b' :: ds => Cast.orBad (baseInteger? 2 'b' ds)
  | '0' :: 'x' :: ds => Cast.orBad (baseInteger? 16 'x' ds)
  | '0' :: ds => if ds.isEmpty then .ok 0 else Cast.orBad (baseInteger? 8 'o' ('0' :: ds))
  | cs =>
    if cs.contains ':' then do
      let parts ← (pieces ':' cs).mapM fun part => Cast.orBad (integer? part)
      .ok (ofSixties parts)
    else Cast.orBad (integer? cs)

/-- an integer without its low lines -/
def integerValue (cs : List Char) : Outcome Int := do
  let cs := cs.filter (· != '_')
  if cs.isEmpty then .error .badIndex
  else
    let (neg, body) := takeSign cs
    let n ← magnitude body
    .ok (if neg then -n else n)

/-- a number in sixties, from its parts, the last first; each is rounded as it is added -/
def floatOfSixties (base : Int) (sum : Binary64) : List Binary64 → Outcome Binary64
  | [] => .ok sum
  | d :: ds => do
    let b ← Cast.floatOfInt base
    floatOfSixties (base * 60) (sum.add (d.mul b)) ds

/-- a binary number without its low lines -/
def floatValue (cs : List Char) : Outcome Binary64 := do
  let cs := (cs.filter (· != '_')).map Char.toLower
  if cs.isEmpty then .error .badIndex
  else
    let (neg, body) := takeSign cs
    let x ←
      if body == ".inf".toList then .ok (.infinite false)
      else if body == ".nan".toList then .ok (.nan 0)
      else if body.contains ':' then do
        let parts ← (pieces ':' body).mapM fun part => Cast.orBad (Binary64.ofText? part)
        floatOfSixties 1 (Binary64.zero false) parts.reverse
      else Cast.orBad (Binary64.ofText? body)
    .ok (if neg then x.neg else x)

def booleanValue (cs : List Char) : Outcome Bool :=
  let word := String.ofList (lower cs)
  if ["yes", "true", "on"].contains word then .ok true
  else if ["no", "false", "off"].contains word then .ok false
  else .error (.missingKey (quotedName word))

/-- the microseconds of the digits after a point, of which six count -/
def microsOf (fraction : List Char) : Nat := ofDigits ((fraction ++ List.replicate 6 '0').take 6)

/-- the offset of a clock reading, in microseconds -/
def offsetMicros (o : OffsetText) : Int :=
  signed o.negative ((o.hours * 60 + o.minutes) * 60 * microsPerSecond)

/-- a date or a moment -/
def timestampValue (cs : List Char) : Outcome Value :=
  let cs := if cs.getLast? = some '\n' then cs.dropLast else cs
  match dateText? cs with
  | none => .error (.noAttribute "'NoneType' object has no attribute 'groupdict'")
  | some t => do
    let offset := t.clock.bind fun c => c.offset.map offsetMicros
    let date ← Cast.orBad (Date.make? t.year t.month t.day)
    match t.clock with
    | none => .ok (.date date)
    | some c =>
      let time ← Cast.orBad (Time.make? c.hour c.minute c.second (microsOf c.fraction) offset)
      .ok (.moment ⟨date, time⟩)

def binaryValue (cs : List Char) : Scan Value :=
  if cs.all fun c => c.toNat < 0x80 then
    match ofBase64? cs with
    | some bs => .ok (.bytes false bs)
    | none => malformed
  else malformed

/-- what a value that cannot be made is to the document -/
def made {α : Type} (x : Outcome α) : Scan α :=
  match x with
  | .ok a => .ok a
  | .error f => .error (.fault f)

/-- the value of a text with the tag of a scalar; other tags have none -/
def scalarValue (tag : Tag) (cs : List Char) : Scan Value :=
  match tag with
  | .null => .ok .null
  | .boolean => made ((booleanValue cs).map .bool)
  | .integer => made ((integerValue cs).map .int)
  | .float => made ((floatValue cs).map .float)
  | .timestamp => made (timestampValue cs)
  | .binary => binaryValue cs
  | .text => .ok (.text (String.ofList cs))
  | _ => malformed

end Intake.Yaml
