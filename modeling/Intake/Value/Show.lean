/-
The text of values inside messages.

`Value.shown?` is the form that tells a value's kind (`'a'`, `Decimal('1.5')`, `[1, 2]`); `Value.plain?` is
the form for readers (`a`, `1.5`), which differs only for texts, decimals, dates, identifiers and members of
enumerations. Neither exists for an integer longer than the bound on numerals, nor for a value that holds
one. Writing the text of a value calls for the texts of its parts, and these calls are limited: `Value.calls` counts how
deep they go.
-/
import Intake.Value.Basic

namespace Intake

open Intake.Text Intake.Number Intake.Calendar

abbrev lit (s : String) : List Char := s.toList

/-- texts with a comma and a space between them -/
def commaSeparated : List (List Char) → List Char
  | [] => []
  | [x] => x
  | x :: xs => x ++ ',' :: ' ' :: commaSeparated xs

def applied (name : String) (arguments : List (List Char)) : List Char :=
  lit name ++ '(' :: commaSeparated arguments ++ [')']

def braced (body : List Char) : List Char := '\x7b' :: body ++ ['\x7d']

namespace Value

/-- the arguments of a clock reading: seconds only if they or the microseconds are not zero -/
def clockArguments (t : Time) : List (List Char) :=
  let parts :=
    if t.micro ≠ 0 then [t.hour, t.minute, t.second, t.micro]
    else if t.second ≠ 0 then [t.hour, t.minute, t.second]
    else [t.hour, t.minute]
  parts.map digits

/-- a length of time in days, seconds and microseconds, those that are not zero -/
def shownSpan (micros : Int) : List Char :=
  let days := micros.fdiv microsPerDay
  let rest := (micros.fmod microsPerDay).toNat
  let part (name : String) (n : Int) : List (List Char) := if n = 0 then [] else [lit name ++ '=' :: intText n]
  applied "datetime.timedelta"
    (part "days" days ++ part "seconds" (rest / microsPerSecond) ++ part "microseconds" (rest % microsPerSecond))

def offsetArguments : Option Int → List (List Char)
  | none => []
  | some o =>
    [lit "tzinfo=" ++ (if o = 0 then lit "datetime.timezone.utc" else applied "datetime.timezone" [shownSpan o])]

def shownDate (d : Date) : List Char := applied "datetime.date" ([d.year, d.month, d.day].map digits)

def shownTime (t : Time) : List Char := applied "datetime.time" (clockArguments t ++ offsetArguments t.offset)

def shownMoment (m : Moment) : List Char :=
  applied "datetime.datetime"
    ([m.date.year, m.date.month, m.date.day].map digits ++ clockArguments m.time ++ offsetArguments m.time.offset)

def shownNames (names : List String) : List Char :=
  '[' :: commaSeparated (names.map fun n => quoted n.toList) ++ [']']

mutual

/-- the text that tells a value's kind -/
def shown? : Value → Option (List Char)
  | .null => some (lit "None")
  | .bool b => some (lit (if b then "True" else "False"))
  | .int n => intText? n
  | .float x => some x.text
  | .decimal d => some (applied "Decimal" [quoted d.text])
  | .text s => some (quoted s.toList)
  | .textMember s => some (lit "<E.M: " ++ quoted s.toList ++ ['>'])
  | .member _ v => do
    let shown ← v.shown?
    some (lit "<E.M: " ++ shown ++ ['>'])
  | .bytes false bs => some (quotedBytes false bs)
  | .bytes true bs => some (applied "bytearray" [quotedBytes true bs])
  | .date d => some (shownDate d)
  | .moment m => some (shownMoment m)
  | .time t => some (shownTime t)
  | .uuid u => some (applied "UUID" [quoted u.text])
  | .list xs => do
    let parts ← shownAll? xs
    some ('[' :: commaSeparated parts ++ [']'])
  | .tuple xs => do
    let parts ← shownAll? xs
    let close := if xs.length = 1 then [',', ')'] else [')']
    some ('(' :: commaSeparated parts ++ close)
  | .set frozen xs => do
    let parts ← shownAll? xs
    let name := if frozen then "frozenset" else "set"
    let body := braced (commaSeparated parts)
    some (if parts.isEmpty then applied name [] else if frozen then applied name [body] else body)
  | .range a b s => do
    let a ← intText? a
    let b ← intText? b
    let step ← intText? s
    some (applied "range" (if s = 1 then [a, b] else [a, b, step]))
  | .map readOnly es => do
    let parts ← shownEntries? es
    let body := braced (commaSeparated parts)
    some (if readOnly then applied "mappingproxy" [body] else body)
  | .type t => some (lit "<class " ++ quoted t.homeName.toList ++ ['>'])
  | .missing => some (lit "MISSING")
  | .object c _ content => do
    let parts ← shownAll? content
    some (applied c.name parts)
  | .answers _ _ => some (lit "<function>")
  | .echoes _ => some (lit "<function>")
  | .pattern source => some (applied "re.compile" [(quoted source.toList).take 200])
  | .schema h =>
    some (applied "ParametersDefinition" [lit "name=" ++ quoted h.name.toList, lit "attributes=" ++ shownNames h.names])
  | .parsed ⟨heading, _, values, supplied⟩ => do
    let fields ← shownFields? supplied values
    some (lit "<Parameters " ++ heading.name.toList ++ fields.flatMap (' ' :: ·) ++ ['>'])

def shownAll? : List Value → Option (List (List Char))
  | [] => some []
  | x :: xs => do
    let shown ← x.shown?
    let rest ← shownAll? xs
    some (shown :: rest)

/-- the texts of the entries of a mapping -/
def shownEntries? : List (Value × Value) → Option (List (List Char))
  | [] => some []
  | (k, v) :: es => do
    let key ← k.shown?
    let shown ← v.shown?
    let rest ← shownEntries? es
    some ((key ++ ':' :: ' ' :: shown) :: rest)

/-- the texts of the attributes of an instance, those whose key was supplied -/
def shownFields? (supplied : List String) : List (String × Value) → Option (List (List Char))
  | [] => some []
  | (name, v) :: fields => do
    let rest ← shownFields? supplied fields
    if supplied.contains name then
      let shown ← v.shown?
      some ((name.toList ++ '=' :: shown) :: rest)
    else some rest

end

/-- the text of a value for readers -/
def plain? : Value → Option (List Char)
  | .text s => some s.toList
  | .textMember _ => some (lit "E.M")
  | .member _ _ => some (lit "E.M")
  | .decimal d => some d.text
  | .date d => some d.text
  | .moment m => some (m.textWith ' ')
  | .time t => some t.text
  | .uuid u => some u.text
  | v => v.shown?

mutual

/-- how many calls deep the writing of a value goes -/
def calls : Value → Nat
  | .list xs => callsOfAll xs + 1
  | .tuple xs => callsOfAll xs + 1
  | .set _ xs => callsOfAll xs + 2
  | .map false es => callsOfEntries es + 1
  | .map true es => callsOfEntries es + 2
  | .object _ _ content => callsOfAll content + 2
  | .member _ v => v.calls + 3
  | .parsed ⟨_, _, values, _⟩ => callsOfFields values + 4
  | _ => 0

def callsOfAll : List Value → Nat
  | [] => 0
  | x :: xs => max x.calls (callsOfAll xs)

def callsOfEntries : List (Value × Value) → Nat
  | [] => 0
  | (k, v) :: es => max (max k.calls v.calls) (callsOfEntries es)

def callsOfFields : List (String × Value) → Nat
  | [] => 0
  | (_, v) :: fields => max v.calls (callsOfFields fields)

end

/-- how deep calls may go before they are broken off -/
def callLimit : Nat := 1000

end Value

end Intake
