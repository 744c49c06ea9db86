/-
Tags: what a node of a document stands for, and what a plain scalar means by its spelling alone.

A scalar without quotes is nothing, a boolean, a number or a date if it is spelled like one, and a text
otherwise. The spellings are those of YAML 1.1: `yes` and `off` are booleans, `0o7` is a text but `07` an
integer, `1:30` counts in sixties, an exponent needs its sign, and `=` and `<<` have meanings of their own.

Main definition: `Tag.ofPlain`.
-/
import Intake.Number.Numeral
import Intake.Text.Pieces

namespace Intake.Yaml

open Intake.Number

/-- what a node stands for -/
inductive Tag where
  | null | boolean | integer | float | timestamp | binary | text
  | list | hash | set | pairs | orderedPairs
  /-- the key under which a mapping takes the entries of others -/
  | merge
  /-- the key of a mapping's own value -/
  | plainValue
  /-- any other tag, by its full name -/
  | other (name : String)
  deriving DecidableEq, Repr

namespace Tag

/-- what the full names of the known tags begin with -/
def family : String := "tag:yaml.org,2002:"

def known : List (String × Tag) := [
  ("null", .null), ("bool", .boolean), ("int", .integer), ("float", .float), ("timestamp", .timestamp),
  ("binary", .binary), ("str", .text), ("seq", .list), ("map", .hash), ("set", .set), ("pairs", .pairs),
  ("omap", .orderedPairs), ("merge", .merge), ("value", .plainValue)]

def ofName (name : String) : Tag :=
  match known.find? fun k => family ++ k.1 == name with
  | some (_, t) => t
  | none => .other name

def short (t : Tag) : String :=
  match known.find? fun k => k.2 == t with
  | some (name, _) => "!!" ++ name
  | none => ""

end Tag

/-! ## Spellings -/

def nullWords : List String := ["~", "null", "Null", "NULL", ""]

def trueWords : List String := ["yes", "Yes", "YES", "true", "True", "TRUE", "on", "On", "ON"]

def falseWords : List String := ["no", "No", "NO", "false", "False", "FALSE", "off", "Off", "OFF"]

def infinityWords : List String := [".inf", ".Inf", ".INF"]

def nanWords : List String := [".nan", ".NaN", ".NAN"]

def isDigitOrLow (base : Nat) (c : Char) : Bool :=
  c == '_' || ((hexValue? c).map fun d => decide (d < base)).getD false

/-- a numeral that opens with a digit and goes on with digits and low lines -/
def isGrouped (cs : List Char) : Bool := (cs.head?.map Char.isDigit).getD false && cs.all (isDigitOrLow 10)

def isSixtieth (cs : List Char) : Bool :=
  match cs with
  | [d] => d.isDigit
  | [t, d] => t.isDigit && d.isDigit && t.toNat < '6'.toNat
  | _ => false

/-- numbers in sixties: a grouped numeral and at least one more part -/
def isSexagesimal (cs : List Char) : Bool :=
  match Text.pieces ':' cs with
  | first :: second :: rest => isGrouped first && (second :: rest).all isSixtieth
  | _ => false

/-- spelled as an integer: binary, octal, decimal, hexadecimal or in sixties, with a sign or without -/
def isIntegerText (cs : List Char) : Bool :=
  match (takeSign cs).2 with
  | ['0'] => true
  | '0' :: 'b' :: ds => !ds.isEmpty && ds.all (isDigitOrLow 2)
  | '0' :: 'x' :: ds => !ds.isEmpty && ds.all (isDigitOrLow 16)
  | '0' :: ds => ds.all (isDigitOrLow 8)
  | ds => isGrouped ds || isSexagesimal ds

def isExponent : List Char → Bool
  | [] => true
  | e :: s :: ds => (e == 'e' || e == 'E') && (s == '+' || s == '-') && !ds.isEmpty && ds.all Char.isDigit
  | _ => false

/-- what follows the point of a number: digits and low lines, and an exponent -/
def isFraction (cs : List Char) : Bool := isExponent (cs.dropWhile (isDigitOrLow 10))

/-- spelled as a number with a point, in tens or in sixties -/
def isPointed (cs : List Char) : Bool :=
  let whole := cs.takeWhile (· != '.')
  match cs.dropWhile (· != '.') with
  | [] => false
  | _ :: places =>
    (isGrouped whole && isFraction places) || (isSexagesimal whole && places.all (isDigitOrLow 10))

/-- spelled as a number that opens with its point -/
def isPointFirst : List Char → Bool
  | '.' :: d :: ds => d.isDigit && isFraction ds
  | _ => false

def isFloatText (cs : List Char) : Bool :=
  let body := (takeSign cs).2
  isPointed body || isPointFirst cs || infinityWords.contains (String.ofList body) ||
    nanWords.contains (String.ofList cs)

/-! ## Dates -/

/-- an offset as it is written: its sign, hours and minutes -/
structure OffsetText where
  negative : Bool
  hours : Nat
  minutes : Nat

/-- a clock reading as it is written -/
structure ClockText where
  hour : Nat
  minute : Nat
  second : Nat
  /-- the digits after the point -/
  fraction : List Char
  /-- nothing, or an offset -/
  offset : Option OffsetText

/-- a date or moment as it is written -/
structure DateText where
  year : Nat
  month : Nat
  day : Nat
  clock : Option ClockText
  /-- month and day have two digits each -/
  full : Bool

def takeShort : List Char → Option (List Char × List Char)
  | a :: b :: cs =>
    if !a.isDigit then none else if b.isDigit then some ([a, b], cs) else some ([a], b :: cs)
  | [a] => if a.isDigit then some ([a], []) else none
  | [] => none

def takePair : List Char → Option (Nat × List Char)
  | a :: b :: cs => if a.isDigit && b.isDigit then some (ofDigits [a, b], cs) else none
  | _ => none

def after (c : Char) : List Char → Option (List Char)
  | d :: cs => if d = c then some cs else none
  | [] => none

def isGap (c : Char) : Bool := c == ' ' || c == '\t'

/-- the offset at the end of a moment -/
def offsetText? : List Char → Option (Option OffsetText)
  | [] => some none
  | cs =>
    match cs.dropWhile isGap with
    | ['Z'] => some (some ⟨false, 0, 0⟩)
    | s :: rest => do
      if s != '+' && s != '-' then none
      else
        let (hours, rest) ← takeShort rest
        match rest with
        | [] => some (some ⟨s == '-', ofDigits hours, 0⟩)
        | rest => do
          let (minutes, rest) ← takePair (← after ':' rest)
          if rest.isEmpty then some (some ⟨s == '-', ofDigits hours, minutes⟩) else none
    | [] => none

/-- the clock reading after the date of a moment -/
def clockText? (cs : List Char) : Option ClockText := do
  let rest ← match cs with
    | c :: rest => if c == 'T' || c == 't' then some rest else if isGap c then some (rest.dropWhile isGap) else none
    | [] => none
  let (hour, rest) ← takeShort rest
  let (minute, rest) ← takePair (← after ':' rest)
  let (second, rest) ← takePair (← after ':' rest)
  let (fraction, rest) := match rest with
    | '.' :: rest => (rest.takeWhile Char.isDigit, rest.dropWhile Char.isDigit)
    | rest => ([], rest)
  let offset ← offsetText? rest
  some ⟨ofDigits hour, minute, second, fraction, offset⟩

/-- a date, or a date and a clock reading -/
def dateText? (cs : List Char) : Option DateText := do
  let year := cs.take 4
  if year.length = 4 ∧ year.all Char.isDigit then
    let rest ← after '-' (cs.drop 4)
    let (month, rest) ← takeShort rest
    let (day, rest) ← takeShort (← after '-' rest)
    let full := month.length == 2 && day.length == 2
    match rest with
    | [] => some ⟨ofDigits year, ofDigits month, ofDigits day, none, full⟩
    | rest => do
      let clock ← clockText? rest
      some ⟨ofDigits year, ofDigits month, ofDigits day, some clock, full⟩
  else none

def isDateText (cs : List Char) : Bool :=
  match dateText? cs with
  | some d => d.clock.isSome || d.full
  | none => false

/-! ## Meaning -/

/-- what a scalar without quotes stands for -/
def Tag.ofPlain (cs : List Char) : Tag :=
  let s := String.ofList cs
  if trueWords.contains s || falseWords.contains s then .boolean
  else if isFloatText cs then .float
  else if isIntegerText cs then .integer
  else if s = "<<" then .merge
  else if nullWords.contains s then .null
  else if isDateText cs then .timestamp
  else if s = "=" then .plainValue
  else .text

end Intake.Yaml
