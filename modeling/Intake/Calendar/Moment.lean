/-
Times of day and moments: a date with a time of day. Either may carry an offset from universal time; a
moment with an offset is a point of time, one without is local.

Main definitions: `Moment.sameInstant` (two moments are equal when both are local and agree, or both carry
an offset and denote one point of time) and `Moment.ofTimestamp?` (seconds since 1970, rounded to the
microsecond).
-/
import Intake.Calendar.Date
import Intake.Number.Binary64

namespace Intake.Calendar

open Intake.Number

def microsPerSecond : Nat := 1000000

def microsPerDay : Nat := 86400 * microsPerSecond

/-- a time of day -/
structure Time where
  hour : Nat
  minute : Nat
  second : Nat
  micro : Nat
  /-- microseconds ahead of universal time; none for a local time -/
  offset : Option Int
  deriving DecidableEq, Repr, Inhabited

namespace Time

def offsetInRange (o : Int) : Bool := o.natAbs < microsPerDay

/-- a time of the clock with an offset of less than a day -/
def Valid (t : Time) : Prop :=
  t.hour < 24 ∧ t.minute < 60 ∧ t.second < 60 ∧ t.micro < microsPerSecond ∧ t.offset.all offsetInRange = true

instance (t : Time) : Decidable t.Valid := by unfold Valid; infer_instance

def make? (hour minute second micro : Nat) (offset : Option Int) : Option Time :=
  let t : Time := ⟨hour, minute, second, micro, offset⟩
  if t.Valid then some t else none

def midnight : Time := ⟨0, 0, 0, 0, none⟩

def micros (t : Time) : Nat := ((t.hour * 60 + t.minute) * 60 + t.second) * microsPerSecond + t.micro

/-- equal times: both local, or both with an offset and equal in universal time -/
def same (t u : Time) : Bool :=
  match t.offset, u.offset with
  | none, none => t.micros == u.micros
  | some a, some b => decide ((t.micros : Int) - a = u.micros - b)
  | _, _ => false

/-- an offset as `+HH:MM`, with seconds and microseconds only where they are not zero -/
def offsetText (o : Int) : List Char :=
  let n := o.natAbs
  let micro := n % microsPerSecond
  let seconds := n / microsPerSecond
  let clock := Date.padded 2 (seconds / 3600) ++ ':' :: Date.padded 2 (seconds / 60 % 60)
  (if o < 0 then '-' else '+') :: clock ++
    (if seconds % 60 = 0 ∧ micro = 0 then [] else ':' :: Date.padded 2 (seconds % 60)) ++
    (if micro = 0 then [] else '.' :: Date.padded 6 micro)

/-- `HH:MM:SS`, then microseconds and offset where there are any -/
def text (t : Time) : List Char :=
  Date.padded 2 t.hour ++ ':' :: Date.padded 2 t.minute ++ ':' :: Date.padded 2 t.second ++
    (if t.micro = 0 then [] else '.' :: Date.padded 6 t.micro) ++ (t.offset.map offsetText).getD []

end Time

/-- a date with a time of day -/
structure Moment where
  date : Date
  time : Time
  deriving DecidableEq, Repr, Inhabited

namespace Moment

/-- microseconds since the start of the calendar, as the clock shows them -/
def micros (m : Moment) : Nat := m.date.dayNumber * microsPerDay + m.time.micros

/-- equal moments: both local, or both with an offset and one point of time -/
def sameInstant (m n : Moment) : Bool :=
  match m.time.offset, n.time.offset with
  | none, none => m.micros == n.micros
  | some a, some b => decide ((m.micros : Int) - a = n.micros - b)
  | _, _ => false

/-- date and time with a separator between them -/
def textWith (separator : Char) (m : Moment) : List Char := m.date.text ++ separator :: m.time.text

/-- `YYYY-MM-DDTHH:MM:SS` and what a time's text adds -/
def text (m : Moment) : List Char := m.textWith 'T'

/-- the day number of the first of January 1970 -/
def epochDay : Nat := 719163

/-- the moment in universal time at some seconds and microseconds after the start of 1970 -/
def ofSeconds? (seconds : Int) (micro : Nat) : Option Moment := do
  let day := seconds.fdiv 86400 + epochDay
  let rest := (seconds.fmod 86400).toNat
  if day < 1 then none
  else
    let d := Date.ofDayNumber day.toNat
    let date ← Date.make? d.year d.month d.day
    let time ← Time.make? (rest / 3600) (rest / 60 % 60) (rest % 60) micro (some 0)
    some ⟨date, time⟩

/-- the moment of a timestamp in binary: the part below one second is taken in microseconds as a binary
datum, then rounded to a whole number, ties to even -/
def ofTimestamp? : Binary64 → Option Moment
  | .finite neg m e =>
    let (n, d) := Binary64.ratio m e
    let whole := signed neg (n / d)
    let below := match Binary64.ofRatio false (n % d * microsPerSecond) d with
      | .finite _ m e => let (n, d) := Binary64.ratio m e; roundDiv n d
      | _ => 0
    let total := signed neg below
    if (microsPerSecond : Int) ≤ total then ofSeconds? (whole + 1) (total - microsPerSecond).toNat
    else if total < 0 then ofSeconds? (whole - 1) (total + microsPerSecond).toNat
    else ofSeconds? whole total.toNat
  | _ => none

/-- the difference of a timestamp's whole seconds -/
def ofWholeTimestamp? (n : Int) : Option Moment := ofSeconds? n 0

end Moment

end Intake.Calendar
