/-
Reading dates, times and moments from ISO 8601 text.

A date is written with or without separators, by month and day or by week. The time of a moment follows
its date after one separating character of any kind; where a week date and a time could be cut in two ways
the cut is taken at the hyphen. A time has two to six digits, in pairs with or without colons, a fraction of
which six digits count, and an offset. The readers accept a little more than the standard: they stop at the
end of the digits they need, and an offset may follow unread characters after a full fraction.

Characters beyond the end of a text are read as NUL, which none of the readers takes for a digit or a
separator.
-/
import Intake.Calendar.Moment

namespace Intake.Calendar.Iso

open Intake.Number

/-- the character that stands for the end of a text -/
def endMark : Char := Char.ofNat 0

/-- a number of exactly `n` digits, and the rest -/
def takeNumber? (n : Nat) (s : List Char) : Option (Nat × List Char) :=
  let ds := s.take n
  if ds.length = n ∧ ds.all Char.isDigit then some (ofDigits ds, s.drop n) else none

def expect? (c : Char) : List Char → Option (List Char)
  | d :: s => if c = d then some s else none
  | [] => none

/-- a date in the first `length` characters of a text; by week if a `W` follows the year, the day then being
Monday when the characters end before it -/
def takeDate? (length : Nat) (s : List Char) : Option Date := do
  let (year, s1) ← takeNumber? 4 s
  let separated := s1.head? = some '-'
  let s2 := if separated then s1.drop 1 else s1
  if s2.head? = some 'W' then
    let (week, s3) ← takeNumber? 2 (s2.drop 1)
    if s.length - s3.length < length then
      let s4 ← if separated then expect? '-' s3 else some s3
      let (day, _) ← takeNumber? 1 s4
      Date.ofWeek? year week day
    else Date.ofWeek? year week 1
  else
    let (month, s3) ← takeNumber? 2 s2
    let s4 ← if separated then expect? '-' s3 else some s3
    let (day, _) ← takeNumber? 2 s4
    Date.make? year month day

/-- bytes that a text takes in UTF-8 -/
def byteLength (s : List Char) : Nat := s.foldl (fun n c => n + c.utf8Size) 0

/-- a date from its whole text of seven, eight or ten bytes -/
def date? (s : List Char) : Option Date :=
  let n := byteLength s
  if n = 7 ∨ n = 8 ∨ n = 10 then takeDate? n s else none

/-! ## Times -/

/-- the parts of a clock reading: hour, minute, second and microsecond, and whether it ended before its text -/
structure Clock where
  hour : Nat
  minute : Nat
  second : Nat
  micro : Nat
  early : Bool

/-- the fraction of a second: six digits count and further ones are passed over -/
def fraction? (s : List Char) (next : Char) : Option (Nat × Bool) := do
  let n := min s.length 6
  let (micro, rest) ← takeNumber? n s
  let rest := rest.dropWhile Char.isDigit
  some (micro * Nat.pow 10 (6 - n), rest.headD next != endMark)

/-- pairs of digits up to the given number, with their separators. `colons` is set by what follows the first
pair; `next` is the character after the text. A fraction may follow any pair, or stand right after the last -/
def clockFrom (next : Char) : Nat → Bool → Bool → List Nat → List Char → Option (List Nat × Nat × Bool)
  | 0, _, _, pairs, s => do
    let (micro, early) ← fraction? s next
    some (pairs, micro, early)
  | left + 1, isFirst, colons, pairs, s => do
    let (n, rest) ← takeNumber? 2 s
    let pairs := pairs ++ [n]
    let c := rest.headD next
    let colons := if isFirst then c == ':' else colons
    if rest.length ≤ 1 then some (pairs, 0, c != endMark)
    else if colons && c == ':' then clockFrom next left false colons pairs (rest.drop 1)
    else if c == '.' || c == ',' then do
      let (micro, early) ← fraction? (rest.drop 1) next
      some (pairs, micro, early)
    else if !colons then clockFrom next left false colons pairs rest
    else none

/-- a clock reading from the text before `next` -/
def clock? (s : List Char) (next : Char) : Option Clock := do
  let (pairs, micro, early) ← clockFrom next 3 true false [] s
  some ⟨pairs.getD 0 0, pairs.getD 1 0, pairs.getD 2 0, micro, early⟩

def opensOffset (c : Char) : Bool := c == '+' || c == '-' || c == 'Z'

/-- the offset after its sign, in microseconds; an offset of no whole seconds is zero -/
def offset? (negative : Bool) (s : List Char) : Option Int := do
  let c ← clock? s endMark
  if c.early then none
  else
    let seconds := c.hour * 3600 + c.minute * 60 + c.second
    if seconds = 0 then some 0 else some (signed negative (seconds * microsPerSecond + c.micro))

/-- a time of day with its offset -/
def timePart? (s : List Char) : Option Time := do
  let clockText := s.takeWhile (!opensOffset ·)
  match s.dropWhile (!opensOffset ·) with
  | [] =>
    let c ← clock? clockText endMark
    if c.early then none else Time.make? c.hour c.minute c.second c.micro none
  | sign :: rest =>
    let c ← clock? clockText sign
    let offset ←
      if sign = 'Z' then (if rest.headD endMark = endMark then some 0 else none)
      else offset? (sign = '-') rest
    Time.make? c.hour c.minute c.second c.micro (some offset)

/-- a time from its whole text, which a `T` may open -/
def time? (s : List Char) : Option Time :=
  match s with
  | 'T' :: rest => timePart? rest
  | _ => timePart? s

/-! ## Moments -/

/-- where the date ends and the separating character stands -/
def dateEnd? (s : List Char) : Option Nat :=
  let charAt (i : Nat) : Char := s.getD i endMark
  let n := byteLength s
  if n = 7 then some 7
  else if charAt 4 = '-' then
    if charAt 5 = 'W' then
      if n < 8 then none
      else if 8 < n ∧ charAt 8 = '-' then
        if n = 9 then none else if 10 < n ∧ (charAt 10).isDigit then some 8 else some 10
      else some 8
    else some 10
  else if charAt 4 = 'W' then
    let pos := 7 + ((s.drop 7).takeWhile Char.isDigit).length
    if pos < 9 then some pos else if pos % 2 = 0 then some 7 else some 8
  else some 8

/-- a moment from its whole text; without a time it is midnight -/
def moment? (s : List Char) : Option Moment := do
  if byteLength s < 7 then none
  else
    let stop ← dateEnd? s
    let date ← takeDate? stop s
    let time ← if stop < s.length then timePart? (s.drop (stop + 1)) else some Time.midnight
    some ⟨date, time⟩

end Intake.Calendar.Iso
