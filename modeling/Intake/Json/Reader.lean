/-
Values from JSON text.

The notation is read strictly: no blank but space, tab, line feed and carriage return, no control character in a
text, no comma before a closing bracket. Beyond the notation the names `NaN`, `Infinity` and `-Infinity` are
numbers. Half of a surrogate pair that stands alone reads as the replacement character. Of entries with equal keys
the first gives the place and the last the value.

Every step that goes deeper has taken a character, so the fuel that `read` gives is never used up.

Main definition: `read`.
-/
import Intake.Json.Printer
import Intake.Value.Equality

namespace Intake.Json

open Intake.Text Intake.Number

/-- why a text is not read -/
inductive ReadError where
  | malformed
  /-- an integer with more digits than a numeral may have -/
  | tooLong
  deriving DecidableEq, Repr

abbrev Read := Except ReadError

/-- what is read from a text, and the text after it -/
abbrev Taken (α : Type) := α × List Char

def malformed {α : Type} : Read α := .error .malformed

def isBlank (c : Char) : Bool := c == ' ' || c == '\t' || c == '\n' || c == '\r'

def skip (cs : List Char) : List Char := cs.dropWhile isBlank

/-! ## Texts -/

def unit? : List Char → Option (Nat × List Char)
  | a :: b :: c :: d :: cs => (ofBaseDigits? 16 [a, b, c, d]).map fun n => (n, cs)
  | _ => none

def isHigh (n : Nat) : Bool := decide (0xD800 ≤ n ∧ n < 0xDC00)

def isLow (n : Nat) : Bool := decide (0xDC00 ≤ n ∧ n < 0xE000)

/-- the character of a number, where half of a pair has none -/
def charOf (n : Nat) : Char := if isHigh n || isLow n then replacement else Char.ofNat n

/-- the character of a numbered escape, after its mark; two halves make one character -/
def numbered? (cs : List Char) : Option (Char × List Char) := do
  let (n, rest) ← unit? cs
  if isHigh n then
    match rest with
    | '\\' :: 'u' :: second => do
      let (m, after) ← unit? second
      if isLow m then some (Char.ofNat (0x10000 + (n - 0xD800) * 0x400 + (m - 0xDC00)), after)
      else some (charOf n, rest)
    | _ => some (charOf n, rest)
  else some (charOf n, rest)

/-- the character that a letter stands for after a backslash -/
def shortEscape? (c : Char) : Option Char :=
  if c = '"' ∨ c = '\\' ∨ c = '/' then some c
  else if c = 'b' then some (Char.ofNat 8)
  else if c = 'f' then some (Char.ofNat 12)
  else if c = 'n' then some '\n'
  else if c = 'r' then some '\r'
  else if c = 't' then some '\t'
  else none

theorem length_of_unit? {cs rest : List Char} {n : Nat} (h : unit? cs = some (n, rest)) : rest.length < cs.length := by
  unfold unit? at h
  split at h
  · obtain ⟨_, _, h⟩ := Option.map_eq_some_iff.1 h
    simp only [Prod.mk.injEq] at h
    simp only [← h.2, List.length_cons]
    omega
  · simp at h

theorem length_of_numbered? {cs rest : List Char} {c : Char} (h : numbered? cs = some (c, rest)) :
    rest.length < cs.length := by
  unfold numbered? at h
  obtain ⟨⟨n, r⟩, hn, h⟩ := Option.bind_eq_some_iff.1 h
  have hr := length_of_unit? hn
  dsimp only at h
  split at h
  · split at h
    · obtain ⟨⟨m, after⟩, hm, h⟩ := Option.bind_eq_some_iff.1 h
      have ha := length_of_unit? hm
      dsimp only at h
      split at h <;> simp only [Option.some.injEq, Prod.mk.injEq] at h <;>
        simp only [← h.2, List.length_cons] at * <;> omega
    · simp only [Option.some.injEq, Prod.mk.injEq] at h
      rw [← h.2]; exact hr
  · simp only [Option.some.injEq, Prod.mk.injEq] at h
    rw [← h.2]; exact hr

/-- the characters of a text up to its closing quote, and what follows it -/
def chars (cs : List Char) : Option (List Char × List Char) :=
  match cs with
  | [] => none
  | '"' :: rest => some ([], rest)
  | '\\' :: 'u' :: rest =>
    match h : numbered? rest with
    | none => none
    | some (c, after) =>
      have := length_of_numbered? h
      (chars after).map fun (s, r) => (c :: s, r)
  | '\\' :: e :: rest =>
    match shortEscape? e with
    | none => none
    | some c => (chars rest).map fun (s, r) => (c :: s, r)
  | ['\\'] => none
  | c :: rest => if c.toNat < 0x20 then none else (chars rest).map fun (s, r) => (c :: s, r)
termination_by cs.length

def text (cs : List Char) : Read (Taken String) :=
  match chars cs with
  | some (s, rest) => .ok (String.ofList s, rest)
  | none => malformed

/-! ## Numbers -/

/-- the digits after a point; a point without digits is not taken -/
def places (cs : List Char) : List Char × List Char :=
  match cs with
  | '.' :: rest =>
    if (rest.head?.map Char.isDigit).getD false then (rest.takeWhile Char.isDigit, rest.dropWhile Char.isDigit)
    else ([], cs)
  | _ => ([], cs)

/-- the power of ten of an exponent; one without digits is not taken -/
def power (cs : List Char) : Option Int × List Char :=
  match cs with
  | e :: rest =>
    if e = 'e' ∨ e = 'E' then
      let (negative, ds) := takeSign rest
      if (ds.head?.map Char.isDigit).getD false then
        (some (signed negative (ofDigits (ds.takeWhile Char.isDigit))), ds.dropWhile Char.isDigit)
      else (none, cs)
    else (none, cs)
  | [] => (none, [])

/-- the digits before the point: zero, or digits that do not begin with it -/
def whole (cs : List Char) : List Char × List Char :=
  match cs with
  | '0' :: rest => (['0'], rest)
  | _ => (cs.takeWhile Char.isDigit, cs.dropWhile Char.isDigit)

/-- a number after its sign; one with places or an exponent is binary -/
def magnitude (negative : Bool) (cs : List Char) : Read (Taken Value) :=
  let (ds, rest) := whole cs
  if ds.isEmpty then malformed
  else
    let (ps, rest) := places rest
    let (e, rest) := power rest
    match ps, e with
    | [], none =>
      match ofDigits? ds with
      | some n => .ok (.int (signed negative n), rest)
      | none => .error .tooLong
    | ps, e => .ok (.float (.ofScientific negative (ofDigits (ds ++ ps)) (e.getD 0 - ps.length)), rest)

/-- what a text begins with that has a name, and what follows it -/
def named? (cs : List Char) : Option (Value × List Char) :=
  let names : List (String × Value) := [
    ("null", .null), ("true", .bool true), ("false", .bool false), ("NaN", .float (.nan 1)),
    ("Infinity", .float (.infinite false)), ("-Infinity", .float (.infinite true))]
  (names.find? fun n => n.1.toList.isPrefixOf cs).map fun n => (n.2, cs.drop n.1.length)

/-- a value that is neither a text nor a collection -/
def scalar (cs : List Char) : Read (Taken Value) :=
  match named? cs with
  | some r => .ok r
  | none =>
    match cs with
    | '-' :: rest => magnitude true rest
    | _ => magnitude false cs

/-! ## Collections -/

mutual

/-- a value -/
def value : Nat → List Char → Read (Taken Value)
  | 0, _ => malformed
  | fuel + 1, cs =>
    match cs with
    | '"' :: rest => (text rest).map fun (s, r) => (.text s, r)
    | '[' :: rest =>
      match skip rest with
      | ']' :: after => .ok (.list [], after)
      | first => (items fuel first).map fun (xs, r) => (.list xs, r)
    | '\x7b' :: rest =>
      match skip rest with
      | '\x7d' :: after => .ok (.map false [], after)
      | first => (entries fuel first).map fun (es, r) => (.map false (Value.ofEntries es), r)
    | _ => scalar cs

/-- items up to the closing bracket -/
def items : Nat → List Char → Read (Taken (List Value))
  | 0, _ => malformed
  | fuel + 1, cs => do
    let (x, rest) ← value fuel cs
    match skip rest with
    | ']' :: after => .ok ([x], after)
    | ',' :: after => do
      let (xs, rest) ← items fuel (skip after)
      .ok (x :: xs, rest)
    | _ => malformed

/-- entries up to the closing brace -/
def entries : Nat → List Char → Read (Taken (List (Value × Value)))
  | 0, _ => malformed
  | fuel + 1, cs =>
    match cs with
    | '"' :: rest => do
      let (key, rest) ← text rest
      match skip rest with
      | ':' :: rest => do
        let (x, rest) ← value fuel (skip rest)
        match skip rest with
        | '\x7d' :: after => .ok ([(.text key, x)], after)
        | ',' :: after => do
          let (es, rest) ← entries fuel (skip after)
          .ok ((.text key, x) :: es, rest)
        | _ => malformed
      | _ => malformed
    | _ => malformed

end

/-- the value of a text that holds nothing else -/
def read (s : String) : Read Value := do
  let cs := s.toList
  let (v, rest) ← value (2 * cs.length + 2) (skip cs)
  if (skip rest).isEmpty then .ok v else malformed

end Intake.Json
