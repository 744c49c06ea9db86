/-
Equality of values.

Numbers of all kinds are equal when they denote the same number, so `true`, `1`, `1.0` and the decimal
`1.00` are equal. Collections are equal element by element, mappings entry by entry in any order. A
not-a-number datum is equal to nothing; yet inside a collection it is found again as itself, and so `same`,
which compares elements, differs from `equal`, which compares two values at the top, on these data alone
(`equal_eq_same`).
-/
import Intake.Value.Basic

namespace Intake

open Intake.Number Intake.Calendar

namespace Value

/-- the exact number that a number of any kind denotes -/
def numeric? : Value → Option Decimal
  | .bool b => some (Decimal.ofInt (if b then 1 else 0))
  | .int n => some (Decimal.ofInt n)
  | .float x => some (Decimal.ofBinary64 x)
  | .decimal d => some d
  | _ => none

def isNaN : Value → Bool
  | .float (.nan _) => true
  | .decimal (.nan ..) => true
  | _ => false

/-- equality of numbers; a not-a-number datum is the same as itself only -/
def sameNumber : Value → Value → Bool
  | .float (.nan p), .float (.nan q) => p == q
  | .decimal (.nan a b c n), .decimal (.nan a' b' c' n') => a == a' && b == b' && c == c' && n == n'
  | .int a, .int b => a == b
  | x, y => match x.numeric?, y.numeric? with
    | some a, some b => a.numEq b
    | _, _ => false

/-- equal ranges have the same elements: none, one, or the same start and step -/
def sameRange (a b s a' b' s' : Int) : Bool :=
  let n := rangeSize a b s
  n == rangeSize a' b' s' && (n == 0 || (a == a' && (n == 1 || s == s')))

mutual

/-- equality of elements: the same value, or an equal one -/
def same : Value → Value → Bool
  | .null, .null => true
  | .missing, .missing => true
  | .text s, y => y.text? == some s
  | .textMember s, y => y.text? == some s
  | .bytes _ a, .bytes _ b => a == b
  | .date a, .date b => a == b
  | .moment a, .moment b => a.sameInstant b
  | .time a, .time b => a.same b
  | .uuid a, .uuid b => a == b
  | .list xs, .list ys => sameList xs ys
  | .tuple xs, .tuple ys => sameList xs ys
  | .set _ xs, .set _ ys => xs.length == ys.length && sameMembers xs ys
  | .range a b s, .range a' b' s' => sameRange a b s a' b' s'
  | .map _ es, .map _ fs => es.length == fs.length && sameEntries es fs
  | .type t, .type u => t == u
  | .member n _, .member m _ => n == m
  | .object c n xs, .object d m ys => c == d && (c.comparesContent || n == m) && sameList xs ys
  | .answers n _, .answers m _ => n == m
  | .echoes n, .echoes m => n == m
  | .pattern p, .pattern q => p == q
  | .schema h, .schema k => h.stamp == k.stamp && h.name == k.name
  | .parsed ⟨h, _, vs, _⟩, .parsed ⟨k, _, ws, _⟩ =>
    h.stamp == k.stamp && h.name == k.name && vs.length == ws.length && sameFields vs ws
  | x, y => sameNumber x y

def sameList : List Value → List Value → Bool
  | [], [] => true
  | x :: xs, y :: ys => same x y && sameList xs ys
  | _, _ => false

def sameMembers : List Value → List Value → Bool
  | [], _ => true
  | x :: xs, ys => ys.any (fun y => same x y) && sameMembers xs ys

/-- every entry has its key among the others, with the same value there -/
def sameEntries : List (Value × Value) → List (Value × Value) → Bool
  | [], _ => true
  | (k, v) :: es, fs =>
    (match fs.find? (fun f => same k f.1) with
      | some (_, w) => same v w
      | none => false) && sameEntries es fs

/-- every attribute is among the others, with the same value -/
def sameFields : List (String × Value) → List (String × Value) → Bool
  | [], _ => true
  | (name, v) :: es, fs =>
    (match fs.find? (fun f => name == f.1) with
      | some (_, w) => same v w
      | none => false) && sameFields es fs

end

def equal (x y : Value) : Bool := !x.isNaN && same x y

def sameKey (k l : Value) : Bool := same k l

def lookup? (k : Value) (es : List (Value × Value)) : Option Value :=
  (es.find? fun e => sameKey k e.1).map (·.2)

def field? (name : String) (es : List (Value × Value)) : Option Value := lookup? (.text name) es

/-- the entries with a value put at a key: in place if the key is there, else at the end -/
def insertEntry (k v : Value) : List (Value × Value) → List (Value × Value)
  | [] => [(k, v)]
  | (l, w) :: es => if sameKey k l then (l, v) :: es else (l, w) :: insertEntry k v es

/-- the entries of a mapping written key by key: the first of equal keys, with the value of the last -/
def ofEntries (es : List (Value × Value)) : List (Value × Value) :=
  es.foldl (fun acc e => insertEntry e.1 e.2 acc) []

def removeKey (name : String) (es : List (Value × Value)) : List (Value × Value) :=
  es.filter fun e => !sameKey (.text name) e.1

def ofMembers (xs : List Value) : List Value :=
  xs.foldl (fun acc x => if acc.any (fun y => sameKey x y) then acc else acc ++ [x]) []

def isSameDatum (x y : Value) : Bool := x.isNaN && y.isNaN && sameNumber x y

/-- comparing a signaling not-a-number datum with a number is an error -/
def signalsWith (x y : Value) : Bool :=
  let signaling : Value → Bool
    | .decimal (.nan _ s _ _) => s
    | _ => false
  (signaling x && y.numeric?.isSome) || (signaling y && x.numeric?.isSome)

/-- a value is an element of a range: a whole number between the ends, some steps from the start -/
def inRange (a b s : Int) (x : Value) : Bool :=
  match x.numeric? with
  | none => false
  | some d =>
    let below (n : Int) : Bool := d.compare? (Decimal.ofInt n) == some .lt
    let above (n : Int) : Bool := d.compare? (Decimal.ofInt n) == some .gt
    let between := if 0 < s then !below a && below b else !above a && above b
    between && d.isWhole && (match d.truncate? with
      | some n => (n - a) % s == 0
      | none => false)

theorem equal_eq_same {x : Value} (h : x.isNaN = false) (y : Value) : equal x y = same x y := by
  simp [equal, h]

end Value

end Intake
