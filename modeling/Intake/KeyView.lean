/-
Looking keys up whatever their spelling.

Input may come with text keys, with byte strings, or with members of enumerations. Every key has one normal
form, a text (`normalizeKey`), and a mapping is seen through its normal forms (`KeyView`): each stands where
its first key stood, and gives the value of its last.

Main statements: a later key wins (`find_insert_self`), other keys keep their values (`find_insert_ne`), and
a normal form keeps its first place (`keys_insert`).
-/
import Intake.Fault

namespace Intake

open Intake.Text

/-- the normal form of a key that is no member of an enumeration -/
def normalizePlain (k : Value) : Outcome String :=
  match k with
  | .text s => .ok s
  | .textMember s => .ok s
  | .bytes _ bs => .ok (String.ofList (decodeUtf8 bs))
  | k => k.plain

/-- the normal form of a key: texts and bytes as text, members of enumerations by their value, all else as
it is shown to readers -/
def normalizeKey (k : Value) : Outcome String :=
  match k with
  | .member _ v => normalizePlain v
  | k => normalizePlain k

/-- a mapping by normal forms of its keys, each once -/
structure KeyView where
  entries : List (String × Value)

namespace KeyView

/-- puts a value under a normal form: in place if it is there, else at the end -/
def insert (k : String) (v : Value) : List (String × Value) → List (String × Value)
  | [] => [(k, v)]
  | (l, w) :: es => if l = k then (l, v) :: es else (l, w) :: insert k v es

def find (k : String) : List (String × Value) → Option Value
  | [] => none
  | (l, w) :: es => if l = k then some w else find k es

/-- the view of the entries of a mapping, onto the view of those before -/
def ofEntriesFrom (acc : List (String × Value)) : List (Value × Value) → Outcome (List (String × Value))
  | [] => .ok acc
  | (k, v) :: es => do
    let key ← normalizeKey k
    ofEntriesFrom (insert key v acc) es

/-- the view of a mapping; there is none if a key has no normal form -/
def ofEntries (es : List (Value × Value)) : Outcome KeyView := do
  let entries ← ofEntriesFrom [] es
  .ok ⟨entries⟩

/-- the normal forms, in order of first occurrence -/
def keys (v : KeyView) : List String := v.entries.map (·.1)

def size (v : KeyView) : Nat := v.entries.length

def get? (v : KeyView) (key : String) : Option Value := find key v.entries

def has (v : KeyView) (k : Value) : Outcome Bool := do
  let key ← normalizeKey k
  .ok (v.get? key).isSome

/-- the value under a key of any spelling, or a default -/
def getD (v : KeyView) (k default : Value) : Outcome Value := do
  let key ← normalizeKey k
  .ok ((v.get? key).getD default)

/-- the value under a key of any spelling; its absence is a fault that shows the normal form -/
def item (v : KeyView) (k : Value) : Outcome Value := do
  let key ← normalizeKey k
  match v.get? key with
  | some x => .ok x
  | none => .error (.missingKey (quotedName key))

def toValue (v : KeyView) : Value := Value.ofFields v.entries

def shown (v : KeyView) : Outcome String := do
  let body ← v.toValue.shown
  .ok ("IndifferentView(" ++ body ++ ")")

theorem find_insert_self (k : String) (v : Value) (es : List (String × Value)) :
    find k (insert k v es) = some v := by
  induction es with
  | nil => simp [insert, find]
  | cons e es ih =>
    obtain ⟨l, w⟩ := e
    by_cases h : l = k <;> simp [insert, find, h, ih]

theorem find_insert_ne {k l : String} (h : l ≠ k) (v : Value) (es : List (String × Value)) :
    find l (insert k v es) = find l es := by
  induction es with
  | nil => simp [insert, find, Ne.symm h]
  | cons e es ih =>
    obtain ⟨m, w⟩ := e
    by_cases hm : m = k
    · subst hm; simp [insert, find, Ne.symm h]
    · by_cases hl : m = l <;> simp_all [insert, find]

theorem keys_insert (k : String) (v : Value) (es : List (String × Value)) :
    (insert k v es).map (·.1) = if k ∈ es.map (·.1) then es.map (·.1) else es.map (·.1) ++ [k] := by
  induction es with
  | nil => simp [insert]
  | cons e es ih =>
    obtain ⟨l, w⟩ := e
    by_cases h : l = k
    · simp [insert, h]
    · have h' : ¬ k = l := fun e => h e.symm
      by_cases hm : ∃ x, (k, x) ∈ es <;> simp_all [insert]

end KeyView

end Intake
