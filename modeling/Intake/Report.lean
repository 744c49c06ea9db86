/-
Error reports: every failure of one parse, filed under the attribute that failed.

A report maps attribute names, in the order of their first failure, to messages or to a nested report (a
failed nested schema, or the failed elements of an array by index). Messages for a name that holds a nested
report are filed inside it under `base`.

A message is a value. The messages of rules are texts, but a function given by the caller may answer with
anything, and the report keeps it as it is.

Main statements: filing under a name leaves every other name's findings (`find?_add_ne`), and keeps the order of
first failures (`keys_add`).
-/
import Intake.Value.Equality
import Intake.Value.Show

namespace Intake

/-- what a report holds under one name -/
inductive Finding where
  | messages (ms : List Value)
  | nested (entries : List (String × Finding))

/-- failures by attribute name, in order -/
structure Report where
  entries : List (String × Finding)

namespace Report

def empty : Report := ⟨[]⟩

def isEmpty (r : Report) : Bool := r.entries.isEmpty

def keys (r : Report) : List String := r.entries.map (·.1)

/-- what is filed under a name in a list of entries -/
def find (path : String) : List (String × Finding) → Option Finding
  | [] => none
  | (k, f) :: es => if k = path then some f else find path es

def find? (r : Report) (path : String) : Option Finding := find path r.entries

/-- puts a finding under a name, in place of what is there -/
def put (path : String) (f : Finding) : List (String × Finding) → List (String × Finding)
  | [] => [(path, f)]
  | (k, g) :: es => if k = path then (k, f) :: es else (k, g) :: put path f es

mutual

/-- files a message under a name in a list of entries -/
def addTo (path : String) (m : Value) : List (String × Finding) → List (String × Finding)
  | [] => [(path, .messages [m])]
  | (k, f) :: es => if k = path then (k, addInside m f) :: es else (k, f) :: addTo path m es

/-- files a message beside others; in a nested report its name is `base` -/
def addInside (m : Value) : Finding → Finding
  | .messages ms => .messages (ms ++ [m])
  | .nested es => .nested (addTo "base" m es)

end

def add (r : Report) (path : String) (m : Value) : Report := ⟨addTo path m r.entries⟩

/-- files every finding of one list of entries in another. A nested report joins a nested report, takes the
messages it meets under `base`, and otherwise stands as it is -/
def mergeEntries (onto : List (String × Finding)) : List (String × Finding) → List (String × Finding)
  | [] => onto
  | (k, .messages ms) :: rest => mergeEntries (ms.foldl (fun es m => addTo k m es) onto) rest
  | (k, .nested es) :: rest =>
    let joined :=
      if es.isEmpty then onto
      else match find k onto with
        | some (.nested inner) => put k (.nested (mergeEntries inner es)) onto
        | some (.messages ms) => put k (.nested (ms.foldl (fun es m => addTo "base" m es) es)) onto
        | none => put k (.nested es) onto
    mergeEntries joined rest

def merge (r : Report) (path : String) (other : Report) : Report :=
  ⟨mergeEntries r.entries [(path, .nested other.entries)]⟩

def messagesFor (r : Report) (path : String) : List Value :=
  match r.find? path with
  | some (.messages ms) => ms
  | _ => []

/-- a name below others, with points between them -/
def dotted (above key : String) : String := if above = "" then key else above ++ "." ++ key

/-- every failure of a list of entries, with its path below `above` -/
def flattenFrom (above : String) : List (String × Finding) → List (String × Value)
  | [] => []
  | (k, .messages ms) :: rest => ms.map (fun m => (dotted above k, m)) ++ flattenFrom above rest
  | (k, .nested es) :: rest => flattenFrom (dotted above k) es ++ flattenFrom above rest

def flatten (r : Report) (above : String) : List (String × Value) := flattenFrom above r.entries

/-- a list of entries as the entries of a mapping -/
def entriesValue : List (String × Finding) → List (Value × Value)
  | [] => []
  | (k, .messages ms) :: rest => (.text k, .list ms) :: entriesValue rest
  | (k, .nested es) :: rest => (.text k, .map false (entriesValue es)) :: entriesValue rest

/-- the report as a mapping of names to lists of messages and to mappings -/
def toValue (r : Report) : Value := .map false (entriesValue r.entries)

/-- the payload that answers a failed parse: the report under the one key `errors` -/
def payload (r : Report) : Value := Value.ofFields [("errors", r.toValue)]

def same (r s : Report) : Bool := r.toValue.same s.toValue

theorem find_addTo_self (path : String) (m : Value) (es : List (String × Finding)) :
    find path (addTo path m es) = some (match find path es with
      | some f => addInside m f
      | none => .messages [m]) := by
  induction es with
  | nil => simp [addTo, find]
  | cons e es ih =>
    obtain ⟨k, f⟩ := e
    by_cases h : k = path <;> simp [addTo, find, h, ih]

/-- a message filed under a name leaves every other name's findings -/
theorem find?_add_ne (r : Report) {path other : String} (h : other ≠ path) (m : Value) :
    (r.add path m).find? other = r.find? other := by
  obtain ⟨es⟩ := r
  simp only [add, find?]
  induction es with
  | nil => simp [addTo, find, Ne.symm h]
  | cons e es ih =>
    obtain ⟨k, f⟩ := e
    by_cases hk : k = path
    · subst hk; simp [addTo, find, Ne.symm h]
    · by_cases ho : k = other <;> simp_all [addTo, find]

theorem keys_add (r : Report) (path : String) (m : Value) :
    (r.add path m).keys = if path ∈ r.keys then r.keys else r.keys ++ [path] := by
  obtain ⟨es⟩ := r
  simp only [add, keys]
  induction es with
  | nil => simp [addTo]
  | cons e es ih =>
    obtain ⟨k, f⟩ := e
    by_cases hk : k = path
    · simp [addTo, hk]
    · have hk' : ¬ path = k := fun h => hk h.symm
      by_cases hm : ∃ x, (path, x) ∈ es <;> simp_all [addTo]

end Report

end Intake
