/-
What the reading of an attribute, and of a whole definition, can be.

An attribute yields one of five readings: it is missing though required; it is absent and has its default or
nothing; its raw value cannot be resolved; its value breaks rules; or it is accepted (`Attribute.Yields`). A
definition is read attribute by attribute, and what its attributes yield is gathered in the end.

Results:
- `Attribute.read_eq_ok`: reading an attribute succeeds exactly with what it yields;
- `Definition.read_eq_ok`: reading a definition succeeds exactly when each of its attributes does;
- `Definition.parse_eq_ok`: a parse gives an instance exactly when the reading does;
- `Definition.byParts`: induction on definitions, by the definitions of their attributes.
-/
import Intake.Parse
import Intake.Proofs.Outcome

namespace Intake

open Outcome

variable {r : Registry} {here : Place} {strict : Bool} {view : KeyView}

/-! ## Definitions by their parts -/

theorem Definition.sizeOf_lt_of_part {d e : Definition} {a : Attribute} (ha : a ∈ d.attributes)
    (he : a.shape.definition? = some e) : sizeOf e < sizeOf d := by
  have h1 : sizeOf a < sizeOf d.attributes := List.sizeOf_lt_of_mem ha
  have h2 : sizeOf d.attributes < sizeOf d := by cases d; simp; omega
  have h3 : sizeOf a.shape < sizeOf a := by cases a; simp; omega
  have h4 : sizeOf e < sizeOf a.shape := by
    cases hs : a.shape with
    | untyped => simp [hs, Shape.definition?] at he
    | scalar t => simp [hs, Shape.definition?] at he
    | nested x => simp only [hs, Shape.definition?, Option.some.injEq] at he; subst he; simp
    | arrayOf x => simp only [hs, Shape.definition?, Option.some.injEq] at he; subst he; simp
  omega

/-- what holds of a definition whenever it holds of the definitions in its attributes holds of every one -/
@[elab_as_elim]
theorem Definition.byParts {motive : Definition → Prop}
    (parts : ∀ d : Definition, (∀ a ∈ d.attributes, ∀ e, a.shape.definition? = some e → motive e) → motive d)
    (d : Definition) : motive d := by
  induction hn : sizeOf d using Nat.strongRecOn generalizing d with
  | ind n ih =>
    subst hn
    exact parts d fun a ha e he => ih _ (Definition.sizeOf_lt_of_part ha he) e rfl

/-- a definition that stands inside another, at any depth, or is the other itself -/
inductive Definition.Within : Definition → Definition → Prop where
  | here (d : Definition) : Within d d
  | part {c d e : Definition} {a : Attribute} : a ∈ d.attributes → a.shape.definition? = some e → Within c e → Within c d

theorem Definition.Within.of_part {c d e : Definition} {a : Attribute} (ha : a ∈ d.attributes)
    (he : a.shape.definition? = some e) (hc : Within c e) : Within c d := .part ha he hc

/-- what holds of a definition, and inside the definitions of its attributes, holds inside it -/
theorem Definition.forall_within {P : Definition → Prop} {d : Definition} (hd : P d)
    (hparts : ∀ a ∈ d.attributes, ∀ e, a.shape.definition? = some e → ∀ c, Within c e → P c) : ∀ c, Within c d → P c := by
  intro c hc
  cases hc with
  | here => exact hd
  | part ha he hc => exact hparts _ ha _ he c hc

/-! ## Attributes -/

namespace Attribute

def suppliedIn (a : Attribute) (view : KeyView) : Bool := (view.get? a.name).isSome

/-- a required attribute whose raw value is missing -/
def missingIn (a : Attribute) (view : KeyView) : Bool := a.required && (a.rawValue view).isMissing

/-- what an attribute can yield -/
inductive Yields (r : Registry) (here : Place) (strict : Bool) (view : KeyView) (a : Attribute) :
    Reading (Option Value) → Prop where
  /-- it is required, and there is nothing -/
  | missing : a.missingIn view = true → Yields r here strict view a (.error (.message requiredMessage))
  /-- there is nothing, and it has its default, if it has one -/
  | absent {o : Option Value} : a.missingIn view = false → a.rawValue view = .null →
      a.absent (here.within a.name) (a.suppliedIn view) = .ok o → Yields r here strict view a (.ok o)
  /-- its raw value cannot be resolved -/
  | failed {f : Finding} : a.missingIn view = false → a.rawValue view ≠ .null →
      Shape.resolve r (here.within a.name) strict a.shape (a.rawValue view) = .ok (.error f) →
      Yields r here strict view a (.error f)
  /-- its value breaks rules -/
  | broken {v : Value} {ms : List Value} : a.missingIn view = false → a.rawValue view ≠ .null →
      Shape.resolve r (here.within a.name) strict a.shape (a.rawValue view) = .ok (.ok v) →
      runRules a.rules v = .ok ms → ms ≠ [] →
      Yields r here strict view a (.error (.messages ms))
  /-- it has its value -/
  | accepted {v : Value} : a.missingIn view = false → a.rawValue view ≠ .null →
      Shape.resolve r (here.within a.name) strict a.shape (a.rawValue view) = .ok (.ok v) → runRules a.rules v = .ok [] →
      Yields r here strict view a (.ok (some v))

/-- the reading of an attribute that has a raw value: resolved, and then checked -/
def readValue (r : Registry) (here : Place) (strict : Bool) (view : KeyView) (a : Attribute) (raw : Value) :
    Outcome NamedReading := do
  let resolved ← Shape.resolve r (here.within a.name) strict a.shape raw
  let x ← checked a.rules resolved
  .ok ⟨a.name, a.suppliedIn view, x.map some⟩

theorem read_eq (a : Attribute) :
    Attribute.read r here strict view a =
      if a.missingIn view then .ok ⟨a.name, a.suppliedIn view, .error (.message requiredMessage)⟩
      else match a.rawValue view with
        | .null => (a.absent (here.within a.name) (a.suppliedIn view)).map fun o =>
          (⟨a.name, a.suppliedIn view, .ok o⟩ : NamedReading)
        | v => readValue r here strict view a v := by
  obtain ⟨name, shape, required, default, rules⟩ := a
  simp only [Attribute.read, missingIn, suppliedIn]
  by_cases hm : (required && ((Attribute.mk name shape required default rules).rawValue view).isMissing) = true
  · simp only [hm, if_true]
  · simp only [hm, Bool.false_eq_true, if_false]
    cases (Attribute.mk name shape required default rules).rawValue view with
    | null =>
      cases (Attribute.mk name shape required default rules).absent (here.within name) (view.get? name).isSome <;> rfl
    | _ => rfl

theorem read_of_not_null {a : Attribute} (hm : a.missingIn view = false) (hn : a.rawValue view ≠ .null) :
    Attribute.read r here strict view a = readValue r here strict view a (a.rawValue view) := by
  rw [read_eq, if_neg (by simp [hm])]
  split
  · next h => exact absurd h hn
  · rfl

theorem read_of_null {a : Attribute} (hm : a.missingIn view = false) (hn : a.rawValue view = .null) :
    Attribute.read r here strict view a =
      (a.absent (here.within a.name) (a.suppliedIn view)).map fun o =>
        (⟨a.name, a.suppliedIn view, .ok o⟩ : NamedReading) := by
  rw [read_eq, if_neg (by simp [hm]), hn]

/-- a value that rules have checked is kept exactly if they have nothing to say of it -/
theorem checked_eq_ok {rules : List Rule} {resolved y : Reading Value} :
    checked rules resolved = .ok y ↔
      (∃ f, resolved = .error f ∧ y = .error f) ∨
      ∃ v ms, resolved = .ok v ∧ runRules rules v = .ok ms ∧ y = if ms.isEmpty then .ok v else .error (.messages ms) := by
  cases resolved with
  | error f =>
    constructor
    · intro h
      cases h
      exact .inl ⟨f, rfl, rfl⟩
    · rintro (⟨g, hg, rfl⟩ | ⟨v, ms, hv, -⟩)
      · cases hg; rfl
      · cases hv
  | ok v =>
    constructor
    · intro h
      obtain ⟨ms, hms, h⟩ := bind_eq_ok.1 h
      refine .inr ⟨v, ms, rfl, hms, ?_⟩
      cases ms <;> exact (Except.ok.inj h).symm
    · rintro (⟨f, hf, -⟩ | ⟨w, ms, hw, hms, rfl⟩)
      · cases hf
      · cases hw
        refine bind_eq_ok.2 ⟨ms, hms, ?_⟩
        cases ms <;> rfl

/-- reading an attribute that has a raw value succeeds exactly with a finding, or with a value that breaks no
rule -/
theorem readValue_eq_ok {a : Attribute} {raw : Value} {x : NamedReading} :
    readValue r here strict view a raw = .ok x ↔
      ∃ resolved y, Shape.resolve r (here.within a.name) strict a.shape raw = .ok resolved ∧
      checked a.rules resolved = .ok y ∧
        x = ⟨a.name, a.suppliedIn view, y.map some⟩ := by
  unfold readValue
  constructor
  · intro h
    obtain ⟨resolved, hr, h⟩ := bind_eq_ok.1 h
    obtain ⟨y, hy, h⟩ := bind_eq_ok.1 h
    exact ⟨resolved, y, hr, hy, (Except.ok.inj h).symm⟩
  · rintro ⟨resolved, y, hr, hy, rfl⟩
    rw [hr, ok_bind, hy, ok_bind]

/-- reading an attribute succeeds exactly with what it yields -/
theorem read_eq_ok {a : Attribute} {x : NamedReading} :
    Attribute.read r here strict view a = .ok x ↔
      x.name = a.name ∧ x.supplied = a.suppliedIn view ∧ a.Yields r here strict view x.reading := by
  constructor
  · intro h
    cases hm : a.missingIn view with
    | true =>
      rw [read_eq, if_pos hm] at h
      cases h
      exact ⟨rfl, rfl, .missing hm⟩
    | false =>
      by_cases hn : a.rawValue view = .null
      · rw [read_of_null hm hn] at h
        obtain ⟨o, ho, rfl⟩ := map_eq_ok.1 h
        exact ⟨rfl, rfl, .absent hm hn ho⟩
      · rw [read_of_not_null hm hn] at h
        obtain ⟨resolved, y, hr, hy, rfl⟩ := readValue_eq_ok.1 h
        refine ⟨rfl, rfl, ?_⟩
        rcases checked_eq_ok.1 hy with ⟨f, rfl, rfl⟩ | ⟨v, ms, rfl, hms, rfl⟩
        · exact .failed hm hn hr
        · cases ms with
          | nil => exact .accepted hm hn hr hms
          | cons m ms => exact .broken hm hn hr hms (List.cons_ne_nil m ms)
  · obtain ⟨name, supplied, reading⟩ := x
    rintro ⟨rfl, rfl, hy⟩
    cases hy with
    | missing hm => rw [read_eq, if_pos hm]
    | absent hm hn ho => rw [read_of_null hm hn, ho]; rfl
    | failed hm hn hr =>
      rw [read_of_not_null hm hn]
      exact readValue_eq_ok.2 ⟨_, _, hr, checked_eq_ok.2 (.inl ⟨_, rfl, rfl⟩), rfl⟩
    | broken hm hn hr hms hne =>
      rw [read_of_not_null hm hn]
      exact readValue_eq_ok.2 ⟨_, _, hr, checked_eq_ok.2 (.inr ⟨_, _, rfl, hms, rfl⟩), by simp [hne]; rfl⟩
    | accepted hm hn hr hms =>
      rw [read_of_not_null hm hn]
      exact readValue_eq_ok.2 ⟨_, _, hr, checked_eq_ok.2 (.inr ⟨_, _, rfl, hms, rfl⟩), rfl⟩

/-- what an attribute without a raw value yields: a copy of its default, or nothing, which is a value only where
the key is there -/
theorem absent_eq_ok {a : Attribute} {supplied : Bool} {o : Option Value} :
    a.absent here supplied = .ok o ↔
      (∃ v, a.default = some v ∧ v.copyFault? = none ∧ o = some (v.copiedAt here)) ∨
      (a.default = none ∧ o = if supplied then some .null else none) := by
  unfold absent defaultValue
  cases hd : a.default with
  | none => simp [eq_comm]
  | some v => cases hf : v.copyFault? <;> simp [Except.map, eq_comm, hf]

end Attribute

/-! ## Gathering -/

namespace NamedReading

def value? (x : NamedReading) : Option Value :=
  match x.reading with
  | .ok o => o
  | .error _ => none

def finding? (x : NamedReading) : Option Finding :=
  match x.reading with
  | .error f => some f
  | .ok _ => none

end NamedReading

section Picked

variable {β : Type} (f : NamedReading → Option β)

def picked (rs : List NamedReading) : List (String × β) := rs.filterMap fun x => (f x).map fun b => (x.name, b)

theorem picked_cons (x : NamedReading) (rs : List NamedReading) :
    picked f (x :: rs) = ((f x).map fun b => (x.name, b)).toList ++ picked f rs := by
  cases h : f x <;> simp [picked, h]

variable {f}

theorem name_of_mem_picked {rs : List NamedReading} {e : String × β} (h : e ∈ picked f rs) :
    ∃ x ∈ rs, x.name = e.1 ∧ f x = some e.2 := by
  obtain ⟨x, hx, he⟩ := List.mem_filterMap.1 h
  obtain ⟨b, hb, rfl⟩ := Option.map_eq_some_iff.1 he
  exact ⟨x, hx, rfl, hb⟩

theorem find?_picked_eq_none {rs : List NamedReading} {name : String} (h : name ∉ rs.map (·.name)) :
    (picked f rs).find? (·.1 == name) = none := by
  rw [List.find?_eq_none]
  intro e he hname
  obtain ⟨x, hx, hxn, -⟩ := name_of_mem_picked he
  have hname : e.1 = name := by simpa using hname
  exact h (List.mem_map.2 ⟨x, hx, hxn.trans hname⟩)

/-- a reading is found by its name, where every name has one reading -/
theorem find?_picked {rs : List NamedReading} (hn : (rs.map (·.name)).Nodup) {x : NamedReading} (hx : x ∈ rs) :
    ((picked f rs).find? (·.1 == x.name)).map (·.2) = f x := by
  induction rs with
  | nil => cases hx
  | cons y rs ih =>
    rw [List.map_cons, List.nodup_cons] at hn
    rw [picked_cons]
    rcases List.mem_cons.1 hx with rfl | hx
    · cases hf : f x with
      | none => simpa using find?_picked_eq_none hn.1
      | some b => simp
    · have hne : y.name ≠ x.name := fun h => hn.1 (h ▸ List.mem_map_of_mem hx)
      cases hf : f y with
      | none => simpa using ih hn.2 hx
      | some b => simpa [hne] using ih hn.2 hx

theorem names_picked_sublist (rs : List NamedReading) : ((picked f rs).map (·.1)).Sublist (rs.map (·.name)) := by
  induction rs with
  | nil => exact .slnil
  | cons x rs ih =>
    rw [picked_cons]
    cases hf : f x with
    | none => simpa using ih.cons _
    | some b => simpa using ih

end Picked

theorem valuesOf_eq (rs : List NamedReading) : valuesOf rs = picked NamedReading.value? rs := by
  refine List.filterMap_congr fun x _ => ?_
  cases h : x.reading with
  | error f => simp [NamedReading.value?, h]
  | ok o => cases o <;> simp [NamedReading.value?, h]

theorem findings_eq (rs : List NamedReading) : findings rs = picked NamedReading.finding? rs := by
  refine List.filterMap_congr fun x _ => ?_
  cases h : x.reading <;> simp [NamedReading.finding?, h]

/-- a finding stands under a name exactly if a reading of that name holds it -/
theorem mem_findings {rs : List NamedReading} {e : String × Finding} :
    e ∈ findings rs ↔ ∃ x ∈ rs, x.name = e.1 ∧ x.reading = .error e.2 := by
  obtain ⟨name, f⟩ := e
  rw [findings, List.mem_filterMap]
  refine exists_congr fun x => and_congr_right fun _ => ?_
  cases h : x.reading with
  | error g => simp
  | ok o => simp

theorem report_find_eq (name : String) (es : List (String × Finding)) :
    Report.find name es = (es.find? (·.1 == name)).map (·.2) := by
  induction es with
  | nil => rfl
  | cons e es ih =>
    obtain ⟨k, f⟩ := e
    by_cases h : k = name <;> simp [Report.find, h, ih]

theorem gather_of_no_findings {h : Heading} {raw : Value} {rs : List NamedReading} (hf : findings rs = []) :
    gather h raw rs = .ok ⟨h, raw, valuesOf rs, suppliedOf rs⟩ := by
  simp [gather, hf]

theorem gather_of_findings {h : Heading} {raw : Value} {rs : List NamedReading} (hf : findings rs ≠ []) :
    gather h raw rs = .error ⟨findings rs⟩ := by
  cases hfs : findings rs with
  | nil => exact absurd hfs hf
  | cons f fs => simp [gather, hfs]

theorem gather_eq_ok {h : Heading} {raw : Value} {rs : List NamedReading} {p : Instance} :
    gather h raw rs = .ok p ↔ findings rs = [] ∧ p = ⟨h, raw, valuesOf rs, suppliedOf rs⟩ := by
  by_cases hf : findings rs = []
  · simp [gather_of_no_findings hf, hf, eq_comm]
  · simp [gather_of_findings hf, hf]

theorem gather_eq_error {h : Heading} {raw : Value} {rs : List NamedReading} {rep : Report} :
    gather h raw rs = .error rep ↔ findings rs ≠ [] ∧ rep = ⟨findings rs⟩ := by
  by_cases hf : findings rs = []
  · simp [gather_of_no_findings hf, hf]
  · simp [gather_of_findings hf, hf, eq_comm]

/-! ## Definitions -/

/-- the readings of attributes, each as it yields -/
abbrev ReadEach (r : Registry) (here : Place) (strict : Bool) (view : KeyView) :
    List Attribute → List NamedReading → Prop :=
  List.Forall₂ fun a x => Attribute.read r here strict view a = .ok x

theorem readAttributes_eq_mapM {as : List Attribute} :
    readAttributes r here strict view as = as.mapM (Attribute.read r here strict view) := by
  induction as with
  | nil => rfl
  | cons a as ih => rw [readAttributes, List.mapM_cons, ih]; rfl

theorem readAttributes_eq_ok {as : List Attribute} {rs : List NamedReading} :
    readAttributes r here strict view as = .ok rs ↔ ReadEach r here strict view as rs := by
  rw [readAttributes_eq_mapM, mapM_eq_ok]

theorem ReadEach.names {as : List Attribute} {rs : List NamedReading} (h : ReadEach r here strict view as rs) :
    rs.map (·.name) = as.map (·.name) := by
  induction h with
  | nil => rfl
  | cons hx _ ih => rw [List.map_cons, List.map_cons, (Attribute.read_eq_ok.1 hx).1, ih]

namespace Definition

/-- the view by which a definition reads a raw value -/
def viewOf (raw : Value) : Outcome KeyView := KeyView.ofEntries (raw.entries?.getD [])

/-- a definition is read exactly when its attributes are, each by itself, and gathers what they yield -/
theorem read_eq_ok {d : Definition} {raw : Value} {o : Except Report Instance} :
    d.read r here raw = .ok o ↔
      ∃ view rs, viewOf raw = .ok view ∧ ReadEach r here d.settings.strictTypes view d.attributes rs ∧
        o = gather d.heading raw rs := by
  obtain ⟨stamp, name, attributes, settings⟩ := d
  rw [Definition.read, bind_eq_ok]
  constructor
  · rintro ⟨view, hv, h⟩
    obtain ⟨rs, hrs, h⟩ := bind_eq_ok.1 h
    exact ⟨view, rs, hv, readAttributes_eq_ok.1 hrs, (Except.ok.inj h).symm⟩
  · rintro ⟨view, rs, hv, hrs, rfl⟩
    exact ⟨view, hv, bind_eq_ok.2 ⟨rs, readAttributes_eq_ok.2 hrs, rfl⟩⟩

/-- a parse of a mapping is the reading, whose report must have a text -/
theorem parse_map {run : Nat} {d : Definition} {ro : Bool} {es : List (Value × Value)} :
    d.parse r run (.map ro es) = (do
      match ← d.read r (.root run) (.map ro es) with
      | .ok p => .ok p
      | .error report => do
        let _ ← report.payload.json .compact
        .error (.rejected report)) := rfl

/-- a parse of a mapping gives an instance exactly when the reading does -/
theorem parse_eq_ok {run : Nat} {d : Definition} {ro : Bool} {es : List (Value × Value)} {p : Instance} :
    d.parse r run (.map ro es) = .ok p ↔ d.read r (.root run) (.map ro es) = .ok (.ok p) := by
  rw [parse_map]
  cases h : d.read r (.root run) (.map ro es) with
  | error f => simp
  | ok o =>
    cases o with
    | ok q => simp
    | error rep => cases hj : rep.payload.json .compact <;> simp [hj]

/-- an instance keeps the raw value that it was read from -/
theorem raw_of_read {d : Definition} {raw : Value} {p : Instance} (h : d.read r here raw = .ok (.ok p)) :
    p.raw = raw := by
  obtain ⟨view, rs, -, -, ho⟩ := read_eq_ok.1 h
  rw [(gather_eq_ok.1 ho.symm).2]

/-- a parse that gives an instance has read the instance's own raw value -/
theorem read_of_parse {run : Nat} {d : Definition} {raw : Value} {p : Instance} (h : d.parse r run raw = .ok p) :
    d.read r (.root run) p.raw = .ok (.ok p) := by
  have of_map {ro : Bool} {es : List (Value × Value)} (hp : d.parse r run (.map ro es) = .ok p) :
      d.read r (.root run) p.raw = .ok (.ok p) := by
    have hv := parse_eq_ok.1 hp
    rw [raw_of_read hv]
    exact hv
  cases raw with
  | null => exact of_map h
  | map ro es => exact of_map h
  | _ => cases h

end Definition

end Intake
