/-
What stands in an instance that was read.

The values of an instance are the defaults of attributes, raw values as they are, what raw values are cast to, and the
instances that nested values are read to. What holds throughout a raw value holds throughout the raw value of each
attribute (`Attribute.throughout_rawValue`); so what casts make of such values, and defaults have, holds throughout the
whole instance (`Definition.throughout_of_read`).
-/
import Intake.Proofs.Fields
import Intake.Proofs.Placing

namespace Intake

open Outcome

/-! ## Raw values -/

namespace KeyView

theorem find_eq (k : String) (es : Fields) : find k es = (es.find? (·.1 == k)).map (·.2) := by
  induction es with
  | nil => rfl
  | cons e es ih =>
    obtain ⟨l, v⟩ := e
    by_cases h : l = k <;> simp [find, h, ih]

theorem mem_insert {k : String} {v : Value} {es : Fields} {e : String × Value} (h : e ∈ insert k v es) :
    e = (k, v) ∨ e ∈ es := by
  induction es with
  | nil => exact .inl (List.mem_singleton.1 h)
  | cons f es ih =>
    obtain ⟨l, w⟩ := f
    rw [insert] at h
    split at h
    · next hl =>
      subst hl
      exact (List.mem_cons.1 h).imp_right (List.mem_cons_of_mem _)
    · rcases List.mem_cons.1 h with rfl | h
      · exact .inr List.mem_cons_self
      · exact (ih h).imp_right (List.mem_cons_of_mem _)

/-- what a view holds stands in one of the entries that it is made from -/
theorem entry_of_get? {es : List (Value × Value)} {view : KeyView} {k : String} {v : Value}
    (hview : ofEntries es = .ok view) (h : view.get? k = some v) : ∃ e ∈ es, e.2 = v := by
  have from_acc {acc fs : Fields} (hfs : ofEntriesFrom acc es = .ok fs) {f : String × Value} (hf : f ∈ fs) :
      f ∈ acc ∨ ∃ e ∈ es, e.2 = f.2 := by
    clear hview
    induction es generalizing acc with
    | nil => cases hfs; exact .inl hf
    | cons e es ih =>
      obtain ⟨key, w⟩ := e
      rw [ofEntriesFrom, bind_eq_ok] at hfs
      obtain ⟨l, -, hfs⟩ := hfs
      rcases ih hfs with hacc | ⟨e, he, hv⟩
      · rcases mem_insert hacc with rfl | hacc
        · exact .inr ⟨_, List.mem_cons_self, rfl⟩
        · exact .inl hacc
      · exact .inr ⟨e, List.mem_cons_of_mem _ he, hv⟩
  obtain ⟨fs, hfs, hok⟩ := bind_eq_ok.1 hview
  cases hok
  rw [get?, find_eq, Option.map_eq_some_iff] at h
  obtain ⟨f, hf, rfl⟩ := h
  rcases from_acc hfs (List.mem_of_find?_eq_some hf) with hnil | hmem
  · cases hnil
  · exact hmem

end KeyView

/-- what holds throughout a raw value holds throughout the raw value of each attribute -/
theorem Attribute.throughout_rawValue {P : Value → Prop} (hnull : P .null) {a : Attribute} {raw : Value} {view : KeyView}
    (hraw : raw.Throughout P) (hview : Definition.viewOf raw = .ok view) : (a.rawValue view).Throughout P := by
  have hleaf : Value.Throughout P .null := .of_leaf hnull fun x hx => by cases hx
  have hget : ((view.get? a.name).getD .null).Throughout P := by
    cases hv : view.get? a.name with
    | none => exact hleaf
    | some v =>
      obtain ⟨e, he, rfl⟩ := KeyView.entry_of_get? hview hv
      cases raw with
      | map readOnly es => exact hraw.child (.entry he)
      | _ => cases he
  unfold Attribute.rawValue
  simp only
  split
  · exact hleaf
  · exact hget

/-! ## Values -/

variable {r : Registry} {here : Place} {P Q : Value → Prop}

/-- values that an attribute casts, or takes as they are, have a property throughout, where raw values have another -/
structure Attribute.Carries (r : Registry) (strict : Bool) (Q P : Value → Prop) (a : Attribute) : Prop where
  untyped : a.shape = .untyped → ∀ v : Value, v.Throughout Q → v.Throughout P
  cast : ∀ t, a.shape = .scalar t → ∀ v w : Value, v.Throughout Q → r.cast t strict v = .ok (.ok w) →
    ∀ here, (w.placedAt here strict).Throughout P

/-- what an attribute is declared with as its default has a property throughout -/
abbrev Attribute.DefaultsTo (P : Value → Prop) (a : Attribute) : Prop := ∀ v, a.default = some v → v.Throughout P

/-- what an attribute has without a value from outside, a copy of its default, has a property throughout -/
abbrev Attribute.CopiesTo (P : Value → Prop) (a : Attribute) : Prop :=
  ∀ v, a.default = some v → ∀ here, (v.copiedAt here).Throughout P

theorem Attribute.DefaultsTo.copiesTo {a : Attribute} (h : a.DefaultsTo P) (hP : ∀ v here, P v → P (v.copiedAt here)) :
    a.CopiesTo P := fun v hv here => Value.Throughout.copiedAt (fun v => hP v here) (h v hv)

/-- what a raw value resolves to has a property throughout, if the instances inside do -/
theorem Attribute.throughout_of_resolves {strict : Bool} {a : Attribute} {v w : Value} (hlist : ∀ xs, P (.list xs))
    (ha : a.Carries r strict Q P) (hv : v.Throughout Q) (hr : Shape.Resolves r here strict a.shape v w)
    (hinside : ∀ e there raw q, a.shape.definition? = some e → raw.Throughout Q → e.read r there raw = .ok (.ok q) →
      (Value.parsed q).Throughout P) : w.Throughout P := by
  generalize hshape : a.shape = shape at hr
  cases hr with
  | untyped => exact ha.untyped hshape v hv
  | scalar hcast => exact ha.cast _ hshape v _ hv hcast here
  | nested _ hq => exact hinside _ _ _ _ (by rw [hshape]; rfl) hv hq
  | arrayOf hxs hqs =>
    refine .intro (hlist _) fun w hw => ?_
    cases hw with
    | item hw =>
      obtain ⟨q, hq, rfl⟩ := List.mem_map.1 hw
      obtain ⟨x, hx, -, hread⟩ := exists_of_mem_right hqs hq
      exact hinside _ _ _ _ (by rw [hshape]; rfl) (hv.items hxs (List.fst_mem_of_mem_zipIdx hx)) hread

/-- what an attribute yields has a property throughout, if the instances inside do -/
theorem Attribute.throughout_of_yields {strict : Bool} {view : KeyView} {a : Attribute} {v : Value} (hnull : P .null)
    (hlist : ∀ xs, P (.list xs)) (ha : a.Carries r strict Q P) (hdefault : a.CopiesTo P)
    (hy : a.Yields r here strict view (.ok (some v))) (hraw : (a.rawValue view).Throughout Q)
    (hinside : ∀ e there raw q, a.shape.definition? = some e → raw.Throughout Q → e.read r there raw = .ok (.ok q) →
      (Value.parsed q).Throughout P) : v.Throughout P := by
  cases hy with
  | absent _ _ habs =>
    rcases absent_eq_ok.1 habs with ⟨w, hw, -, ho⟩ | ⟨-, ho⟩
    · rw [Option.some.inj ho]
      exact hdefault w hw _
    · split at ho
      · rw [Option.some.inj ho]
        exact .of_leaf hnull fun x hx => by cases hx
      · cases ho
  | accepted _ _ hr _ => exact throughout_of_resolves hlist ha hraw (Shape.resolve_eq_ok.1 hr) hinside

theorem NamedReading.reading_of_value? {x : NamedReading} {v : Value} (h : x.value? = some v) :
    x.reading = .ok (some v) := by
  cases hx : x.reading with
  | error f => simp [value?, hx] at h
  | ok o => simpa [value?, hx] using h

namespace Definition

/-- **What holds of the values that attributes take, at every depth, holds throughout the instance.** -/
theorem throughout_of_read {d : Definition} (hQ : Q .null) (hP : P .null) (hlist : ∀ xs, P (.list xs))
    (hcarries : ∀ c, Within c d → ∀ a ∈ c.attributes, a.Carries r c.settings.strictTypes Q P)
    (hdefaults : ∀ c, Within c d → ∀ a ∈ c.attributes, a.CopiesTo P)
    (hself : ∀ c, Within c d → ∀ there raw q, c.read r there raw = .ok (.ok q) → P (.parsed q)) {raw : Value}
    {p : Instance} (hraw : raw.Throughout Q) (hp : d.read r here raw = .ok (.ok p)) : (Value.parsed p).Throughout P := by
  induction d using byParts generalizing here raw p with
  | parts d ih =>
    refine .intro (hself d (.here d) _ raw p hp) fun v hv => ?_
    obtain ⟨view, rs, hview, hrs, ho⟩ := read_eq_ok.1 hp
    obtain ⟨hfindings, hinst⟩ := gather_eq_ok.1 ho.symm
    cases hv with
    | @field f _ hf =>
      rw [hinst] at hf
      obtain ⟨x, hx, -, hxf⟩ := name_of_mem_picked (valuesOf_eq rs ▸ hf)
      obtain ⟨a, ha, hread⟩ := exists_of_mem_right hrs hx
      obtain ⟨-, -, hy⟩ := Attribute.read_eq_ok.1 hread
      rw [NamedReading.reading_of_value? hxf] at hy
      refine Attribute.throughout_of_yields hP hlist (hcarries d (.here d) a ha) (hdefaults d (.here d) a ha) hy
        (Attribute.throughout_rawValue hQ hraw hview) fun e there raw' q he hraw' hq => ?_
      exact ih a ha e he (fun c hc => hcarries c (.part ha he hc)) (fun c hc => hdefaults c (.part ha he hc))
        (fun c hc => hself c (.part ha he hc)) hraw' hq

end Definition

end Intake
