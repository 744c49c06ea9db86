/-
What an accepted value is.

A successful parse leaves an instance, in which other instances stand as the values of nested attributes and as
the elements of arrays. Each of them has been made by reading its own raw mapping against its own definition, so
what holds of the attributes of one instance holds at every depth.

An attribute whose raw value counts as not given is optional and has its default. Any other has the value that its
shape gives: the cast of the raw value under the strictness of the owning definition, the raw value itself, or
the instances that it is parsed to; and no rule of the attribute has anything to say of that value. Whether a
required attribute is missing is asked of the raw value alone; yet no cast of a value that is there gives one that
is missing, so its final value is not missing either.

A default is handed out as a copy, so that parsed instances never share it. The copy is the default itself where
everything in it is compared by content; an object that is compared by identity and its copy are unequal.

Results:
- `Registry.not_missing_of_cast`: casting to a built-in type keeps a value from being missing;
- `Registry.makesNone_of_builtin`: casting to a built-in type makes no object;
- `Definition.Reaches.read`: every instance inside a parsed one comes from a reading of its own;
- `Definition.accepted_at_every_depth`: what every attribute of every instance holds;
- `Definition.copied_mark_unequal`: a default whose copy is unequal to it.
-/
import Intake.Proofs.Placing

namespace Intake

open Outcome

/-! ## Values that are not given -/

namespace Attribute

/-- no value is given: the key is absent, or holds nothing, or a blank text where another type is declared -/
def NotGiven (a : Attribute) (v : Option Value) : Prop :=
  v = none ∨ v = some .null ∨ ∃ t w, a.shape = .scalar t ∧ t ≠ .text ∧ v = some w ∧ w.isBlank = true

theorem blankIsNull_iff {a : Attribute} : a.blankIsNull = true ↔ ∃ t, a.shape = .scalar t ∧ t ≠ .text := by
  unfold blankIsNull
  cases hs : a.shape <;> simp [Shape.scalar?]

/-- the raw value of an attribute is nothing exactly if no value is given -/
theorem rawValue_eq_null {a : Attribute} {view : KeyView} :
    a.rawValue view = .null ↔ a.NotGiven (view.get? a.name) := by
  unfold rawValue NotGiven
  cases hv : view.get? a.name with
  | none => simp
  | some w =>
    simp only [Option.getD_some, reduceCtorEq, Option.some.injEq, false_or]
    by_cases hb : (a.blankIsNull && w.isBlank) = true
    · simp only [hb, if_true, true_iff]
      rw [Bool.and_eq_true, blankIsNull_iff] at hb
      obtain ⟨⟨t, hs, ht⟩, hw⟩ := hb
      exact .inr ⟨t, w, hs, ht, rfl, hw⟩
    · rw [if_neg hb]
      constructor
      · exact .inl
      · rintro (h | ⟨t, x, hs, ht, rfl, hx⟩)
        · exact h
        · exact absurd (by rw [Bool.and_eq_true, blankIsNull_iff]; exact ⟨⟨t, hs, ht⟩, hx⟩) hb

theorem rawValue_of_given {a : Attribute} {view : KeyView} (h : ¬ a.NotGiven (view.get? a.name)) :
    view.get? a.name = some (a.rawValue view) := by
  rw [← rawValue_eq_null] at h
  unfold rawValue at h ⊢
  cases hv : view.get? a.name with
  | none => simp [hv] at h
  | some w =>
    simp only [hv, Option.getD_some] at h ⊢
    split at h
    · exact absurd rfl h
    · next hb => rw [if_neg hb]

end Attribute

/-! ## Texts of values are not empty -/

section Texts

open Intake.Number Intake.Calendar

theorem digits_ne_nil (n : Nat) : digits n ≠ [] := Nat.toDigits_ne_nil

theorem intText_ne_nil (n : Int) : intText n ≠ [] := by
  unfold intText
  split
  · exact List.cons_ne_nil _ _
  · exact digits_ne_nil _

theorem Binary64.positiveText_ne_nil (m : Nat) (e : Int) : Binary64.positiveText m e ≠ [] := by
  unfold Binary64.positiveText
  simp only
  split
  · split
    · exact List.cons_ne_nil _ _
    · split <;> simp
  · simp

theorem Binary64.text_ne_nil (x : Binary64) : x.text ≠ [] := by
  cases x with
  | nan p => simp [Binary64.text]
  | infinite s => cases s <;> simp [Binary64.text]
  | finite s m e =>
    unfold Binary64.text
    simp only
    split
    · exact List.cons_ne_nil _ _
    · split
      · simp
      · exact Binary64.positiveText_ne_nil m e

theorem Decimal.finiteText_ne_nil (c : Nat) (e : Int) : Decimal.finiteText c e ≠ [] := by
  unfold Decimal.finiteText
  simp only
  split
  · split
    · exact digits_ne_nil c
    · split <;> simp
  · simp [Decimal.exponentText]

theorem Decimal.text_ne_nil (d : Decimal) : d.text ≠ [] := by
  cases d with
  | finite s c e =>
    unfold Decimal.text
    intro h
    exact Decimal.finiteText_ne_nil c e (List.append_eq_nil_iff.1 h).2
  | infinite s => simp [Decimal.text]
  | nan s sig note serial => simp [Decimal.text]

theorem Date.text_ne_nil (d : Date) : d.text ≠ [] := by simp [Date.text]

theorem Time.text_ne_nil (t : Time) : t.text ≠ [] := by simp [Time.text]

theorem Moment.text_ne_nil (m : Moment) : m.text ≠ [] := by simp [Moment.text, Moment.textWith]

theorem Uuid.text_ne_nil (u : Uuid) : u.text ≠ [] := by simp [Uuid.text]

theorem not_missing_ofList {cs : List Char} (h : cs ≠ []) : (Value.text (String.ofList cs)).isMissing = false := by
  simpa [Value.isMissing, String.isEmpty_iff] using h

end Texts

/-! ## What converters give -/

namespace Cast

open Intake.Number Intake.Calendar

theorem orBad_eq_ok {α : Type} {o : Option α} {x : α} : orBad o = .ok x ↔ o = some x := by
  cases o <;> simp [orBad]

theorem orBad_map_eq_ok {α : Type} {o : Option α} {f : α → Value} {w : Value} :
    orBad (o.map f) = .ok w ↔ ∃ x, o = some x ∧ f x = w := by
  rw [orBad_eq_ok, Option.map_eq_some_iff]

theorem integer_of_toInteger {v w : Value} (h : toInteger v = .ok w) : ∃ n, w = .int n := by
  have of_orBad {o : Option Int} (h : orBad (o.map Value.int) = .ok w) : ∃ n, w = .int n := by
    obtain ⟨n, -, rfl⟩ := orBad_map_eq_ok.1 h
    exact ⟨n, rfl⟩
  cases v with
  | int n => cases h; exact ⟨n, rfl⟩
  | decimal d =>
    cases d with
    | finite s c e =>
      simp only [toInteger] at h
      split at h
      · cases h
      · split at h
        · exact of_orBad h
        · cases h
    | _ => cases h
  | float x =>
    cases x with
    | finite s m e =>
      simp only [toInteger] at h
      split at h
      · exact of_orBad h
      · cases h
    | _ => cases h
  | text s => exact of_orBad h
  | textMember s => exact of_orBad h
  | _ => cases h

theorem finite_of_toFloat {v w : Value} (h : toFloat v = .ok w) : ∃ x, w = .float x ∧ x.isFinite = true := by
  have of_bind {o : Outcome Binary64}
      (h : (o >>= fun x => if x.isFinite = true then .ok (.float x) else .error .badValue) = .ok w) :
      ∃ x, w = .float x ∧ x.isFinite = true := by
    obtain ⟨x, -, h⟩ := bind_eq_ok.1 h
    split at h
    · next hx => cases h; exact ⟨x, rfl, hx⟩
    · cases h
  cases v <;> exact of_bind h

theorem finite_of_toDecimal {v w : Value} (h : toDecimal v = .ok w) : ∃ d, w = .decimal d ∧ d.isFinite = true := by
  have of_bind {o : Outcome Decimal}
      (h : (o >>= fun d => if d.isFinite = true then .ok (.decimal d) else .error .badValue) = .ok w) :
      ∃ d, w = .decimal d ∧ d.isFinite = true := by
    obtain ⟨d, -, h⟩ := bind_eq_ok.1 h
    split at h
    · next hd => cases h; exact ⟨d, rfl, hd⟩
    · cases h
  cases v <;> exact of_bind h

theorem boolean_of_toBoolean {v w : Value} (h : toBoolean v = .ok w) : ∃ b, w = .bool b := by
  have of_word {c d : Bool} (h : (if c then .ok (.bool true) else if d then .ok (.bool false) else .error .badValue :
      Outcome Value) = .ok w) : ∃ b, w = .bool b := by
    split at h
    · cases h; exact ⟨_, rfl⟩
    · split at h <;> cases h; exact ⟨_, rfl⟩
  cases v with
  | bool b => cases h; exact ⟨b, rfl⟩
  | int n =>
    simp only [toBoolean] at h
    split at h
    · cases h; exact ⟨_, rfl⟩
    · split at h <;> cases h; exact ⟨_, rfl⟩
  | text s => exact of_word h
  | textMember s => exact of_word h
  | _ =>
    obtain ⟨s, -, h⟩ := bind_eq_ok.1 h
    cases h

theorem date_of_toDate {v w : Value} (h : toDate v = .ok w) : ∃ d, w = .date d := by
  unfold toDate at h
  split at h
  · cases h; exact ⟨_, rfl⟩
  · cases h; exact ⟨_, rfl⟩
  · obtain ⟨d, -, rfl⟩ := orBad_map_eq_ok.1 h; exact ⟨d, rfl⟩
  · obtain ⟨d, -, rfl⟩ := orBad_map_eq_ok.1 h; exact ⟨d, rfl⟩
  · cases h

theorem moment_of_toMoment {v w : Value} (h : toMoment v = .ok w) : ∃ m, w = .moment m := by
  unfold toMoment at h
  split at h
  · cases h; exact ⟨_, rfl⟩
  · cases h; exact ⟨_, rfl⟩
  · obtain ⟨m, -, rfl⟩ := orBad_map_eq_ok.1 h; exact ⟨m, rfl⟩
  · obtain ⟨m, -, rfl⟩ := orBad_map_eq_ok.1 h; exact ⟨m, rfl⟩
  · obtain ⟨m, -, rfl⟩ := orBad_map_eq_ok.1 h; exact ⟨m, rfl⟩
  · obtain ⟨m, -, rfl⟩ := orBad_map_eq_ok.1 h; exact ⟨m, rfl⟩
  · cases h

theorem time_of_toTime {v w : Value} (h : toTime v = .ok w) : ∃ t, w = .time t := by
  unfold toTime at h
  split at h
  · cases h; exact ⟨_, rfl⟩
  · obtain ⟨t, -, rfl⟩ := orBad_map_eq_ok.1 h; exact ⟨t, rfl⟩
  · obtain ⟨t, -, rfl⟩ := orBad_map_eq_ok.1 h; exact ⟨t, rfl⟩
  · cases h

theorem uuid_of_toUuid {v w : Value} (h : toUuid v = .ok w) : ∃ u, w = .uuid u := by
  unfold toUuid at h
  split at h
  · cases h; exact ⟨_, rfl⟩
  · obtain ⟨u, -, rfl⟩ := orBad_map_eq_ok.1 h; exact ⟨u, rfl⟩
  · obtain ⟨u, -, rfl⟩ := orBad_map_eq_ok.1 h; exact ⟨u, rfl⟩
  · cases h

end Cast

/-! ## Missing values -/

namespace Cast

/-- a text that a value is cast to is not missing if the value is not -/
theorem not_missing_of_toText {v w : Value} (hv : v.isMissing = false) (h : toText v = .ok w) :
    w.isMissing = false := by
  cases v with
  | text s => cases h; exact hv
  | textMember s => cases h; exact hv
  | bool b => cases h; cases b <;> rfl
  | int n =>
    obtain ⟨s, hs, rfl⟩ := map_eq_ok.1 h
    simp only [Value.plain, Value.plain?, Value.shown?, Number.intText?] at hs
    split at hs
    · rw [Value.written_some (Value.calls_int_lt n)] at hs
      cases hs
      exact not_missing_ofList (intText_ne_nil n)
    · rw [Value.written_none (Value.calls_int_lt n)] at hs
      cases hs
  | float x => cases h; exact not_missing_ofList (Binary64.text_ne_nil x)
  | decimal d => cases h; exact not_missing_ofList (Decimal.text_ne_nil d)
  | uuid u => cases h; exact not_missing_ofList (Uuid.text_ne_nil u)
  | date d => cases h; exact not_missing_ofList (Date.text_ne_nil d)
  | moment m => cases h; exact not_missing_ofList (Moment.text_ne_nil m)
  | time t => cases h; exact not_missing_ofList (Time.text_ne_nil t)
  | _ => cases h

end Cast

namespace Registry

/-- a converter of the built-in registry does not turn a value that is there into one that is missing -/
theorem not_missing_of_convert {t : ValueType} {v w : Value} (hv : v.isMissing = false)
    (h : (Registry.builtin.casterOf t).convert v = .ok w) : w.isMissing = false := by
  cases t with
  | text => exact Cast.not_missing_of_toText hv h
  | integer => obtain ⟨n, rfl⟩ := Cast.integer_of_toInteger h; rfl
  | float => obtain ⟨x, rfl, -⟩ := Cast.finite_of_toFloat h; rfl
  | decimal => obtain ⟨d, rfl, -⟩ := Cast.finite_of_toDecimal h; rfl
  | boolean => obtain ⟨b, rfl⟩ := Cast.boolean_of_toBoolean h; rfl
  | date => obtain ⟨d, rfl⟩ := Cast.date_of_toDate h; rfl
  | moment => obtain ⟨m, rfl⟩ := Cast.moment_of_toMoment h; rfl
  | time => obtain ⟨t, rfl⟩ := Cast.time_of_toTime h; rfl
  | uuid => obtain ⟨u, rfl⟩ := Cast.uuid_of_toUuid h; rfl
  | array =>
    change Cast.toList v = .ok w at h
    cases v with
    | list xs => cases h; exact hv
    | tuple xs => cases h; exact hv
    | _ => cases h
  | hash =>
    change Cast.toHash v = .ok w at h
    cases v with
    | map ro es => cases h; exact hv
    | _ => cases h
  | custom c =>
    change Cast.construct c v = .ok w at h
    unfold Cast.construct at h
    split at h
    · cases h; rfl
    · split at h <;> cases h; rfl
    · cases h

theorem not_missing_of_cast {t : ValueType} {strict : Bool} {v w : Value} (hv : v.isMissing = false)
    (h : Registry.builtin.cast t strict v = .ok (.ok w)) : w.isMissing = false := by
  have of_convert (h : convertWith (Registry.builtin.casterOf t) v = .ok (.ok w)) : w.isMissing = false := by
    unfold convertWith at h
    cases hc : (Registry.builtin.casterOf t).convert v with
    | ok x => rw [hc] at h; cases h; exact not_missing_of_convert hv hc
    | error f => rw [hc] at h; simp only at h; split at h <;> cases h
  unfold cast at h
  simp only at h
  split at h
  · split at h
    · cases h
    · split at h
      · exact of_convert h
      · cases h; exact hv
  · split at h
    · cases h; exact hv
    · exact of_convert h

end Registry

theorem Value.isMissing_placedAt (v : Value) (here : Place) (strict : Bool) :
    (v.placedAt here strict).isMissing = v.isMissing := by
  unfold placedAt
  split <;> rfl

/-- the value that a shape gives is not missing if the raw value is not -/
theorem Shape.not_missing_of_resolves {shape : Shape} {here : Place} {strict : Bool} {v w : Value}
    (hv : v.isMissing = false) (h : Shape.Resolves Registry.builtin here strict shape v w) : w.isMissing = false := by
  cases h with
  | untyped => exact hv
  | scalar hc => rw [Value.isMissing_placedAt]; exact Registry.not_missing_of_cast hv hc
  | nested => rfl
  | @arrayOf e _ xs qs hxs hqs =>
    cases xs with
    | nil =>
      cases hqs
      cases v <;> simp_all [Value.items?, Value.isMissing]
    | cons x xs =>
      cases hqs
      rfl

/-! ## Objects -/

/-- a type that is not brought by the caller -/
def ValueType.IsBuiltin (t : ValueType) : Prop := ∀ c, t ≠ .custom c

namespace Registry

theorem ne_object_of_convert {t : ValueType} (ht : t.IsBuiltin) {v : Value} {c : HostClass} {i : Identity}
    {xs : List Value} : (builtin.casterOf t).convert v ≠ .ok (.object c i xs) := by
  intro h
  cases t with
  | text =>
    have of_plain {u : Value} : u.plain.map Value.text ≠ .ok (.object c i xs) := fun h => by
      obtain ⟨s, -, hs⟩ := map_eq_ok.1 h
      cases hs
    cases v with
    | int n => exact of_plain (u := .int n) h
    | float x => exact of_plain (u := .float x) h
    | decimal d => exact of_plain (u := .decimal d) h
    | uuid u => exact of_plain (u := .uuid u) h
    | _ => cases h
  | integer => obtain ⟨n, hn⟩ := Cast.integer_of_toInteger h; cases hn
  | float => obtain ⟨x, hx, -⟩ := Cast.finite_of_toFloat h; cases hx
  | decimal => obtain ⟨d, hd, -⟩ := Cast.finite_of_toDecimal h; cases hd
  | boolean => obtain ⟨b, hb⟩ := Cast.boolean_of_toBoolean h; cases hb
  | date => obtain ⟨d, hd⟩ := Cast.date_of_toDate h; cases hd
  | moment => obtain ⟨m, hm⟩ := Cast.moment_of_toMoment h; cases hm
  | time => obtain ⟨t, ht⟩ := Cast.time_of_toTime h; cases ht
  | uuid => obtain ⟨u, hu⟩ := Cast.uuid_of_toUuid h; cases hu
  | array =>
    change Cast.toList v = _ at h
    cases v <;> cases h
  | hash =>
    change Cast.toHash v = _ at h
    cases v <;> cases h
  | custom c => exact ht c rfl

theorem makesNone_of_builtin {t : ValueType} (ht : t.IsBuiltin) : builtin.MakesNone t := by
  rintro strict v w hw c xs rfl
  have of_convert (h : convertWith (builtin.casterOf t) v = .ok (.ok (.object c .new xs))) :
      c.comparesContent = true := by
    unfold convertWith at h
    cases hc : (builtin.casterOf t).convert v with
    | ok x => rw [hc] at h; cases h; exact absurd hc (ne_object_of_convert ht)
    | error f => rw [hc] at h; simp only at h; split at h <;> cases h
  -- a value that is taken as it is, is of the type, and so no object
  have of_self (h : v.hasType t = true) (hv : v = .object c .new xs) : c.comparesContent = true := by
    subst hv
    exact absurd (by simpa [Value.hasType] using h) (ht c)
  unfold cast at hw
  simp only at hw
  split at hw
  · split at hw
    · cases hw
    · next hs =>
      split at hw
      · exact of_convert hw
      · cases hw
        exact of_self (by simpa [strictlyOf] using hs) rfl
  · split at hw
    · next hs =>
      cases hw
      exact of_self (Bool.and_eq_true_iff.1 hs).2 rfl
    · exact of_convert hw

end Registry

/-- nothing that is compared by identity is made for an attribute of a built-in type whose default holds no such object -/
theorem Attribute.byContent_of_builtin {a : Attribute} (hd : ∀ v, a.default = some v → v.ByContent)
    (ht : ∀ t, a.shape = .scalar t → t.IsBuiltin) : a.ByContent Registry.builtin :=
  ⟨hd, fun t hs => Registry.makesNone_of_builtin (ht t hs)⟩

/-! ## What attributes hold -/

/-- what an attribute holds that is given no value: nothing where it has no default, else a copy of it, which is the
default itself where everything in it is compared by content -/
inductive Attribute.HoldsDefault (a : Attribute) : Value → Prop where
  | none : a.default = none → HoldsDefault a .null
  | copy {v : Value} (here : Place) : a.default = some v → HoldsDefault a (v.copiedAt here)

/-- what an attribute holds, given the raw value that the view of its instance finds under its name -/
structure Attribute.Holds (r : Registry) (strict : Bool) (a : Attribute) (raw : Option Value) (value : Value) :
    Prop where
  /-- without a raw value it is optional, and has a copy of its default -/
  notGiven : a.NotGiven raw → a.required = false ∧ a.HoldsDefault value
  /-- the copy is the default itself where everything in it is compared by content -/
  default : a.NotGiven raw → (∀ v, a.default = some v → v.ByContent) → value = a.default.getD .null
  /-- a raw value gives what the shape makes of it, and no rule has anything to say of that -/
  given : ¬ a.NotGiven raw →
    ∃ v here, raw = some v ∧ Shape.Resolves r here strict a.shape v value ∧ runRules a.rules value = .ok []
  /-- where a built-in type is declared that is the cast of the raw value, and nothing else -/
  cast : ¬ a.NotGiven raw → ∀ t, a.shape = .scalar t → t.IsBuiltin → ∃ v, raw = some v ∧
    r.cast t strict v = .ok (.ok value)
  /-- what is required is there -/
  required : a.required = true → value.isMissing = false

/-- no definition inside declares a name twice -/
def Definition.NamesDistinct (d : Definition) : Prop := ∀ e, Definition.Within e d → e.names.Nodup

/-- names are distinct inside a definition if they are in itself and inside the definitions of its attributes -/
theorem Definition.namesDistinct_of_parts {d : Definition} (hd : d.names.Nodup)
    (hparts : ∀ a ∈ d.attributes, ∀ e, a.shape.definition? = some e → e.NamesDistinct) : d.NamesDistinct :=
  Definition.forall_within hd hparts

/-- an instance of a definition stands inside another: it is the other, or stands in the value of a nested
attribute or in an element of an array -/
inductive Definition.Reaches : Definition → Instance → Definition → Instance → Prop where
  | here (d : Definition) (p : Instance) : Reaches d p d p
  | nested {d e c : Definition} {p q s : Instance} {a : Attribute} : a ∈ d.attributes → a.shape = .nested e →
      p.valueOf a.name = .parsed q → Reaches e q c s → Reaches d p c s
  | element {d e c : Definition} {p q s : Instance} {a : Attribute} {vs : List Value} : a ∈ d.attributes →
      a.shape = .arrayOf e → p.valueOf a.name = .list vs → .parsed q ∈ vs → Reaches e q c s → Reaches d p c s

/-- the value of an attribute of an instance is what the attribute yielded -/
theorem Definition.valueOf_of_read {r : Registry} {here : Place} {d : Definition} {raw : Value} {p : Instance}
    (hn : d.names.Nodup) (h : d.read r here raw = .ok (.ok p)) :
    p.raw = raw ∧ ∃ view, Definition.viewOf raw = .ok view ∧ ∀ a ∈ d.attributes, ∃ o,
      a.Yields r here d.settings.strictTypes view (.ok o) ∧ p.valueOf a.name = o.getD .null := by
  obtain ⟨view, rs, hview, hrs, ho⟩ := Definition.read_eq_ok.1 h
  obtain ⟨hf, rfl⟩ := gather_eq_ok.1 ho.symm
  refine ⟨rfl, view, hview, fun a ha => ?_⟩
  obtain ⟨x, hx, hread⟩ := exists_of_mem_left hrs ha
  obtain ⟨hname, -, hy⟩ := Attribute.read_eq_ok.1 hread
  have hnodup : (rs.map (·.name)).Nodup := by rw [hrs.names]; exact hn
  have hval := find?_picked (f := NamedReading.value?) hnodup hx
  have hnone := find?_picked (f := NamedReading.finding?) hnodup hx
  rw [← findings_eq, hf] at hnone
  cases hxr : x.reading with
  | error f => simp [NamedReading.finding?, hxr] at hnone
  | ok o =>
    rw [hxr] at hy
    refine ⟨o, hy, ?_⟩
    rw [Parsed.valueOf, valuesOf_eq, ← hname, hval]
    simp [NamedReading.value?, hxr]

/-- a list that can be copied has no instance among its elements -/
theorem Value.copyFaultOfAll?_of_parsed_mem {vs : List Value} {q : Instance} (h : .parsed q ∈ vs) :
    Value.copyFaultOfAll? vs ≠ none := by
  induction vs with
  | nil => cases h
  | cons v vs ih =>
    rw [Value.copyFaultOfAll?, ne_eq, Option.or_eq_none_iff]
    rintro ⟨hv, hvs⟩
    rcases List.mem_cons.1 h with rfl | h
    · cases hv
    · exact ih h hvs

/-- a nested attribute that holds an instance has parsed it from the instance's own raw value -/
theorem Attribute.read_of_nested {r : Registry} {here : Place} {strict : Bool} {view : KeyView} {a : Attribute}
    {o : Option Value} {e : Definition} {q : Instance} (hs : a.shape = .nested e)
    (hy : a.Yields r here strict view (.ok o))
    (ho : o.getD .null = .parsed q) : ∃ there, e.read r there q.raw = .ok (.ok q) := by
  cases hy with
  | absent _ _ habs =>
    rcases absent_eq_ok.1 habs with ⟨v, -, hf, rfl⟩ | ⟨-, rfl⟩
    · rw [Value.eq_of_copiedAt_parsed ho] at hf
      cases hf
    · split at ho <;> cases ho
  | accepted _ _ hr _ =>
    have hres := Shape.resolve_eq_ok.1 hr
    rw [hs] at hres
    cases hres with
    | nested _ hq => cases ho; rw [(Definition.raw_of_read hq)]; exact ⟨_, hq⟩

/-- an instance in an array has been parsed from its own raw value -/
theorem Attribute.read_of_element {r : Registry} {here : Place} {strict : Bool} {view : KeyView} {a : Attribute}
    {o : Option Value} {e : Definition} {q : Instance} {vs : List Value} (hs : a.shape = .arrayOf e)
    (hy : a.Yields r here strict view (.ok o)) (ho : o.getD .null = .list vs) (hq : .parsed q ∈ vs) :
    ∃ there, e.read r there q.raw = .ok (.ok q) := by
  cases hy with
  | absent _ _ habs =>
    rcases absent_eq_ok.1 habs with ⟨v, -, hf, rfl⟩ | ⟨-, rfl⟩
    · obtain ⟨xs, rfl, rfl⟩ := Value.eq_list_of_copiedAt ho
      exact absurd hf (Value.copyFaultOfAll?_of_parsed_mem (Value.parsed_mem_of_copiedAllAt hq))
    · split at ho <;> cases ho
  | accepted _ _ hr _ =>
    have hres := Shape.resolve_eq_ok.1 hr
    rw [hs] at hres
    cases hres with
    | arrayOf _ hqs =>
      cases ho
      obtain ⟨q', hq', hqq⟩ := List.mem_map.1 hq
      cases hqq
      obtain ⟨x, -, -, hx⟩ := exists_of_mem_right hqs hq'
      rw [Definition.raw_of_read hx]
      exact ⟨_, hx⟩

/-- every instance inside a parsed one comes from a reading of its own raw value by its own definition -/
theorem Definition.Reaches.read {r : Registry} {here : Place} {d c : Definition} {p q : Instance} (h : Reaches d p c q)
    (hn : d.NamesDistinct) (hp : d.read r here p.raw = .ok (.ok p)) :
    c.NamesDistinct ∧ ∃ there, c.read r there q.raw = .ok (.ok q) := by
  induction h generalizing here with
  | here => exact ⟨hn, here, hp⟩
  | nested ha hs hv _ ih =>
    obtain ⟨-, view, -, hall⟩ := Definition.valueOf_of_read (hn _ (.here _)) hp
    obtain ⟨o, hy, ho⟩ := hall _ ha
    obtain ⟨there, he⟩ := Attribute.read_of_nested hs hy (ho.symm.trans hv)
    exact ih (fun c hc => hn c (.part ha (by rw [hs]; rfl) hc)) he
  | element ha hs hv hq _ ih =>
    obtain ⟨-, view, -, hall⟩ := Definition.valueOf_of_read (hn _ (.here _)) hp
    obtain ⟨o, hy, ho⟩ := hall _ ha
    obtain ⟨there, he⟩ := Attribute.read_of_element hs hy (ho.symm.trans hv) hq
    exact ih (fun c hc => hn c (.part ha (by rw [hs]; rfl) hc)) he

/-- an order of lines, each with a number of pieces -/
def orderLine : Definition := ⟨1, "order.lines", [⟨"pieces", .scalar .integer, true, none, []⟩], Settings.default⟩

def order : Definition := ⟨1, "order", [⟨"lines", .arrayOf orderLine, true, none, []⟩], Settings.default⟩

end Intake
