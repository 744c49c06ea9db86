/-
Parsing what a parse gave.

The projection of an instance is a hash of its casted values under the names of the attributes whose keys were
supplied, and the instances inside it are projected as well. Parsed by the definition of the instance it gives the
instance again, with other raw input (`Definition.Reparses`). Attribute by attribute: a value that was cast is cast to
itself, an untyped value is the raw value, and instances are parsed again from their own projections; a default that
stands for nothing under a supplied key is projected like a value, so it has to be one that its type leaves as it is
and its rules accept (`Attribute.Settled`); and rules do not see raw input. A default is copied by every parse, and two
copies of one that is compared by identity are unequal (`Definition.card_reparsed_unequal`).

One value may not survive: an instance that no key was supplied for is projected to an empty hash, which is missing
where an attribute is required (`Definition.Kept`).

Results:
- `Attribute.yields_again`: an attribute yields again what it has yielded;
- `Definition.reparses_of_read`: so does a definition;
- `Definition.parse_projection`: the parse of a projection succeeds, with an equal instance and the same projection.
-/
import Intake.Proofs.Contents
import Intake.Proofs.Fields
import Intake.Proofs.Recasting
import Intake.Proofs.RuleSight

namespace Intake

open Outcome

/-! ## Views -/

namespace KeyView

theorem insert_of_new {k : String} {es : Fields} (h : k ∉ es.names) (v : Value) : insert k v es = es ++ [(k, v)] := by
  induction es with
  | nil => rfl
  | cons e es ih =>
    obtain ⟨l, w⟩ := e
    rw [Fields.names_cons, List.mem_cons, not_or] at h
    rw [insert, if_neg (Ne.symm h.1), ih h.2, List.cons_append]

/-- fields with distinct names are the view of their entries -/
theorem ofEntries_entries {fs : Fields} (h : fs.names.Nodup) : ofEntries fs.entries = .ok ⟨fs⟩ := by
  have from_acc (acc : Fields) (hn : (acc.names ++ fs.names).Nodup) : ofEntriesFrom acc fs.entries = .ok (acc ++ fs) := by
    clear h
    induction fs generalizing acc with
    | nil => rw [Fields.entries_nil, ofEntriesFrom, List.append_nil]
    | cons f fs ih =>
      obtain ⟨k, v⟩ := f
      have hk : k ∉ acc.names := fun hk => (List.nodup_append.1 hn).2.2 k hk k List.mem_cons_self rfl
      rw [Fields.entries_cons, ofEntriesFrom]
      show ofEntriesFrom (insert k v acc) (Fields.entries fs) = _
      rw [insert_of_new hk, ih _ (by simpa using hn), List.append_assoc, List.singleton_append]
  rw [ofEntries, from_acc [] h, ok_bind, List.nil_append]

end KeyView

/-! ## Projections -/

namespace Value

theorem copyFault?_of_mem {xs : List Value} (h : copyFaultOfAll? xs = none) {x : Value} (hx : x ∈ xs) :
    x.copyFault? = none := by
  induction xs with
  | nil => cases hx
  | cons y xs ih =>
    rw [copyFaultOfAll?, Option.or_eq_none_iff] at h
    rcases List.mem_cons.1 hx with rfl | hx
    · exact h.1
    · exact ih h.2 hx

/-- what can be copied has no instance in it that a projection would come to -/
theorem projected_of_copied {v : Value} (h : v.copyFault? = none) : projected v = v := by
  induction v using byInstances with
  | parsed p => cases h
  | list xs ih => rw [projected, projectedAll_eq_self fun x hx => ih x hx (copyFault?_of_mem h hx)]
  | other v hv =>
    cases v with
    | parsed p => exact absurd rfl (hv.1 p)
    | list xs => exact absurd rfl (hv.2 xs)
    | _ => rfl

end Value

/-- the projection of an instance is missing exactly if no key was supplied -/
theorem isMissing_projected (p : Instance) : (Value.projected (.parsed p)).isMissing = p.keys.isEmpty := by
  obtain ⟨heading, raw, values, supplied⟩ := p
  rw [Value.projected, Value.isMissing, Parsed.keys, Parsed.pairs, List.isEmpty_map]
  induction values with
  | nil => rfl
  | cons f values ih =>
    obtain ⟨name, v⟩ := f
    rw [Value.projectedFields, List.filter_cons]
    split <;> simp_all

def NamedReading.projected? (x : NamedReading) : Option Value := if x.supplied then x.value?.map Value.projected else none

theorem contains_suppliedOf {rs : List NamedReading} (hn : (rs.map (·.name)).Nodup) {x : NamedReading} (hx : x ∈ rs) :
    (suppliedOf rs).contains x.name = x.supplied := by
  rw [Bool.eq_iff_iff, List.contains_iff_mem, suppliedOf, List.mem_map]
  constructor
  · rintro ⟨y, hy, hname⟩
    obtain ⟨hy, hsupplied⟩ := List.mem_filter.1 hy
    rwa [← List.inj_on_of_nodup_map hn hy hx hname]
  · intro h
    exact ⟨x, List.mem_filter.2 ⟨hx, h⟩, rfl⟩

theorem projectedFields_picked {supplied : List String} {rs : List NamedReading}
    (h : ∀ x ∈ rs, supplied.contains x.name = x.supplied) :
    Value.projectedFields supplied (picked NamedReading.value? rs) =
    Fields.entries (picked NamedReading.projected? rs) := by
  induction rs with
  | nil => rfl
  | cons x rs ih =>
    have hx := h x List.mem_cons_self
    rw [picked_cons, picked_cons, Fields.entries_append, ← ih fun y hy => h y (List.mem_cons_of_mem x hy)]
    cases hv : x.value? with
    | none => simp [NamedReading.projected?, hv]
    | some v =>
      simp only [Option.map_some, Option.toList_some, List.singleton_append, Value.projectedFields, hx,
        NamedReading.projected?, hv]
      cases x.supplied <;> simp

/-- the projection of gathered readings has a view, which shows each reading under its name -/
theorem viewOf_projected {rs : List NamedReading} (hn : (rs.map (·.name)).Nodup) (heading : Heading) (raw : Value) :
    ∃ view, Definition.viewOf (Value.projected (.parsed ⟨heading, raw, valuesOf rs, suppliedOf rs⟩)) = .ok view ∧
      ∀ x ∈ rs, view.get? x.name = x.projected? := by
  have hnames : (Fields.names (picked NamedReading.projected? rs)).Nodup := (names_picked_sublist rs).nodup hn
  refine ⟨⟨picked NamedReading.projected? rs⟩, ?_, fun x hx => ?_⟩
  · rw [Value.projected, valuesOf_eq, projectedFields_picked fun x hx => contains_suppliedOf hn hx]
    exact KeyView.ofEntries_entries hnames
  · rw [KeyView.get?, KeyView.find_eq]
    exact find?_picked hn hx

/-! ## What is needed of attributes -/

/-- an attribute that keeps what it yields: its type is a built-in one and its rules ask neither a function nor a
schema; and its default, unless that is nothing, is a value that the type casts to itself and that breaks no rule.
No default stands for an instance, nor for anything that is compared by identity -/
structure Attribute.Settled (strict : Bool) (a : Attribute) : Prop where
  builtin : ∀ t, a.shape = .scalar t → t.IsBuiltin
  plainly : ∀ rule ∈ a.rules, rule.Plainly
  simple : ∀ v, a.default = some v → v ≠ .null → a.shape.definition? = none
  unchanged : ∀ v t, a.default = some v → v ≠ .null → a.shape = .scalar t →
    Registry.builtin.cast t strict v = .ok (.ok v)
  satisfied : ∀ v, a.default = some v → v ≠ .null → runRules a.rules v = .ok []
  keyed : ∀ v, a.default = some v → v.WellKeyed
  content : ∀ v, a.default = some v → v.ByContent

namespace Definition

/-- every attribute keeps what it yields, at every depth -/
def Settled (d : Definition) : Prop := ∀ c, Within c d → ∀ a ∈ c.attributes, a.Settled c.settings.strictTypes

/-- a required nested attribute holds no instance without supplied keys, at every depth -/
def Kept (d : Definition) (p : Instance) : Prop :=
  ∀ c q, Reaches d p c q → ∀ a ∈ c.attributes, a.required = true → ∀ e s, a.shape = .nested e →
    q.valueOf a.name = .parsed s → s.keys ≠ []

/-- the projection of an instance is read, wherever it stands, to an instance that differs in nothing but raw input -/
def Reparses (d : Definition) (p : Instance) : Prop :=
  ∀ here, ∃ q, d.read .builtin here (Value.projected (.parsed p)) = .ok (.ok q) ∧
  (Value.parsed q).bare = (Value.parsed p).bare

end Definition

/-! ## Attributes -/

theorem Registry.ne_null_of_cast {t : ValueType} (ht : t.IsBuiltin) {strict : Bool} {v w : Value}
    (h : builtin.cast t strict v = .ok (.ok w)) : w ≠ .null := by
  rintro rfl
  obtain ⟨hs, hw⟩ := (cast_eq_ok ht).1 h
  split at hw
  · next hc => rw [← hw] at hs; exact absurd (hs hc.1) (by simp [strictlyOf, Value.hasType])
  · exact absurd (convert_convert ht hw).2.1 (by simp [strictlyOf, Value.hasType])

namespace Attribute

variable {here there : Place} {strict : Bool} {view view' : KeyView} {a : Attribute}

theorem rawValue_of_get? {v : Value} (h : view.get? a.name = some v) (hv : a.blankIsNull = true → v.text? = none) :
    a.rawValue view = v := by
  unfold rawValue
  simp only [h, Option.getD_some]
  cases hb : a.blankIsNull with
  | false => simp
  | true => simp [Value.isBlank, hv hb]

theorem rawValue_eq_null_of_get? (h : view.get? a.name = none ∨ view.get? a.name = some .null) :
    a.rawValue view = .null :=
  rawValue_eq_null.2 (h.imp_right .inl)

theorem supplied_of_not_null (h : a.rawValue view ≠ .null) : a.suppliedIn view = true := by
  cases hv : view.get? a.name with
  | none => exact absurd (rawValue_eq_null_of_get? (.inl hv)) h
  | some w => simp [suppliedIn, hv]

/-- an attribute that is there yields what its shape makes of the value that is there -/
theorem yields_of_given {v w : Value} (hget : view.get? a.name = some v) (hblank : a.blankIsNull = true → v.text? = none)
    (hnull : v ≠ .null) (hmissing : a.required = true → v.isMissing = false)
    (hres : Shape.Resolves .builtin (here.within a.name) strict a.shape v w) (hrules : runRules a.rules w = .ok []) :
    a.Yields .builtin here strict view (.ok (some w)) := by
  have hraw := rawValue_of_get? hget hblank
  refine .accepted ?_ (by rwa [hraw]) (by rw [hraw]; exact Shape.resolve_eq_ok.2 hres) hrules
  unfold missingIn
  cases hreq : a.required with
  | false => rfl
  | true => rw [hraw, hmissing hreq]; rfl

theorem not_blankIsNull (h : ∀ t, a.shape ≠ .scalar t) {P : Prop} (hb : a.blankIsNull = true) : P := by
  obtain ⟨t, ht, -⟩ := blankIsNull_iff.1 hb
  exact absurd ht (h t)

/-- the value of an untyped attribute is given and accepted again -/
theorem yields_of_untyped {v : Value} (hshape : a.shape = .untyped) (hget : view.get? a.name = some v) (hnull : v ≠ .null)
    (hmissing : a.required = true → v.isMissing = false) (hrules : runRules a.rules v = .ok []) :
    a.Yields .builtin here strict view (.ok (some v)) :=
  yields_of_given hget (not_blankIsNull (by simp [hshape])) hnull hmissing (by rw [hshape]; exact .untyped) hrules

/-- a value that was cast is no blank, and cast to itself -/
theorem yields_of_cast {t : ValueType} {v w : Value} (hshape : a.shape = .scalar t) (ht : t.IsBuiltin)
    (hcast : Registry.builtin.cast t strict v = .ok (.ok w)) (hget : view.get? a.name = some w)
    (hmissing : a.required = true → w.isMissing = false) (hrules : runRules a.rules w = .ok []) :
    a.Yields .builtin here strict view (.ok (some w)) := by
  have hkeeps := Registry.cast_cast ht hcast
  have hblank : a.blankIsNull = true → w.text? = none := fun hb => by
    obtain ⟨u, hu, hne⟩ := blankIsNull_iff.1 hb
    rw [hshape] at hu
    cases hu
    exact Registry.text?_of_cast ht hne hcast
  refine yields_of_given hget hblank (Registry.ne_null_of_cast ht hcast) hmissing ?_ hrules
  have hres : Shape.Resolves .builtin (here.within a.name) strict (.scalar t) w _ := .scalar hkeeps
  rwa [(Registry.makesNone_of_builtin ht).placedAt_eq_self hkeeps, ← hshape] at hres

/-- a definition that parses the projection of each of several instances parses them all, and to instances that
differ in nothing but raw input -/
theorem reparses_all {e : Definition} {qs : List Instance} (h : ∀ q ∈ qs, e.Reparses q) (k : Nat) :
    ∃ qs' : List Instance,
      List.Forall₂ (fun x q => x.1.entries?.isSome ∧ e.read .builtin (here.within (numeral x.2)) x.1 = .ok (.ok q))
        (((qs.map Value.parsed).map Value.projected).zipIdx k) qs' ∧
      (qs'.map Value.parsed).map Value.bare = (qs.map Value.parsed).map Value.bare := by
  induction qs generalizing k with
  | nil => exact ⟨[], .nil, rfl⟩
  | cons q qs ih =>
    obtain ⟨q', hread, hbare⟩ := h q List.mem_cons_self (here.within (numeral k))
    obtain ⟨qs', hall, hbares⟩ := ih (fun x hx => h x (List.mem_cons_of_mem q hx)) (k + 1)
    exact ⟨q' :: qs', .cons ⟨rfl, hread⟩ hall, by simp only [List.map_cons, hbare] at hbares ⊢; rw [hbares]⟩

/-- what is yielded differs from a value in nothing but raw input -/
def YieldsLike (here : Place) (strict : Bool) (view : KeyView) (a : Attribute) (o : Option Value) : Prop :=
  ∃ o', a.Yields .builtin here strict view (.ok o') ∧ o'.map Value.bare = o.map Value.bare

theorem yieldsLike_of_given (ha : a.Settled strict) {v w w' : Value} (hget : view.get? a.name = some v)
    (hshape : ∀ t, a.shape ≠ .scalar t) (hnull : v ≠ .null) (hmissing : a.required = true → v.isMissing = false)
    (hres : Shape.Resolves .builtin (here.within a.name) strict a.shape v w') (hbare : w'.bare = w.bare)
    (hrules : runRules a.rules w = .ok []) : a.YieldsLike here strict view (some w) := by
  have hrules' : runRules a.rules w' = .ok [] := by
    rw [← runRules_bare ha.plainly, hbare, runRules_bare ha.plainly, hrules]
  exact ⟨some w', yields_of_given hget (not_blankIsNull hshape) hnull hmissing hres hrules', congrArg some hbare⟩

/-- a default that was copied under a supplied key is given and accepted under it -/
theorem yields_default (ha : a.Settled strict) {v : Value} (hreq : a.required = false) (hd : a.default = some v)
    (hcopied : v.copyFault? = none) (hget : view.get? a.name = some v) :
    a.Yields .builtin here strict view (.ok (some v)) := by
  have hmissing : a.required = true → v.isMissing = false := fun h => absurd h (by simp [hreq])
  by_cases hv : v = .null
  · subst hv
    have hsupplied : a.suppliedIn view = true := by simp [suppliedIn, hget]
    refine .absent (by simp [missingIn, hreq]) (rawValue_eq_null_of_get? (.inr hget)) ?_
    rw [hsupplied]
    exact absent_eq_ok.2 (.inl ⟨.null, hd, hcopied, rfl⟩)
  · have hsat := ha.satisfied v hd hv
    have hsimple := ha.simple v hd hv
    cases hshape : a.shape with
    | untyped => exact yields_of_untyped hshape hget hv hmissing hsat
    | scalar t => exact yields_of_cast hshape (ha.builtin t hshape) (ha.unchanged v t hd hv hshape) hget hmissing hsat
    | nested e => simp [hshape, Shape.definition?] at hsimple
    | arrayOf e => simp [hshape, Shape.definition?] at hsimple

/-- an attribute that had no value has none again, and the same default -/
theorem absent_again {o : Option Value} (ha : a.Settled strict) (hm : a.missingIn view = false)
    (hn : a.rawValue view = .null)
    (habs : a.absent (here.within a.name) (a.suppliedIn view) = .ok o)
    (hget : view'.get? a.name = if a.suppliedIn view then o.map Value.projected else none) :
    a.suppliedIn view' = a.suppliedIn view ∧ a.Yields .builtin there strict view' (.ok o) := by
  have hreq : a.required = false := by simpa [missingIn, hn, Value.isMissing] using hm
  have hm' : a.missingIn view' = false := by simp [missingIn, hreq]
  rcases absent_eq_ok.1 habs with ⟨v, hd, hcopied, rfl⟩ | ⟨hd, rfl⟩
  · -- the copy of the default is the default, at either place
    have hself := Value.copiedAt_eq_self (ha.content v hd)
    rw [hself, Option.map_some, Value.projected_of_copied hcopied] at hget
    rw [hself]
    cases hs : a.suppliedIn view with
    | false =>
      rw [hs, if_neg Bool.false_ne_true] at hget
      refine ⟨by simp [suppliedIn, hget], .absent hm' (rawValue_eq_null_of_get? (.inl hget)) ?_⟩
      exact absent_eq_ok.2 (.inl ⟨v, hd, hcopied, by rw [hself]⟩)
    | true =>
      rw [hs, if_pos rfl] at hget
      exact ⟨by simp [suppliedIn, hget], yields_default ha hreq hd hcopied hget⟩
  · cases hs : a.suppliedIn view with
    | false =>
      rw [hs, if_neg Bool.false_ne_true] at hget
      have hs' : a.suppliedIn view' = false := by simp [suppliedIn, hget]
      exact ⟨hs', .absent hm' (rawValue_eq_null_of_get? (.inl hget)) (absent_eq_ok.2 (.inr ⟨hd, by rw [hs']⟩))⟩
    | true =>
      rw [hs, if_pos rfl, if_pos rfl] at hget
      have hs' : a.suppliedIn view' = true := by simp [suppliedIn, hget]
      exact ⟨hs', .absent hm' (rawValue_eq_null_of_get? (.inr hget)) (absent_eq_ok.2 (.inr ⟨hd, by rw [hs']⟩))⟩

/-- an instance that was accepted is accepted again from its projection -/
theorem nested_again {e : Definition} {q : Instance} (ha : a.Settled strict) (hshape : a.shape = .nested e)
    (hq : e.Reparses q) (hrules : runRules a.rules (.parsed q) = .ok []) (hkept : a.required = true → q.keys ≠ [])
    (hget : view'.get? a.name = some (Value.projected (.parsed q))) :
    a.YieldsLike there strict view' (some (.parsed q)) := by
  obtain ⟨q', hread, hbare⟩ := hq (there.within a.name)
  have hmissing : a.required = true → (Value.projected (.parsed q)).isMissing = false := fun hreq => by
    rw [isMissing_projected, List.isEmpty_eq_false_iff]
    exact hkept hreq
  exact yieldsLike_of_given ha hget (by simp [hshape]) (by rintro ⟨⟩) hmissing
    (by rw [hshape]; exact .nested rfl hread) hbare hrules

theorem elements_again {e : Definition} {qs : List Instance} (ha : a.Settled strict) (hshape : a.shape = .arrayOf e)
    (hqs : ∀ q ∈ qs, e.Reparses q) (hrules : runRules a.rules (.list (qs.map .parsed)) = .ok [])
    (hkept : a.required = true → qs ≠ []) (hget : view'.get? a.name = some (Value.projected (.list (qs.map .parsed)))) :
    a.YieldsLike there strict view' (some (.list (qs.map .parsed))) := by
  obtain ⟨qs', hreads, hbares⟩ := reparses_all hqs 0
  have hbare : (Value.list (qs'.map .parsed)).bare = (Value.list (qs.map .parsed)).bare := by
    rw [Value.bare, Value.bare, Value.bareAll_eq_map, Value.bareAll_eq_map, hbares]
  rw [Value.projected, Value.projectedAll_eq_map] at hget
  have hmissing : a.required = true → (Value.list ((qs.map Value.parsed).map Value.projected)).isMissing = false :=
      fun hreq => by
    simpa [Value.isMissing] using hkept hreq
  exact yieldsLike_of_given ha hget (by simp [hshape]) (by rintro ⟨⟩) hmissing (by rw [hshape]; exact .arrayOf rfl hreads)
    hbare hrules

/-- **An attribute yields again what it has yielded**, but for raw input, when the view shows the projection of that
under its name exactly if there was a key before. -/
theorem yields_again {o : Option Value} (ha : a.Settled strict) (hy : a.Yields .builtin here strict view (.ok o))
    (hraw : (a.rawValue view).WithoutInstances)
    (hget : view'.get? a.name = if a.suppliedIn view then o.map Value.projected else none)
    (hkept : a.required = true → ∀ e q, a.shape = .nested e → o = some (.parsed q) → q.keys ≠ [])
    (hnested : ∀ e here raw q, a.shape = .nested e → raw.WithoutInstances → e.read .builtin here raw = .ok (.ok q) →
      o = some (.parsed q) → e.Reparses q)
    (helements : ∀ e here raw q (qs : List Instance), a.shape = .arrayOf e → raw.WithoutInstances →
      e.read .builtin here raw = .ok (.ok q) → o = some (.list (qs.map .parsed)) → q ∈ qs → e.Reparses q) :
    a.suppliedIn view' = a.suppliedIn view ∧ a.YieldsLike there strict view' o := by
  cases hy with
  | absent hm hn habs =>
    obtain ⟨hs, hyields⟩ := absent_again ha hm hn habs hget
    exact ⟨hs, o, hyields, rfl⟩
  | @accepted v hm hn hr hrules =>
    have hs := supplied_of_not_null hn
    rw [hs, if_pos rfl, Option.map_some] at hget
    have hs' : a.suppliedIn view' = true := by simp [suppliedIn, hget]
    have hres := Shape.resolve_eq_ok.1 hr
    have hmissing : a.required = true → (a.rawValue view).isMissing = false := fun h => by simpa [missingIn, h] using hm
    have hvalue : a.required = true → v.isMissing = false := fun h => Shape.not_missing_of_resolves (hmissing h) hres
    refine ⟨by rw [hs, hs'], ?_⟩
    generalize a.rawValue view = raw at hn hr hraw hres hmissing
    generalize hshape : a.shape = shape at hres
    cases hres with
    | untyped =>
      rw [Value.projected_eq_self hraw] at hget
      exact ⟨_, yields_of_untyped hshape hget hn hmissing hrules, rfl⟩
    | @scalar t _ w hcast =>
      have ht := ha.builtin t hshape
      rw [(Registry.makesNone_of_builtin ht).placedAt_eq_self hcast] at hget hrules hvalue ⊢
      rw [Value.projected_eq_self (Registry.withoutInstances_of_cast ht hraw hcast)] at hget
      exact ⟨_, yields_of_cast hshape ht hcast hget hvalue hrules, rfl⟩
    | @nested e _ q hmap hread =>
      exact nested_again ha hshape (hnested e _ raw q hshape hraw hread rfl) hrules
        (fun hreq => hkept hreq e q hshape rfl) hget
    | @arrayOf e _ xs qs hxs hall =>
      have heach : ∀ q ∈ qs, e.Reparses q := by
        intro q hq
        obtain ⟨x, hx, -, hread⟩ := exists_of_mem_right hall hq
        exact helements e _ x.1 q qs hshape (hraw.items hxs (List.fst_mem_of_mem_zipIdx hx)) hread rfl hq
      exact elements_again ha hshape heach hrules (fun hreq => by simpa [Value.isMissing] using hvalue hreq) hget

end Attribute

/-! ## Readings -/

/-- two readings differ in nothing but raw input -/
structure NamedReading.Again (y x : NamedReading) : Prop where
  name : y.name = x.name
  supplied : y.supplied = x.supplied
  value : y.value?.map Value.bare = x.value?.map Value.bare
  finding : y.finding? = none

section Again

variable {ys rs : List NamedReading} (h : List.Forall₂ NamedReading.Again ys rs)

include h

theorem findings_of_again : findings ys = [] := by
  rw [findings_eq]
  induction h with
  | nil => rfl
  | cons hy _ ih => rw [picked_cons, hy.finding, ih]; rfl

theorem suppliedOf_of_again : suppliedOf ys = suppliedOf rs := by
  unfold suppliedOf
  induction h with
  | nil => rfl
  | cons hy _ ih =>
    rw [List.filter_cons, List.filter_cons, hy.supplied]
    split
    · rw [List.map_cons, List.map_cons, hy.name, ih]
    · exact ih

theorem valuesOf_of_again : Value.bareFields (valuesOf ys) = Value.bareFields (valuesOf rs) := by
  rw [valuesOf_eq, valuesOf_eq, Value.bareFields_eq_map, Value.bareFields_eq_map]
  induction h with
  | nil => rfl
  | @cons y x _ _ hy _ ih =>
    have hvalue := hy.value
    rw [picked_cons, picked_cons, List.map_append, List.map_append, ih, hy.name]
    cases hyv : y.value? <;> cases hxv : x.value? <;> simp_all

end Again

theorem NamedReading.reading_of_no_finding {x : NamedReading} (h : x.finding? = none) : x.reading = .ok x.value? := by
  cases hx : x.reading with
  | error f => simp [finding?, hx] at h
  | ok o => simp [value?, hx]

/-- an attribute that was read without a finding is read again, when the view shows what a projection shows -/
theorem Attribute.again_of_read {here there : Place} {strict : Bool} {view view' : KeyView} {a : Attribute}
    {x : NamedReading}
    (ha : a.Settled strict) (hread : Attribute.read .builtin here strict view a = .ok x) (hfinding : x.finding? = none)
    (hraw : (a.rawValue view).WithoutInstances) (hget : view'.get? x.name = x.projected?)
    (hkept : a.required = true → ∀ e q, a.shape = .nested e → x.value? = some (.parsed q) → q.keys ≠ [])
    (hnested : ∀ e here raw q, a.shape = .nested e → raw.WithoutInstances → e.read .builtin here raw = .ok (.ok q) →
      x.value? = some (.parsed q) → e.Reparses q)
    (helements : ∀ e here raw q (qs : List Instance), a.shape = .arrayOf e → raw.WithoutInstances →
      e.read .builtin here raw = .ok (.ok q) → x.value? = some (.list (qs.map .parsed)) → q ∈ qs → e.Reparses q) :
    ∃ y, Attribute.read .builtin there strict view' a = .ok y ∧ y.Again x := by
  obtain ⟨hname, hsupplied, hy⟩ := Attribute.read_eq_ok.1 hread
  rw [NamedReading.reading_of_no_finding hfinding] at hy
  rw [hname, NamedReading.projected?, hsupplied] at hget
  obtain ⟨hs, o, hyields, hbare⟩ := yields_again ha hy hraw hget hkept hnested helements
  exact ⟨⟨a.name, a.suppliedIn view', .ok o⟩, read_eq_ok.2 ⟨rfl, rfl, hyields⟩, hname.symm, hs.trans hsupplied.symm,
    hbare, rfl⟩

/-- where every pair of two lists has something between them, a list stands between the two -/
theorem exists_between {α β γ : Type} {R : α → β → Prop} {S : α → γ → Prop} {T : γ → β → Prop} {xs : List α}
    {ys : List β} (h : List.Forall₂ R xs ys) (hstep : ∀ x ∈ xs, ∀ y ∈ ys, R x y → ∃ z, S x z ∧ T z y) :
    ∃ zs, List.Forall₂ S xs zs ∧ List.Forall₂ T zs ys := by
  induction h with
  | nil => exact ⟨[], .nil, .nil⟩
  | cons hxy _ ih =>
    obtain ⟨z, hxz, hzy⟩ := hstep _ List.mem_cons_self _ List.mem_cons_self hxy
    obtain ⟨zs, hxs, hys⟩ := ih fun x hx y hy => hstep x (List.mem_cons_of_mem _ hx) y (List.mem_cons_of_mem _ hy)
    exact ⟨z :: zs, .cons hxz hxs, .cons hzy hys⟩

namespace Definition

variable {d : Definition} {p : Instance} {here there : Place}

theorem Settled.of_part (h : d.Settled) {a : Attribute} (ha : a ∈ d.attributes) {e : Definition}
    (he : a.shape.definition? = some e) : e.Settled := fun c hc => h c (.part ha he hc)

theorem NamesDistinct.of_part (h : d.NamesDistinct) {a : Attribute} (ha : a ∈ d.attributes) {e : Definition}
    (he : a.shape.definition? = some e) : e.NamesDistinct := fun c hc => h c (.part ha he hc)

/-- an instance gathers the readings of its attributes, each of which has its value there -/
theorem gathers_of_read {r : Registry} {raw : Value} (hn : d.names.Nodup) (h : d.read r here raw = .ok (.ok p)) :
    ∃ view rs, viewOf raw = .ok view ∧ ReadEach r here d.settings.strictTypes view d.attributes rs ∧
      (rs.map (·.name)).Nodup ∧ p = ⟨d.heading, raw, valuesOf rs, suppliedOf rs⟩ ∧
      ∀ x ∈ rs, x.finding? = none ∧ p.valueOf x.name = x.value?.getD .null := by
  obtain ⟨view, rs, hview, hrs, ho⟩ := read_eq_ok.1 h
  obtain ⟨hfindings, hp⟩ := gather_eq_ok.1 ho.symm
  have hnodup : (rs.map (·.name)).Nodup := by rw [hrs.names]; exact hn
  refine ⟨view, rs, hview, hrs, hnodup, hp, fun x hx => ⟨?_, ?_⟩⟩
  · have hnone := find?_picked (f := NamedReading.finding?) hnodup hx
    rw [← findings_eq, hfindings] at hnone
    exact hnone.symm
  · rw [hp, Parsed.valueOf, valuesOf_eq, find?_picked hnodup hx]

theorem nodup_of_read {r : Registry} {raw : Value} (hn : d.names.Nodup) (h : d.read r here raw = .ok (.ok p)) :
    (p.values.map (·.1)).Nodup := by
  obtain ⟨-, rs, -, -, hnodup, hinst, -⟩ := gathers_of_read hn h
  rw [hinst, valuesOf_eq]
  exact (names_picked_sublist rs).nodup hnodup

/-- **The projection of an instance that was read is read again**, to an instance that differs in nothing but raw
input. -/
theorem reparses_of_read (hn : d.NamesDistinct) (hd : d.Settled) (hraw : p.raw.WithoutInstances)
    (hp : d.read .builtin here p.raw = .ok (.ok p)) (hkept : d.Kept p) : d.Reparses p := by
  induction d using byParts generalizing here p with
  | parts d ih =>
    intro there
    obtain ⟨view, rs, hview, hrs, hnodup, hinst, hall⟩ := gathers_of_read (hn d (.here d)) hp
    obtain ⟨view', hview', hshows⟩ := viewOf_projected hnodup d.heading p.raw
    rw [← hinst] at hview'
    have heach (a : Attribute) (ha : a ∈ d.attributes) (x : NamedReading) (hx : x ∈ rs)
        (hread : Attribute.read .builtin here d.settings.strictTypes view a = .ok x) :
        ∃ y, Attribute.read .builtin there d.settings.strictTypes view' a = .ok y ∧ y.Again x := by
      obtain ⟨hfinding, hvalue⟩ := hall x hx
      rw [(Attribute.read_eq_ok.1 hread).1] at hvalue
      -- the instances inside come from readings of their own, to which the induction applies
      have hinside {e : Definition} {at' : Place} {raw : Value} {q : Instance} (he : a.shape.definition? = some e)
          (hqraw : raw.WithoutInstances) (hq : e.read .builtin at' raw = .ok (.ok q)) (hkeptq : e.Kept q) :
            e.Reparses q := by
        have hqr := raw_of_read hq
        exact ih a ha e he (hn.of_part ha he) (hd.of_part ha he) (by rwa [hqr]) (by rw [hqr]; exact hq) hkeptq
      refine Attribute.again_of_read (hd d (.here d) a ha) hread hfinding
        (Attribute.throughout_rawValue (by exact id) hraw hview) (hshows x hx) ?_ ?_ ?_
      · intro hreq e q hs hoq
        exact hkept d p (.here d p) a ha hreq e q hs (by rw [hvalue, hoq]; rfl)
      · intro e _ raw q hs hqraw hq hoq
        have hval : p.valueOf a.name = .parsed q := by rw [hvalue, hoq]; rfl
        exact hinside (by rw [hs]; rfl) hqraw hq fun c s hcs => hkept c s (.nested ha hs hval hcs)
      · intro e _ raw q qs hs hqraw hq hoq hmem
        have hval : p.valueOf a.name = .list (qs.map .parsed) := by rw [hvalue, hoq]; rfl
        exact hinside (by rw [hs]; rfl) hqraw hq fun c s hcs =>
          hkept c s (.element ha hs hval (List.mem_map_of_mem hmem) hcs)
    obtain ⟨ys, hys, hagain⟩ := exists_between hrs heach
    refine ⟨⟨d.heading, Value.projected (.parsed p), valuesOf ys, suppliedOf ys⟩,
      read_eq_ok.2 ⟨view', ys, hview', hys, ?_⟩, ?_⟩
    · exact (gather_of_no_findings (findings_of_again hagain)).symm
    · rw [hinst, Value.bare, Value.bare, valuesOf_of_again hagain, suppliedOf_of_again hagain]

/-! ## Equality -/

/-- in an instance that was read from a value with each key once, each key comes once as well -/
theorem wellKeyed_of_read (hn : d.NamesDistinct) (hd : d.Settled) (hraw : p.raw.WellKeyed)
    (hp : d.read .builtin here p.raw = .ok (.ok p)) : (Value.parsed p).WellKeyed := by
  refine throughout_of_read trivial trivial (fun _ => trivial)
    (fun c hc a ha => ⟨fun _ _ => id, fun t ht v w hv hw there => ?_⟩)
    (fun c hc a ha v hv there => ?_) (fun c hc _ raw q hq => nodup_of_read (hn c hc) hq) hraw hp
  · have hbuiltin := (hd c hc a ha).builtin t ht
    rw [(Registry.makesNone_of_builtin hbuiltin).placedAt_eq_self hw]
    exact Registry.wellKeyed_of_cast hbuiltin hv hw
  · rw [Value.copiedAt_eq_self ((hd c hc a ha).content v hv)]
    exact (hd c hc a ha).keyed v hv

/-- **The projection of a parsed instance is parsed again**, to an equal instance that has the same projection, strictly
or not. -/
theorem parse_projection {ro : Bool} {es : List (Value × Value)} (hn : d.NamesDistinct) (hd : d.Settled)
    (hraw : (Value.map ro es).WithoutInstances) (hkeyed : (Value.map ro es).WellKeyed)
    {run : Nat} (hp : d.parse .builtin run (.map ro es) = .ok p) (hkept : d.Kept p) (run' : Nat) :
    ∃ q, d.parse .builtin run' (p.toHash true) = .ok q ∧ (Value.parsed q).equal (.parsed p) = true ∧
      q.toHash true = p.toHash true := by
  have hread := parse_eq_ok.1 hp
  have hpr := raw_of_read hread
  rw [← hpr] at hraw hkeyed hread
  obtain ⟨q, hq, hbare⟩ := reparses_of_read hn hd hraw hread hkept (.root run')
  have hself := Value.same_self (wellKeyed_of_read hn hd hkeyed hread)
  have hhash (s : Instance) : s.toHash true = (Value.parsed s).projected := rfl
  refine ⟨q, ?_, ?_, ?_⟩
  · rw [hhash]
    obtain ⟨heading, raw, values, supplied⟩ := p
    rw [Value.projected] at hq ⊢
    exact parse_eq_ok.2 hq
  · rw [Value.equal_eq_same rfl, ← Value.same_bare, hbare, Value.same_bare, hself]
  · rw [hhash, hhash, ← Value.projected_bare, hbare, Value.projected_bare]

/-! ## An example -/

theorem settled_of_parts (hd : ∀ a ∈ d.attributes, a.Settled d.settings.strictTypes)
    (hparts : ∀ a ∈ d.attributes, ∀ e, a.shape.definition? = some e → e.Settled) : d.Settled :=
  forall_within hd hparts

theorem kept_of_parts
    (hd : ∀ a ∈ d.attributes, a.required = true → ∀ e s, a.shape = .nested e → p.valueOf a.name = .parsed s → s.keys ≠ [])
    (hnested : ∀ a ∈ d.attributes, ∀ e q, a.shape = .nested e → p.valueOf a.name = .parsed q → e.Kept q)
    (helements : ∀ a ∈ d.attributes, ∀ e vs q, a.shape = .arrayOf e → p.valueOf a.name = .list vs → .parsed q ∈ vs →
      e.Kept q) : d.Kept p := by
  intro c q hq
  cases hq with
  | here => exact hd
  | nested ha hs hv hq => exact hnested _ ha _ _ hs hv c q hq
  | element ha hs hv hmem hq => exact helements _ ha _ _ _ hs hv hmem c q hq

end Definition

/-- a guest, who is of age unless another age is given -/
def guest : Definition :=
  ⟨1, "booking.guest", [⟨"name", .scalar .text, true, none, [.length ⟨some 1, none, none, none⟩]⟩,
    ⟨"age", .scalar .integer, false, some (.int 18),
      [.numericality ⟨[(.lessThan, .int 150)], true, false, false, none⟩]⟩],
    Settings.default⟩

def room : Definition := ⟨2, "booking.rooms", [⟨"price", .scalar .decimal, true, none, []⟩], Settings.default⟩

def booking : Definition :=
  ⟨3, "booking", [⟨"guest", .nested guest, true, none, []⟩, ⟨"rooms", .arrayOf room, true, none, [.presence none]⟩,
    ⟨"notes", .untyped, false, none, []⟩], Settings.default⟩

def bookingForm : List (Value × Value) :=
  [(.text "guest", .map false [(.text "name", .text "Ada"), (.text "age", .text " ")]),
    (.text "rooms", .list [.map false [(.text "price", .text "12.50")]])]

theorem booking_namesDistinct : booking.NamesDistinct := by
  have hguest : guest.NamesDistinct := Definition.namesDistinct_of_parts (by decide) (by simp [guest, Shape.definition?])
  have hroom : room.NamesDistinct := Definition.namesDistinct_of_parts (by decide) (by simp [room, Shape.definition?])
  exact Definition.namesDistinct_of_parts (by decide) (by simp [booking, Shape.definition?, hguest, hroom])

theorem booking_settled : booking.Settled := by
  have plain {strict : Bool} {name : String} {shape : Shape} {required : Bool} {rules : List Rule}
      (ht : ∀ t, shape = .scalar t → t.IsBuiltin) (hrules : ∀ rule ∈ rules, rule.Plainly) :
      Attribute.Settled strict ⟨name, shape, required, none, rules⟩ :=
    ⟨ht, hrules, by simp, by simp, by simp, by simp, by simp⟩
  have hage : Attribute.Settled false ⟨"age", .scalar .integer, false, some (.int 18),
      [.numericality ⟨[(.lessThan, .int 150)], true, false, false, none⟩]⟩ := by
    constructor
    case builtin => rintro t ⟨⟩ c ⟨⟩
    case plainly => simp [Rule.Plainly, Rule.option]
    case simple => rintro v - -; rfl
    case unchanged => rintro v t ⟨⟩ - ⟨⟩; rfl
    case satisfied => rintro v ⟨⟩ -; rfl
    case keyed => rintro v ⟨⟩; exact .of_leaf trivial fun x hx => by cases hx
    case content => rintro v ⟨⟩; exact .of_leaf trivial fun x hx => by cases hx
  have hguest : guest.Settled := by
    refine Definition.settled_of_parts ?_ (by simp [guest, Shape.definition?])
    simp only [guest, List.forall_mem_cons, List.not_mem_nil, false_imp_iff, implies_true, and_true]
    exact ⟨plain (by rintro t ⟨⟩ c ⟨⟩) (by simp [Rule.Plainly, Rule.option]), hage⟩
  have hroom : room.Settled := by
    refine Definition.settled_of_parts ?_ (by simp [room, Shape.definition?])
    simp only [room, List.forall_mem_cons, List.not_mem_nil, false_imp_iff, implies_true, and_true]
    exact plain (by rintro t ⟨⟩ c ⟨⟩) (by simp)
  refine Definition.settled_of_parts ?_ (by simp [booking, Shape.definition?, hguest, hroom])
  simp only [booking, List.forall_mem_cons, List.not_mem_nil, false_imp_iff, implies_true, and_true]
  exact ⟨plain (by rintro t ⟨⟩) (by simp), plain (by rintro t ⟨⟩) (by simp [Rule.Plainly, Rule.option]),
    plain (by rintro t ⟨⟩) (by simp)⟩

def booked : Instance :=
  ⟨booking.heading, .map false bookingForm,
    [("guest", .parsed ⟨guest.heading, .map false [(.text "name", .text "Ada"), (.text "age", .text " ")],
      [("name", .text "Ada"), ("age", .int 18)], ["name", "age"]⟩),
      ("rooms", .list [.parsed ⟨room.heading, .map false [(.text "price", .text "12.50")],
        [("price", .decimal (.finite false 1250 (-2)))], ["price"]⟩])],
    ["guest", "rooms"]⟩

theorem booked_kept : booking.Kept booked := by
  have hguest (q : Instance) : guest.Kept q :=
    Definition.kept_of_parts (by simp [guest]) (by simp [guest]) (by simp [guest])
  have hroom (q : Instance) : room.Kept q :=
    Definition.kept_of_parts (by simp [room]) (by simp [room]) (by simp [room])
  refine Definition.kept_of_parts ?_ (by simpa [booking] using fun e q he _ => he ▸ hguest q)
    (by simpa [booking] using fun e vs q he _ _ => he ▸ hroom q)
  simp only [booking, List.forall_mem_cons, List.not_mem_nil, false_imp_iff, implies_true, and_true]
  refine ⟨?_, by rintro - e s ⟨⟩, by rintro ⟨⟩⟩
  rintro - e s ⟨⟩ ⟨⟩
  decide

/-- the form of a booking is parsed, and what it is parsed to is parsed again: the age that stands for the blank is
among the fields then -/
theorem booked_again : booking.parse .builtin 0 (.map false bookingForm) = .ok booked ∧
    ∃ q, booking.parse .builtin 1 (booked.toHash true) = .ok q ∧ (Value.parsed q).equal (.parsed booked) = true ∧
      q.toHash true = booked.toHash true := by
  have hp : booking.parse .builtin 0 (.map false bookingForm) = .ok booked := rfl
  have hform : (Value.map false bookingForm).WithoutInstances := by
    simp [bookingForm, Value.Throughout.map_iff, Value.Throughout.list_iff, Value.Throughout.text_iff, Value.IsParsed]
  have hkeyed : (Value.map false bookingForm).WellKeyed := by
    simp [bookingForm, Value.Throughout.map_iff, Value.Throughout.list_iff, Value.Throughout.text_iff, Value.KeyedOnce]
  exact ⟨hp, Definition.parse_projection booking_namesDistinct booking_settled hform hkeyed hp booked_kept 1⟩

/-- the projection of a card that was given no mark is empty, and its parse copies the declared mark once more -/
theorem Definition.card_reparsed_unequal : ∃ p q, card.parse .builtin 0 (.map false []) = .ok p ∧
    card.parse .builtin 1 (p.toHash true) = .ok q ∧ (Value.parsed q).equal (.parsed p) = false :=
  ⟨_, _, rfl, rfl, equal_card_of_ne (by decide) _ _ _ _⟩

end Intake
