/-
Equality of instances, and what they expose.

Two instances of one definition are compared by the values that they hold under names. An attribute that is optional,
has no default and is not supplied holds none (`Attribute.Gap`), yet to a reader it is nothing, just as one that is
supplied as nothing. So equal instances expose equal values at every depth, but instances that do need not be equal.
They are exactly if besides they have the same gaps at every depth (`Definition.Agree`), and where attributes leave no
gaps nothing besides is asked.

Results:
- `Parsed.same_iff`: instances are equal if they hold values under the same names, and equal ones;
- `Attribute.mem_names_iff`: an attribute holds a value exactly if it leaves no gap;
- `Definition.equal_iff`: equal instances are those that expose equal values and have the same gaps, at every depth;
- `Definition.gap_not_equal`: two instances that expose equal values and are not equal.
-/
import Mathlib.Data.List.Perm.Subperm
import Intake.Proofs.Projections

namespace Intake

open Outcome

/-! ## Values under names -/

namespace Value

theorem sameFields_iff {vs ws : List (String × Value)} :
    sameFields vs ws = true ↔ ∀ f ∈ vs, ∃ g, ws.find? (fun g => f.1 == g.1) = some g ∧ same f.2 g.2 = true := by
  induction vs with
  | nil => simp [sameFields]
  | cons f vs ih =>
    obtain ⟨name, v⟩ := f
    rw [sameFields, Bool.and_eq_true, ih, List.forall_mem_cons]
    refine and_congr_left fun _ => ?_
    cases ws.find? (fun g => name == g.1) <;> simp

theorem sameList_iff {xs ys : List Value} : sameList xs ys = true ↔ List.Forall₂ (fun x y => same x y = true) xs ys := by
  induction xs generalizing ys with
  | nil => cases ys <;> simp [sameList]
  | cons x xs ih =>
    cases ys with
    | nil => simp [sameList]
    | cons y ys => simp [sameList, ih]

end Value

namespace Parsed

variable {p q : Instance}

def names (p : Instance) : List String := p.values.map (·.1)

theorem valueOf_of_not_mem {name : String} (h : name ∉ p.names) : p.valueOf name = .null := by
  have hnone : p.values.find? (·.1 == name) = none := by
    refine List.find?_eq_none.2 fun e he hname => h ?_
    rw [← beq_iff_eq.1 hname]
    exact List.mem_map_of_mem he
  rw [valueOf, hnone]
  rfl

/-- instances of one definition are equal if they hold values under the same names, and equal ones -/
theorem same_iff (hp : p.names.Nodup) (hq : q.names.Nodup) (hh : p.heading = q.heading) :
    (Value.parsed p).same (.parsed q) = true ↔
      ∀ name, (name ∈ p.names ↔ name ∈ q.names) ∧ (p.valueOf name).same (q.valueOf name) = true := by
  have hunfold : (Value.parsed p).same (.parsed q) = true ↔
      p.values.length = q.values.length ∧ Value.sameFields p.values q.values = true := by
    obtain ⟨h, praw, pvalues, psupplied⟩ := p
    obtain ⟨k, qraw, qvalues, qsupplied⟩ := q
    obtain rfl : h = k := hh
    simp [Value.same]
  have found {f g : String × Value} (h : q.values.find? (fun g => f.1 == g.1) = some g) : f.1 = g.1 := by
    simpa using List.find?_some h
  rw [hunfold, Value.sameFields_iff]
  constructor
  · rintro ⟨hlength, hall⟩
    have hsub : p.names ⊆ q.names := by
      intro name hname
      obtain ⟨f, hf, rfl⟩ := List.mem_map.1 hname
      obtain ⟨g, hg, -⟩ := hall f hf
      rw [found hg]
      exact List.mem_map_of_mem (List.mem_of_find?_eq_some hg)
    -- as many names, none of them twice: so they are the same
    have hperm : p.names.Perm q.names := (List.subperm_of_subset hp hsub).perm_of_length_le (by simp [names, hlength])
    refine fun name => ⟨hperm.mem_iff, ?_⟩
    by_cases hname : name ∈ p.names
    · obtain ⟨f, hf, rfl⟩ := List.mem_map.1 hname
      obtain ⟨g, hg, hsame⟩ := hall f hf
      have hvalue : q.valueOf f.1 = g.2 := by
        rw [found hg]
        exact valueOf_eq hq (List.mem_of_find?_eq_some hg)
      rw [valueOf_eq hp hf, hvalue, hsame]
    · rw [valueOf_of_not_mem hname, valueOf_of_not_mem fun h => hname (hperm.mem_iff.2 h)]
      simp [Value.same]
  · intro h
    have hperm : p.names.Perm q.names := (List.perm_ext_iff_of_nodup hp hq).2 fun name => (h name).1
    refine ⟨by simpa [names] using hperm.length_eq, fun f hf => ?_⟩
    obtain ⟨g, hg, hname⟩ := List.mem_map.1 (hperm.mem_iff.1 (List.mem_map_of_mem hf))
    refine ⟨g, hname ▸ Value.find?_name hq hg, ?_⟩
    have hsame := (h f.1).2
    rwa [valueOf_eq hp hf, ← hname, valueOf_eq hq hg] at hsame

end Parsed

/-! ## Gaps -/

theorem mem_names_picked {β : Type} {f : NamedReading → Option β} {rs : List NamedReading} (hn : (rs.map (·.name)).Nodup)
    {x : NamedReading} (hx : x ∈ rs) : x.name ∈ (picked f rs).map (·.1) ↔ (f x).isSome = true := by
  rw [← find?_picked (f := f) hn hx, Option.isSome_map, List.find?_isSome]
  simp

namespace Attribute

/-- an attribute holds no value in an instance: it is optional, has no default, and is not supplied -/
def Gap (a : Attribute) (p : Instance) : Prop := a.required = false ∧ a.default = none ∧ a.name ∉ p.supplied

variable {r : Registry} {here : Place} {strict : Bool} {view : KeyView} {a : Attribute} {o : Option Value}

theorem isSome_iff_of_yields (h : a.Yields r here strict view (.ok o)) :
    o.isSome = true ↔ ¬ (a.required = false ∧ a.default = none ∧ a.suppliedIn view = false) := by
  cases h with
  | absent hm hnull habsent =>
    have hreq : a.required = false := by
      rw [missingIn, hnull] at hm
      simpa [Value.isMissing] using hm
    rcases absent_eq_ok.1 habsent with ⟨v, hd, -, rfl⟩ | ⟨hd, rfl⟩
    · simp [hd]
    · cases hs : a.suppliedIn view <;> simp [hreq, hd]
  | accepted hm hnull hres hrules =>
    have hs : a.suppliedIn view = true := by
      have hgiven := rawValue_of_given fun h => hnull (rawValue_eq_null.2 h)
      rw [suppliedIn, hgiven]
      rfl
    simp [hs]

end Attribute

namespace Definition

variable {r : Registry} {here : Place} {d : Definition} {raw : Value} {p : Instance}

/-- an instance holds values only under declared names, and there unless the attribute leaves a gap -/
theorem mem_names_iff (hn : d.names.Nodup) (h : d.read r here raw = .ok (.ok p)) :
    (∀ name ∈ p.names, name ∈ d.names) ∧ ∀ a ∈ d.attributes, (a.name ∈ p.names ↔ ¬ a.Gap p) := by
  obtain ⟨view, rs, -, hrs, hnodup, hp, hall⟩ := gathers_of_read hn h
  have hnames : p.names = (picked NamedReading.value? rs).map (·.1) := by rw [hp, ← valuesOf_eq]; rfl
  constructor
  · intro name hname
    rw [hnames] at hname
    have hmem := (names_picked_sublist rs).subset hname
    rwa [hrs.names] at hmem
  · intro a ha
    obtain ⟨x, hx, hread⟩ := exists_of_mem_left hrs ha
    obtain ⟨hname, hsupplied, hyields⟩ := Attribute.read_eq_ok.1 hread
    have hgap : a.Gap p ↔ a.required = false ∧ a.default = none ∧ a.suppliedIn view = false := by
      rw [← hsupplied, ← contains_suppliedOf hnodup hx, hp, Attribute.Gap, hname]
      simp
    rw [hgap, hnames, ← hname, mem_names_picked hnodup hx]
    cases hreading : x.reading with
    | error f =>
      have hfinding := (hall x hx).1
      rw [NamedReading.finding?, hreading] at hfinding
      cases hfinding
    | ok o =>
      rw [hreading] at hyields
      rw [NamedReading.value?, hreading]
      exact Attribute.isSome_iff_of_yields hyields

end Definition

/-! ## Agreement at every depth -/

/-- no instance stands here, nor in a list that stands here -/
def Value.Apart (v : Value) : Prop := (∀ p, v ≠ .parsed p) ∧ ∀ vs, v = .list vs → ∀ p, .parsed p ∉ vs

mutual

/-- what two instances expose agrees: equal values under every declared name, and instances that agree in nested
attributes and in arrays. Of each two instances that are compared some relation is asked besides -/
inductive Definition.Agree (G : Definition → Instance → Instance → Prop) : Definition → Instance → Instance → Prop where
  | mk {d : Definition} {p q : Instance} (here : G d p q)
    (each : ∀ a ∈ d.attributes, Shape.Agree G a.shape (p.valueOf a.name) (q.valueOf a.name)) : Definition.Agree G d p q

/-- two values of attributes of a shape agree -/
inductive Shape.Agree (G : Definition → Instance → Instance → Prop) : Shape → Value → Value → Prop where
  /-- equal values, where no definition is declared -/
  | value {shape : Shape} {v w : Value} (hs : shape.definition? = none) (h : v.equal w = true) : Shape.Agree G shape v w
  /-- equal values that hold no instances: nothing, and defaults -/
  | apart {shape : Shape} {v w : Value} (hv : v.Apart) (hw : w.Apart) (h : v.equal w = true) : Shape.Agree G shape v w
  /-- instances that agree -/
  | nested {e : Definition} {p q : Instance} (h : Definition.Agree G e p q) :
    Shape.Agree G (.nested e) (.parsed p) (.parsed q)
  /-- as many instances, which agree one by one -/
  | arrayOf {e : Definition} {ps qs : List Instance} (length : ps.length = qs.length)
    (each : ∀ x ∈ ps.zip qs, Definition.Agree G e x.1 x.2) :
    Shape.Agree G (.arrayOf e) (.list (ps.map .parsed)) (.list (qs.map .parsed))

end

namespace Definition

/-- two instances expose equal values, at every depth -/
def Exposes : Definition → Instance → Instance → Prop := Agree fun _ _ _ => True

/-- two instances have the same gaps -/
def GapsAlike (d : Definition) (p q : Instance) : Prop := ∀ a ∈ d.attributes, a.Gap p ↔ a.Gap q

/-- no value that an instance exposes is a not-a-number datum, at any depth -/
def Numbered (d : Definition) (p : Instance) : Prop :=
  ∀ c s, Reaches d p c s → ∀ a ∈ c.attributes, (s.valueOf a.name).isNaN = false

/-- no attribute leaves a gap, at any depth: each is required or has a default -/
def Gapless (d : Definition) : Prop := ∀ c, Within c d → ∀ a ∈ c.attributes, a.required = true ∨ a.default.isSome = true

end Definition

section Relations

variable {G H : Definition → Instance → Instance → Prop}

theorem Shape.Agree.imp {shape : Shape} {v w : Value}
    (inside : ∀ e, shape.definition? = some e → ∀ p q, e.Agree G p q → e.Agree H p q) (h : shape.Agree G v w) :
    shape.Agree H v w := by
  cases h with
  | value hs h => exact .value hs h
  | apart hv hw h => exact .apart hv hw h
  | nested h => exact .nested (inside _ rfl _ _ h)
  | arrayOf length each => exact .arrayOf length fun x hx => inside _ rfl _ _ (each x hx)

/-- agreement with one relation is agreement with another that follows from it inside the definition -/
theorem Definition.Agree.imp {d : Definition} {p q : Instance} (hGH : ∀ c, Within c d → ∀ s t, G c s t → H c s t)
    (h : d.Agree G p q) : d.Agree H p q := by
  induction d using byParts generalizing p q with
  | parts d ih =>
    cases h with
    | mk here each =>
      refine .mk (hGH d (.here d) _ _ here) fun a ha => (each a ha).imp fun e he s t h => ?_
      exact ih a ha e he (fun c hc => hGH c (.part ha he hc)) h

end Relations

/-! ## Values of attributes -/

namespace Value

theorem apart_null : Value.null.Apart := ⟨nofun, nofun⟩

theorem apart_of_copyFault? {v : Value} (h : v.copyFault? = none) : v.Apart := by
  constructor
  · rintro p rfl
    cases h
  · rintro vs rfl p hp
    exact copyFaultOfAll?_of_parsed_mem hp h

theorem Apart.copiedAt {v : Value} (h : v.Apart) (here : Place) : (v.copiedAt here).Apart := by
  constructor
  · intro p hp
    exact h.1 p (eq_of_copiedAt_parsed hp)
  · intro vs hvs p hp
    obtain ⟨xs, rfl, rfl⟩ := eq_list_of_copiedAt hvs
    exact h.2 xs rfl p (parsed_mem_of_copiedAllAt hp)

theorem equal_iff_same {v w : Value} (h : v.isNaN = false) : v.equal w = true ↔ v.same w = true := by
  rw [equal_eq_same h]

theorem parsed_of_same_left {v : Value} {p : Instance} (h : (Value.parsed p).same v = true) : ∃ q, v = .parsed q := by
  cases v with
  | parsed q => exact ⟨q, rfl⟩
  | _ => simp [same, sameNumber, numeric?] at h

theorem parsed_of_same_right {v : Value} {p : Instance} (h : v.same (.parsed p) = true) : ∃ q, v = .parsed q := by
  cases v with
  | parsed q => exact ⟨q, rfl⟩
  | _ => simp [same, sameNumber, numeric?, text?] at h

theorem list_of_same_left {v : Value} {xs : List Value} (h : (Value.list xs).same v = true) :
    ∃ ys, v = .list ys ∧ List.Forall₂ (fun x y => x.same y = true) xs ys := by
  cases v with
  | list ys =>
    rw [same] at h
    exact ⟨ys, rfl, sameList_iff.1 h⟩
  | _ => simp [same, sameNumber, numeric?] at h

theorem list_of_same_right {v : Value} {ys : List Value} (h : v.same (.list ys) = true) :
    ∃ xs, v = .list xs ∧ List.Forall₂ (fun x y => x.same y = true) xs ys := by
  cases v with
  | list xs =>
    rw [same] at h
    exact ⟨xs, rfl, sameList_iff.1 h⟩
  | _ => simp [same, sameNumber, numeric?, text?] at h

/-- of equal values both hold instances or neither does -/
theorem apart_iff_of_same {v w : Value} (h : v.same w = true) : v.Apart ↔ w.Apart := by
  constructor
  · intro hv
    constructor
    · rintro q rfl
      obtain ⟨p, rfl⟩ := parsed_of_same_right h
      exact hv.1 p rfl
    · rintro ys rfl q hq
      obtain ⟨xs, rfl, hall⟩ := list_of_same_right h
      obtain ⟨x, hx, hsame⟩ := exists_of_mem_right hall hq
      obtain ⟨p, rfl⟩ := parsed_of_same_right hsame
      exact hv.2 xs rfl p hx
  · intro hw
    constructor
    · rintro p rfl
      obtain ⟨q, rfl⟩ := parsed_of_same_left h
      exact hw.1 q rfl
    · rintro xs rfl p hp
      obtain ⟨ys, rfl, hall⟩ := list_of_same_left h
      obtain ⟨y, hy, hsame⟩ := exists_of_mem_left hall hp
      obtain ⟨q, rfl⟩ := parsed_of_same_left hsame
      exact hw.2 ys rfl q hy

theorem apart_instances_iff {ps : List Instance} : (Value.list (ps.map .parsed)).Apart ↔ ps = [] := by
  constructor
  · intro h
    refine List.eq_nil_iff_forall_not_mem.2 fun p hp => ?_
    exact h.2 _ rfl p (List.mem_map_of_mem hp)
  · rintro rfl
    exact ⟨nofun, by rintro vs ⟨⟩; simp⟩

end Value

namespace Shape

variable {G : Definition → Instance → Instance → Prop} {shape : Shape} {v w : Value} {e : Definition}

/-- of values that agree both hold instances or neither does -/
theorem Agree.apart_iff (hd : shape.definition? = some e) (h : shape.Agree G v w) : v.Apart ↔ w.Apart := by
  cases h with
  | value hs _ => cases hs.symm.trans hd
  | apart hv hw _ => exact iff_of_true hv hw
  | nested _ => exact iff_of_false (fun h => h.1 _ rfl) fun h => h.1 _ rfl
  | arrayOf hlength _ =>
    rw [Value.apart_instances_iff, Value.apart_instances_iff, ← List.length_eq_zero_iff, hlength, List.length_eq_zero_iff]

theorem agree_iff_of_apart (hd : shape.definition? = some e) (hv : v.Apart) (hw : w.Apart) :
    shape.Agree G v w ↔ v.equal w = true := by
  refine ⟨fun h => ?_, .apart hv hw⟩
  cases h with
  | value _ h => exact h
  | apart _ _ h => exact h
  | nested _ => exact absurd rfl (hv.1 _)
  | arrayOf _ _ =>
    rw [Value.apart_instances_iff] at hv hw
    rw [hv, hw]
    simp [Value.equal, Value.isNaN, Value.same, Value.sameList]

theorem agree_nested_iff {p q : Instance} : (Shape.nested e).Agree G (.parsed p) (.parsed q) ↔ e.Agree G p q := by
  refine ⟨fun h => ?_, .nested⟩
  cases h with
  | value hs _ => cases hs
  | apart hv _ _ => exact absurd rfl (hv.1 p)
  | nested h => exact h

theorem agree_arrayOf_iff {ps qs : List Instance} :
    (Shape.arrayOf e).Agree G (.list (ps.map .parsed)) (.list (qs.map .parsed)) ↔ List.Forall₂ (e.Agree G) ps qs := by
  constructor
  · intro h
    generalize hv : Value.list (ps.map .parsed) = v at h
    generalize hw : Value.list (qs.map .parsed) = w at h
    cases h with
    | value hs _ => cases hs
    | apart hva hwa _ =>
      subst hv hw
      rw [Value.apart_instances_iff] at hva hwa
      rw [hva, hwa]
      exact .nil
    | arrayOf length each =>
      have injective : Function.Injective Value.parsed := fun _ _ => Value.parsed.inj
      obtain rfl := List.map_injective_iff.2 injective (Value.list.inj hv)
      obtain rfl := List.map_injective_iff.2 injective (Value.list.inj hw)
      exact List.forall₂_iff_zip.2 ⟨length, fun hx => each _ hx⟩
  · intro h
    obtain ⟨length, each⟩ := List.forall₂_iff_zip.1 h
    exact .arrayOf length fun x hx => each hx

/-- values under a definition agree if they are equal, as soon as those that hold instances do -/
theorem same_iff_agree (hd : shape.definition? = some e) (hnan : v.isNaN = false)
    (h : ¬ v.Apart → ¬ w.Apart → (v.same w = true ↔ shape.Agree G v w)) : v.same w = true ↔ shape.Agree G v w := by
  by_cases hv : v.Apart
  · by_cases hw : w.Apart
    · rw [agree_iff_of_apart hd hv hw, Value.equal_iff_same hnan]
    · exact iff_of_false (fun hsame => hw ((Value.apart_iff_of_same hsame).1 hv)) fun ha => hw ((ha.apart_iff hd).1 hv)
  · by_cases hw : w.Apart
    · exact iff_of_false (fun hsame => hv ((Value.apart_iff_of_same hsame).2 hw)) fun ha => hv ((ha.apart_iff hd).2 hw)
    · exact h hv hw

end Shape

namespace Attribute

variable {r : Registry} {here : Place} {strict : Bool} {view : KeyView} {a : Attribute} {o : Option Value}
  {e : Definition}

theorem apart_of_absent {supplied : Bool} (h : a.absent here supplied = .ok o) : (o.getD .null).Apart := by
  rcases absent_eq_ok.1 h with ⟨v, -, hf, rfl⟩ | ⟨-, rfl⟩
  · exact (Value.apart_of_copyFault? hf).copiedAt here
  · cases supplied <;> exact Value.apart_null

/-- a nested attribute holds an instance that was read by its definition, or none -/
theorem nested_or_apart (hs : a.shape = .nested e) (hy : a.Yields r here strict view (.ok o)) :
    (∃ p, o.getD .null = .parsed p ∧ ∃ there, e.read r there p.raw = .ok (.ok p)) ∨ (o.getD .null).Apart := by
  cases hy with
  | absent _ _ habsent => exact .inr (apart_of_absent habsent)
  | accepted _ _ hr _ =>
    have hres := Shape.resolve_eq_ok.1 hr
    rw [hs] at hres
    cases hres with
    | nested _ hq =>
      refine .inl ⟨_, rfl, here.within a.name, ?_⟩
      rw [Definition.raw_of_read hq]
      exact hq

/-- an array holds instances that were read by its definition, or none -/
theorem listed_or_apart (hs : a.shape = .arrayOf e) (hy : a.Yields r here strict view (.ok o)) :
    (∃ ps : List Instance, o.getD .null = .list (ps.map .parsed) ∧
      ∀ p ∈ ps, ∃ there, e.read r there p.raw = .ok (.ok p)) ∨
      (o.getD .null).Apart := by
  cases hy with
  | absent _ _ habsent => exact .inr (apart_of_absent habsent)
  | accepted _ _ hr _ =>
    have hres := Shape.resolve_eq_ok.1 hr
    rw [hs] at hres
    cases hres with
    | arrayOf _ hqs =>
      refine .inl ⟨_, rfl, fun p hp => ?_⟩
      obtain ⟨x, -, -, hx⟩ := exists_of_mem_right hqs hp
      rw [Definition.raw_of_read hx]
      exact ⟨_, hx⟩

end Attribute

/-! ## Instances of one definition -/

namespace Definition

variable {r r' : Registry} {here there : Place} {d : Definition} {p q : Instance}

/-- values under attributes are none that are not numbers, in an instance inside as well -/
theorem Numbered.nested {a : Attribute} {e : Definition} {s : Instance} (h : d.Numbered p) (ha : a ∈ d.attributes)
    (hs : a.shape = .nested e) (hv : p.valueOf a.name = .parsed s) : e.Numbered s :=
  fun c t ht => h c t (.nested ha hs hv ht)

theorem Numbered.element {a : Attribute} {e : Definition} {ps : List Instance} {s : Instance} (h : d.Numbered p)
    (ha : a ∈ d.attributes) (hs : a.shape = .arrayOf e) (hv : p.valueOf a.name = .list (ps.map .parsed)) (hps : s ∈ ps) :
    e.Numbered s :=
  fun c t ht => h c t (.element ha hs hv (List.mem_map_of_mem hps) ht)

/-- what stands under an attribute of two instances is equal if it agrees, as soon as this holds of the instances there -/
theorem valueOf_same_iff (hn : d.names.Nodup) (hp : d.read r here p.raw = .ok (.ok p))
    (hq : d.read r' there q.raw = .ok (.ok q)) (hnum : d.Numbered p) {G : Definition → Instance → Instance → Prop}
    {a : Attribute} (ha : a ∈ d.attributes)
    (inside : ∀ e, a.shape.definition? = some e → ∀ here there s t, e.read r here s.raw = .ok (.ok s) →
      e.read r' there t.raw = .ok (.ok t) → e.Numbered s → ((Value.parsed s).same (.parsed t) = true ↔ e.Agree G s t)) :
    (p.valueOf a.name).same (q.valueOf a.name) = true ↔ a.shape.Agree G (p.valueOf a.name) (q.valueOf a.name) := by
  have hnan : (p.valueOf a.name).isNaN = false := hnum d p (.here d p) a ha
  obtain ⟨-, view, -, hall⟩ := valueOf_of_read hn hp
  obtain ⟨-, view', -, hall'⟩ := valueOf_of_read hn hq
  obtain ⟨o, hy, ho⟩ := hall a ha
  obtain ⟨o', hy', ho'⟩ := hall' a ha
  have hflat (hs : a.shape.definition? = none) :
      (p.valueOf a.name).same (q.valueOf a.name) = true ↔ a.shape.Agree G (p.valueOf a.name) (q.valueOf a.name) := by
    rw [← Value.equal_iff_same hnan]
    refine ⟨.value hs, fun h => ?_⟩
    generalize p.valueOf a.name = v at h
    generalize q.valueOf a.name = w at h
    generalize a.shape = shape at h hs
    cases h with
    | value _ h => exact h
    | apart _ _ h => exact h
    | nested _ => cases hs
    | arrayOf _ _ => cases hs
  cases hs : a.shape with
  | untyped => exact hs ▸ hflat (by rw [hs]; rfl)
  | scalar t => exact hs ▸ hflat (by rw [hs]; rfl)
  | nested e =>
    refine Shape.same_iff_agree rfl hnan fun hv hw => ?_
    obtain ⟨s, hsv, _, hread⟩ := (Attribute.nested_or_apart hs hy).resolve_right (ho ▸ hv)
    obtain ⟨t, htv, _, hread'⟩ := (Attribute.nested_or_apart hs hy').resolve_right (ho' ▸ hw)
    have hpv := ho.trans hsv
    have hqv := ho'.trans htv
    rw [hpv, hqv, Shape.agree_nested_iff]
    exact inside e (by rw [hs]; rfl) _ _ s t hread hread' (hnum.nested ha hs hpv)
  | arrayOf e =>
    refine Shape.same_iff_agree rfl hnan fun hv hw => ?_
    obtain ⟨ss, hsv, hread⟩ := (Attribute.listed_or_apart hs hy).resolve_right (ho ▸ hv)
    obtain ⟨ts, htv, hread'⟩ := (Attribute.listed_or_apart hs hy').resolve_right (ho' ▸ hw)
    have hpv := ho.trans hsv
    have hqv := ho'.trans htv
    rw [hpv, hqv, Shape.agree_arrayOf_iff, Value.same, Value.sameList_iff, List.forall₂_map_left_iff,
      List.forall₂_map_right_iff]
    have hone (s : Instance) (hs' : s ∈ ss) (t : Instance) (ht : t ∈ ts) :
        (Value.parsed s).same (.parsed t) = true ↔ e.Agree G s t := by
      obtain ⟨_, hs''⟩ := hread s hs'
      obtain ⟨_, ht'⟩ := hread' t ht
      exact inside e (by rw [hs]; rfl) _ _ s t hs'' ht' (hnum.element ha hs hpv hs')
    exact ⟨fun h => forall₂_of_mem h fun s hs t ht => (hone s hs t ht).1,
      fun h => forall₂_of_mem h fun s hs t ht => (hone s hs t ht).2⟩

/-- instances that are read by one definition are equal exactly if they agree and have the same gaps, at every depth: by
induction on the definition -/
theorem same_iff_agree (hn : d.NamesDistinct) (hp : d.read r here p.raw = .ok (.ok p))
    (hq : d.read r' there q.raw = .ok (.ok q)) (hnum : d.Numbered p) :
    (Value.parsed p).same (.parsed q) = true ↔ d.Agree GapsAlike p q := by
  induction d using byParts generalizing here there p q with
  | parts d ih =>
    have hnames := hn d (.here d)
    obtain ⟨hdeclared, hgaps⟩ := mem_names_iff hnames hp
    obtain ⟨hdeclared', hgaps'⟩ := mem_names_iff hnames hq
    have hheading {r : Registry} {here : Place} {s : Instance} (h : d.read r here s.raw = .ok (.ok s)) :
        s.heading = d.heading := by
      obtain ⟨-, rs, -, -, -, hs, -⟩ := gathers_of_read hnames h
      rw [hs]
    have hvalue (a : Attribute) (ha : a ∈ d.attributes) := valueOf_same_iff (G := GapsAlike) hnames hp hq hnum ha
      fun e he _ _ s t hs ht hnum => ih a ha e he (fun c hc => hn c (.part ha he hc)) hs ht hnum
    rw [Parsed.same_iff (nodup_of_read hnames hp) (nodup_of_read hnames hq) ((hheading hp).trans (hheading hq).symm)]
    constructor
    · intro h
      refine .mk (fun a ha => ?_) fun a ha => (hvalue a ha).1 (h a.name).2
      rw [← not_iff_not, ← hgaps a ha, ← hgaps' a ha]
      exact (h a.name).1
    · intro h name
      cases h with
      | mk here each =>
        by_cases hname : ∃ a ∈ d.attributes, a.name = name
        · obtain ⟨a, ha, rfl⟩ := hname
          refine ⟨?_, (hvalue a ha).2 (each a ha)⟩
          rw [hgaps a ha, hgaps' a ha, not_iff_not]
          exact here a ha
        · have hother : name ∉ d.names := fun h => hname (List.mem_map.1 h)
          have hp' : name ∉ p.names := fun h => hother (hdeclared name h)
          have hq' : name ∉ q.names := fun h => hother (hdeclared' name h)
          refine ⟨iff_of_false hp' hq', ?_⟩
          rw [Parsed.valueOf_of_not_mem hp', Parsed.valueOf_of_not_mem hq']
          simp [Value.same]

/-- what the equality of two instances comes to -/
structure EqualityTells (d : Definition) (p q : Instance) : Prop where
  /-- instances are equal exactly if they expose equal values and have the same gaps, at every depth -/
  iff_agree : (Value.parsed p).equal (.parsed q) = true ↔ d.Agree GapsAlike p q
  /-- so equal instances expose equal values -/
  exposes : (Value.parsed p).equal (.parsed q) = true → d.Exposes p q
  /-- and instances that do are equal, if no attribute leaves a gap -/
  iff_exposes : d.Gapless → ((Value.parsed p).equal (.parsed q) = true ↔ d.Exposes p q)

/-- **Equal instances are those that expose equal values and have the same gaps**, at every depth, not-a-number data
apart. -/
theorem equal_iff {run run' : Nat} {raw raw' : Value} (hn : d.NamesDistinct) (hp : d.parse r run raw = .ok p)
    (hq : d.parse r' run' raw' = .ok q) (hnum : d.Numbered p) : d.EqualityTells p q := by
  have hiff : (Value.parsed p).equal (.parsed q) = true ↔ d.Agree GapsAlike p q := by
    rw [Value.equal_iff_same rfl]
    exact same_iff_agree hn (read_of_parse hp) (read_of_parse hq) hnum
  constructor
  case iff_agree => exact hiff
  case exposes => exact fun h => (hiff.1 h).imp fun _ _ _ _ _ => trivial
  case iff_exposes =>
    intro hd
    refine ⟨fun h => (hiff.1 h).imp fun _ _ _ _ _ => trivial, fun h => hiff.2 (h.imp fun c hc s t _ a ha => ?_)⟩
    have nogap (s : Instance) : ¬ a.Gap s := by
      rintro ⟨hreq, hdefault, -⟩
      rcases hd c hc a ha with h | h
      · rw [hreq] at h
        cases h
      · rw [hdefault] at h
        cases h
    exact iff_of_false (nogap s) (nogap t)

def card : Definition := ⟨1, "card", [⟨"note", .untyped, false, none, []⟩], .default⟩

/-- a card of these entries, which holds these values -/
def cardOf (ro : Bool) (es : List (Value × Value)) (values : List (String × Value)) : Instance :=
  ⟨card.heading, .map ro es, values, values.map (·.1)⟩

def notedCard : Instance := cardOf false [(.text "note", .text "x")] [("note", .text "x")]

/-- a card with the same note, of another kind of text, under a key in bytes -/
def notedCardInBytes : Instance :=
  cardOf true [(.bytes false [110, 111, 116, 101], .textMember "x")] [("note", .textMember "x")]

theorem numbered_notedCard : card.Numbered notedCard := by
  intro c s hs
  cases hs with
  | here =>
    rw [card, List.forall_mem_singleton]
    rfl
  | nested ha hs _ _ =>
    rw [List.mem_singleton.1 ha] at hs
    cases hs
  | element ha hs _ _ _ =>
    rw [List.mem_singleton.1 ha] at hs
    cases hs

/-- one note makes two equal cards -/
theorem notedCard_equality_tells : card.EqualityTells notedCard notedCardInBytes ∧
    (Value.parsed notedCard).equal (.parsed notedCardInBytes) = true := by
  have hn : card.NamesDistinct := namesDistinct_of_parts (by decide) (by simp [card, Shape.definition?])
  have hp : card.parse .builtin 0 notedCard.raw = .ok notedCard := rfl
  have hq : card.parse .builtin 1 notedCardInBytes.raw = .ok notedCardInBytes := rfl
  have htells := equal_iff hn hp hq numbered_notedCard
  refine ⟨htells, htells.iff_agree.2 (.mk ?_ ?_)⟩
  · simp [GapsAlike, Attribute.Gap, card, notedCard, notedCardInBytes, cardOf]
  · rw [card, List.forall_mem_singleton]
    exact .value rfl (by
      simp [Value.equal, Value.isNaN, Value.same, Value.text?, Parsed.valueOf, notedCard, notedCardInBytes, cardOf])

/-- a card without a note and one whose note is nothing expose the same and are not equal -/
theorem gap_not_equal :
    card.parse .builtin 0 (.map false []) = .ok (cardOf false [] []) ∧
      card.parse .builtin 1 (.map false [(.text "note", .null)]) =
      .ok (cardOf false [(.text "note", .null)] [("note", .null)]) ∧
      card.Exposes (cardOf false [] []) (cardOf false [(.text "note", .null)] [("note", .null)]) ∧
      (Value.parsed (cardOf false [] [])).equal (.parsed (cardOf false [(.text "note", .null)] [("note", .null)])) =
        false := by
  refine ⟨rfl, rfl, .mk trivial ?_, ?_⟩
  · rw [card, List.forall_mem_singleton]
    exact .value rfl (by simp [Value.equal, Value.isNaN, Value.same, Parsed.valueOf, cardOf])
  · simp [Value.equal, Value.isNaN, Value.same, cardOf]

end Definition

end Intake
