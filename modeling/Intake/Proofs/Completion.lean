/-
Parses that are not broken off.

Besides a rejection, a parse can end in a fault: when a key of a mapping has no normal form, when a default cannot
be copied, when a converter brought by the caller fails in a way of its own, or when a rule fails on the value it is
given. Where none of this happens to any mapping that the parse comes to, it ends with an instance or with a report
whose messages are texts, and so with a text for the answer.

Results:
- `Registry.builtin_cast_ok`: the built-in converters have no faults of their own, unless a value that is no boolean is
  nested too deep to be quoted;
- `Definition.Unbroken.read_ends`: a parse that nothing breaks off has an end;
- `Definition.AnswersInTexts.report_written`: where rules answer with texts, a report is one of texts;
- `Definition.Calm.completes`: its report, if it is one, has a text, where rules answer with texts.
-/
import Intake.Proofs.Independence
import Intake.Proofs.Resolving

namespace Intake

open Outcome

/-! ## Mappings that a parse comes to -/

/-- on its way through a raw value a parse comes to a mapping, which it reads by a definition -/
inductive Definition.Visits : Definition → Value → Definition → Value → Prop where
  | here (d : Definition) (raw : Value) : Visits d raw d raw
  | nested {d e c : Definition} {raw x : Value} {view : KeyView} {a : Attribute} : viewOf raw = .ok view →
      a ∈ d.attributes → a.shape = .nested e → (a.rawValue view).entries?.isSome →
      Visits e (a.rawValue view) c x → Visits d raw c x
  | element {d e c : Definition} {raw x y : Value} {view : KeyView} {a : Attribute} {ys : List Value} :
      viewOf raw = .ok view → a ∈ d.attributes → a.shape = .arrayOf e → (a.rawValue view).items? = some ys →
      y ∈ ys → y.entries?.isSome → Visits e y c x → Visits d raw c x

/-- nothing breaks off the reading of a raw value -/
structure Definition.Unbroken (r : Registry) (d : Definition) (raw : Value) : Prop where
  /-- the keys of every mapping have normal forms -/
  keys {c : Definition} {x : Value} : d.Visits raw c x → ∃ view, viewOf x = .ok view
  /-- defaults can be copied -/
  defaults {c : Definition} {x v : Value} {a : Attribute} : d.Visits raw c x → a ∈ c.attributes →
    a.default = some v → v.copyFault? = none
  /-- converters have no faults of their own -/
  casts {c : Definition} {x : Value} {view : KeyView} {a : Attribute} {t : ValueType} : d.Visits raw c x →
    viewOf x = .ok view → a ∈ c.attributes → a.shape = .scalar t →
    ∃ o, r.cast t c.settings.strictTypes (a.rawValue view) = .ok o
  /-- rules answer to the value that the attribute would hold -/
  rules {c : Definition} {x v : Value} {view : KeyView} {a : Attribute} {here : Place} : d.Visits raw c x →
    viewOf x = .ok view → a ∈ c.attributes → Shape.Resolves r here c.settings.strictTypes a.shape (a.rawValue view) v →
    ∃ ms, runRules a.rules v = .ok ms

/-- nothing breaks off the parse of a raw value, and the rules answer with texts -/
structure Definition.Calm (r : Registry) (d : Definition) (raw : Value) : Prop where
  /-- the keys of every mapping have normal forms -/
  keys {c : Definition} {x : Value} : d.Visits raw c x → ∃ view, viewOf x = .ok view
  /-- defaults can be copied -/
  defaults {c : Definition} {x v : Value} {a : Attribute} : d.Visits raw c x → a ∈ c.attributes →
    a.default = some v → v.copyFault? = none
  /-- converters have no faults of their own -/
  casts {c : Definition} {x : Value} {view : KeyView} {a : Attribute} {t : ValueType} : d.Visits raw c x →
    viewOf x = .ok view → a ∈ c.attributes → a.shape = .scalar t →
    ∃ o, r.cast t c.settings.strictTypes (a.rawValue view) = .ok o
  /-- rules answer with texts to the value that the attribute would hold -/
  rules {c : Definition} {x v : Value} {view : KeyView} {a : Attribute} {here : Place} : d.Visits raw c x →
    viewOf x = .ok view → a ∈ c.attributes → Shape.Resolves r here c.settings.strictTypes a.shape (a.rawValue view) v →
    ∃ ms, runRules a.rules v = .ok ms ∧ ∀ m ∈ ms, m.text?.isSome

/-- wherever a parse comes to, rules that have an answer to the value that their attribute would hold answer with texts -/
def Definition.AnswersInTexts (r : Registry) (d : Definition) (raw : Value) : Prop :=
  ∀ {c : Definition} {x v : Value} {view : KeyView} {a : Attribute} {here : Place} {ms : List Value}, d.Visits raw c x →
    viewOf x = .ok view → a ∈ c.attributes → Shape.Resolves r here c.settings.strictTypes a.shape (a.rawValue view) v →
    runRules a.rules v = .ok ms → ∀ m ∈ ms, m.text?.isSome

variable {r : Registry} {here : Place}

namespace Definition

/-- a parse comes to what it comes to from where it has come -/
theorem Visits.trans {d c b : Definition} {raw x y : Value} (h : d.Visits raw c x) (hb : c.Visits x b y) :
    d.Visits raw b y := by
  induction h with
  | here => exact hb
  | nested hv ha hs hm _ ih => exact .nested hv ha hs hm (ih hb)
  | element hv ha hs hys hy hm _ ih => exact .element hv ha hs hys hy hm (ih hb)

/-- what a parse comes to is read by a definition inside the one that it began with -/
theorem Visits.within {d c : Definition} {raw x : Value} (h : d.Visits raw c x) : Within c d := by
  induction h with
  | here => exact .here _
  | nested _ ha hs _ _ ih => exact .part ha (by rw [hs]; rfl) ih
  | element _ ha hs _ _ _ _ ih => exact .part ha (by rw [hs]; rfl) ih

/-- what is not broken off is not broken off inside, either -/
theorem Unbroken.of_visits {d c : Definition} {raw x : Value} (h : d.Unbroken r raw) (hc : d.Visits raw c x) :
    c.Unbroken r x where
  keys hx := h.keys (hc.trans hx)
  defaults hx := h.defaults (hc.trans hx)
  casts hx := h.casts (hc.trans hx)
  rules hx := h.rules (hc.trans hx)

theorem AnswersInTexts.of_visits {d c : Definition} {raw x : Value} (h : d.AnswersInTexts r raw) (hc : d.Visits raw c x) :
    c.AnswersInTexts r x := fun hx => h (hc.trans hx)

theorem Calm.answersInTexts {d : Definition} {raw : Value} (h : d.Calm r raw) : d.AnswersInTexts r raw := by
  intro c x v view a here ms hx hv ha hr hms
  obtain ⟨ms', hms', htexts⟩ := h.rules hx hv ha hr
  cases hms.symm.trans hms'
  exact htexts

theorem Calm.unbroken {d : Definition} {raw : Value} (h : d.Calm r raw) : d.Unbroken r raw where
  keys := h.keys
  defaults := h.defaults
  casts := h.casts
  rules hx hv ha hr := (h.rules hx hv ha hr).imp fun _ hms => hms.1

theorem Calm.nested {d e : Definition} {raw : Value} {view : KeyView} {a : Attribute} (h : d.Calm r raw)
    (hv : viewOf raw = .ok view) (ha : a ∈ d.attributes) (hs : a.shape = .nested e)
    (hm : (a.rawValue view).entries?.isSome) : e.Calm r (a.rawValue view) where
  keys hx := h.keys (.nested hv ha hs hm hx)
  defaults hx := h.defaults (.nested hv ha hs hm hx)
  casts hx := h.casts (.nested hv ha hs hm hx)
  rules hx := h.rules (.nested hv ha hs hm hx)

theorem Calm.element {d e : Definition} {raw y : Value} {view : KeyView} {a : Attribute} {ys : List Value}
    (h : d.Calm r raw) (hv : viewOf raw = .ok view) (ha : a ∈ d.attributes) (hs : a.shape = .arrayOf e)
    (hys : (a.rawValue view).items? = some ys) (hy : y ∈ ys) (hm : y.entries?.isSome) : e.Calm r y where
  keys hx := h.keys (.element hv ha hs hys hy hm hx)
  defaults hx := h.defaults (.element hv ha hs hys hy hm hx)
  casts hx := h.casts (.element hv ha hs hys hy hm hx)
  rules hx := h.rules (.element hv ha hs hys hy hm hx)

/-- a parse is calm if it is at its own mapping and at those inside it -/
theorem calm_of_parts {d : Definition} {raw : Value} {view : KeyView} (hv : viewOf raw = .ok view)
    (hdefaults : ∀ a ∈ d.attributes, ∀ v, a.default = some v → v.copyFault? = none)
    (hcasts : ∀ a ∈ d.attributes, ∀ t, a.shape = .scalar t → ∃ o,
      r.cast t d.settings.strictTypes (a.rawValue view) = .ok o)
    (hrules : ∀ a ∈ d.attributes, ∀ here v, Shape.Resolves r here d.settings.strictTypes a.shape (a.rawValue view) v →
      ∃ ms, runRules a.rules v = .ok ms ∧ ∀ m ∈ ms, m.text?.isSome)
    (hnested : ∀ a ∈ d.attributes, ∀ e, a.shape = .nested e → (a.rawValue view).entries?.isSome →
      e.Calm r (a.rawValue view))
    (helements : ∀ a ∈ d.attributes, ∀ e ys, a.shape = .arrayOf e → (a.rawValue view).items? = some ys →
      ∀ y ∈ ys, y.entries?.isSome → e.Calm r y) : d.Calm r raw := by
  have same {view' : KeyView} (h : viewOf raw = .ok view') : view' = view := Except.ok.inj (h.symm.trans hv)
  constructor
  case keys =>
    intro c x hx
    cases hx with
    | here => exact ⟨view, hv⟩
    | nested hv' ha hs hm hx => cases same hv'; exact (hnested _ ha _ hs hm).keys hx
    | element hv' ha hs hys hy hm hx => cases same hv'; exact (helements _ ha _ _ hs hys _ hy hm).keys hx
  case defaults =>
    intro c x v b hx hb hd
    cases hx with
    | here => exact hdefaults b hb v hd
    | nested hv' ha hs hm hx => cases same hv'; exact (hnested _ ha _ hs hm).defaults hx hb hd
    | element hv' ha hs hys hy hm hx => cases same hv'; exact (helements _ ha _ _ hs hys _ hy hm).defaults hx hb hd
  case casts =>
    intro c x view' b t hx hv' hb ht
    cases hx with
    | here => cases same hv'; exact hcasts b hb t ht
    | nested hv'' ha hs hm hx => cases same hv''; exact (hnested _ ha _ hs hm).casts hx hv' hb ht
    | element hv'' ha hs hys hy hm hx => cases same hv''; exact (helements _ ha _ _ hs hys _ hy hm).casts hx hv' hb ht
  case rules =>
    intro c x v view' b here hx hv' hb hr
    cases hx with
    | here => cases same hv'; exact hrules b hb here v hr
    | nested hv'' ha hs hm hx => cases same hv''; exact (hnested _ ha _ hs hm).rules hx hv' hb hr
    | element hv'' ha hs hys hy hm hx => cases same hv''; exact (helements _ ha _ _ hs hys _ hy hm).rules hx hv' hb hr

end Definition

/-! ## The built-in converters -/

namespace Cast

open Intake.Number

/-- a conversion fails, if it does, only in ways that casting turns into a failure of the attribute -/
def Tame {α : Type} (x : Outcome α) : Prop := ∀ f, x = .error f → f.isCastFault = true

variable {α β : Type}

theorem tame_ok (a : α) : Tame (.ok a : Outcome α) := by rintro f ⟨⟩

theorem tame_error {f : Fault} (h : f.isCastFault = true) : Tame (.error f : Outcome α) := by rintro g ⟨⟩; exact h

theorem tame_orBad (o : Option α) : Tame (orBad o) := by
  cases o with
  | none => exact tame_error rfl
  | some a => exact tame_ok a

theorem tame_ite {c : Prop} [Decidable c] {x y : Outcome α} (hx : Tame x) (hy : Tame y) :
    Tame (if c then x else y) := by
  split
  · exact hx
  · exact hy

theorem tame_bind {x : Outcome α} {f : α → Outcome β} (hx : Tame x) (hf : ∀ a, Tame (f a)) : Tame (x >>= f) := by
  cases x with
  | ok a => exact hf a
  | error e => exact tame_error (hx e rfl)

/-- the text of a value that is not nested too deep is written, or too long -/
theorem tame_written {v : Value} (h : v.calls < Value.callLimit) (text : Option (List Char)) : Tame (v.written text) := by
  unfold Value.written
  rw [if_neg (Nat.not_le.2 h)]
  cases text with
  | none => exact tame_error rfl
  | some s => exact tame_ok _

theorem tame_plain {v : Value} (h : v.calls < Value.callLimit) : Tame (v.plain.map Value.text) := by
  have hw : Tame v.plain := tame_written h _
  cases hv : v.plain with
  | ok s => exact tame_ok _
  | error f => exact tame_error (hw f hv)

theorem tame_floatOfInt (n : Int) : Tame (floatOfInt n) := by
  unfold floatOfInt
  split
  · exact tame_error rfl
  · exact tame_ok _

theorem tame_toText (v : Value) : Tame (toText v) := by
  cases v with
  | int n => exact tame_plain (v := (.int n)) (by simp [Value.calls, Value.callLimit])
  | float x => exact tame_plain (v := (.float x)) (by simp [Value.calls, Value.callLimit])
  | decimal d => exact tame_plain (v := (.decimal d)) (by simp [Value.calls, Value.callLimit])
  | uuid u => exact tame_plain (v := (.uuid u)) (by simp [Value.calls, Value.callLimit])
  | text s => exact tame_ok _
  | textMember s => exact tame_ok _
  | bool b => exact tame_ok _
  | date d => exact tame_ok _
  | moment m => exact tame_ok _
  | time t => exact tame_ok _
  | _ => exact tame_error rfl

theorem tame_toInteger (v : Value) : Tame (toInteger v) := by
  cases v with
  | int n => exact tame_ok _
  | decimal d =>
    cases d with
    | finite s c e => exact tame_ite (tame_error rfl) (tame_ite (tame_orBad _) (tame_error rfl))
    | _ => exact tame_error rfl
  | float x =>
    cases x with
    | finite s m e => exact tame_ite (tame_orBad _) (tame_error rfl)
    | _ => exact tame_error rfl
  | text s => exact tame_orBad _
  | textMember s => exact tame_orBad _
  | _ => exact tame_error rfl

theorem tame_toFloat (v : Value) : Tame (toFloat v) := by
  have of_bind {o : Outcome Binary64} (h : Tame o) :
      Tame (o >>= fun x => if x.isFinite = true then .ok (Value.float x) else .error .badValue) :=
    tame_bind h fun x => tame_ite (tame_ok _) (tame_error rfl)
  cases v with
  | int n => exact of_bind (tame_floatOfInt n)
  | float x => exact of_bind (tame_ok _)
  | decimal d => exact of_bind (tame_ok _)
  | text s => exact of_bind (tame_orBad _)
  | textMember s => exact of_bind (tame_orBad _)
  | _ => exact tame_error rfl

theorem tame_toDecimal (v : Value) : Tame (toDecimal v) := by
  have of_bind {o : Outcome Decimal} (h : Tame o) :
      Tame (o >>= fun d => if d.isFinite = true then .ok (Value.decimal d) else .error .badValue) :=
    tame_bind h fun x => tame_ite (tame_ok _) (tame_error rfl)
  cases v with
  | decimal d => exact of_bind (tame_ok _)
  | int n => exact of_bind (tame_ok _)
  | float x => exact of_bind (tame_orBad _)
  | text s => exact of_bind (tame_orBad _)
  | _ => exact tame_error rfl

theorem tame_toBoolean {v : Value} (h : v.calls < Value.callLimit) : Tame (toBoolean v) := by
  unfold toBoolean
  split
  · exact tame_ok _
  · exact tame_ite (tame_ok _) (tame_ite (tame_ok _) (tame_error rfl))
  · exact tame_ite (tame_ok _) (tame_ite (tame_ok _) (tame_error rfl))
  · exact tame_ite (tame_ok _) (tame_ite (tame_ok _) (tame_error rfl))
  · exact tame_bind (tame_written h _) fun _ => tame_error rfl

theorem tame_toDate (v : Value) : Tame (toDate v) := by
  unfold toDate
  split
  · exact tame_ok _
  · exact tame_ok _
  · exact tame_orBad _
  · exact tame_orBad _
  · exact tame_error rfl

theorem tame_toMoment (v : Value) : Tame (toMoment v) := by
  unfold toMoment
  split
  · exact tame_ok _
  · exact tame_ok _
  · exact tame_orBad _
  · exact tame_orBad _
  · exact tame_orBad _
  · exact tame_orBad _
  · exact tame_error rfl

theorem tame_toTime (v : Value) : Tame (toTime v) := by
  unfold toTime
  split
  · exact tame_ok _
  · exact tame_orBad _
  · exact tame_orBad _
  · exact tame_error rfl

theorem tame_toUuid (v : Value) : Tame (toUuid v) := by
  unfold toUuid
  split
  · exact tame_ok _
  · exact tame_orBad _
  · exact tame_orBad _
  · exact tame_error rfl

theorem tame_toList (v : Value) : Tame (toList v) := by
  unfold toList
  split
  · exact tame_ok _
  · exact tame_ok _
  · exact tame_error rfl

theorem tame_toHash (v : Value) : Tame (toHash v) := by
  unfold toHash
  split
  · exact tame_ok _
  · exact tame_error rfl

theorem tame_construct (c : HostClass) (v : Value) : Tame (construct c v) := by
  unfold construct
  split
  · exact tame_ok _
  · exact tame_ite (tame_ok _) (tame_error rfl)
  · exact tame_error rfl

end Cast

namespace Registry

theorem tame_convert {t : ValueType} {v : Value} (hdeep : t = .boolean → v.calls < Value.callLimit) :
    Cast.Tame ((builtin.casterOf t).convert v) := by
  cases t with
  | text => exact Cast.tame_toText v
  | integer => exact Cast.tame_toInteger v
  | float => exact Cast.tame_toFloat v
  | decimal => exact Cast.tame_toDecimal v
  | boolean => exact Cast.tame_toBoolean (hdeep rfl)
  | date => exact Cast.tame_toDate v
  | moment => exact Cast.tame_toMoment v
  | time => exact Cast.tame_toTime v
  | uuid => exact Cast.tame_toUuid v
  | array => exact Cast.tame_toList v
  | hash => exact Cast.tame_toHash v
  | custom c => exact Cast.tame_construct c v

/-- casting to a type of the built-in registry has an end, unless a value that is no boolean is nested too deep to be
quoted -/
theorem builtin_cast_ok {t : ValueType} {strict : Bool} {v : Value}
    (hdeep : strict = false → t = .boolean → v.calls < Value.callLimit) : ∃ o, builtin.cast t strict v = .ok o := by
  have hconvert (h : t = .boolean → v.calls < Value.callLimit) : ∃ o, convertWith (builtin.casterOf t) v = .ok o := by
    unfold convertWith
    cases hc : (builtin.casterOf t).convert v with
    | ok w => exact ⟨_, rfl⟩
    | error f => exact ⟨_, if_pos (tame_convert h f hc)⟩
  unfold cast
  cases strict with
  | true =>
    simp only [if_true]
    split
    · exact ⟨_, rfl⟩
    · split
      · next hnumber => exact hconvert (by rintro rfl; exact absurd hnumber (by decide))
      · exact ⟨_, rfl⟩
  | false =>
    simp only [Bool.false_eq_true, if_false]
    split
    · exact ⟨_, rfl⟩
    · exact hconvert (hdeep rfl)

theorem toBoolean_too_deep {v : Value} (h : Value.callLimit ≤ v.calls) : Cast.toBoolean v = .error .tooDeep := by
  have hshown : v.shown = .error .tooDeep := if_pos h
  have hflat : ¬ Value.callLimit ≤ 0 := by decide
  cases v
  case bool | int | text | textMember => exact absurd h hflat
  all_goals exact congrArg (· >>= _) hshown

/-- a value that is no boolean is not refused where it is nested too deep to be quoted -/
theorem boolean_too_deep {v : Value} (h : Value.callLimit ≤ v.calls) :
    builtin.cast .boolean false v = .error .tooDeep := by
  have hconvert : (builtin.casterOf .boolean).convert v = .error .tooDeep := toBoolean_too_deep h
  show convertWith (builtin.casterOf .boolean) v = _
  rw [convertWith, hconvert]
  rfl

end Registry

/-! ## Steps that have an end -/

/-- a nested value is resolved if the parse of a mapping has an end -/
theorem parseNested_ends {parse : Parsing} {v : Value} (h : v.entries?.isSome → ∃ o, parse v = .ok o) :
    ∃ y, parseNested parse v = .ok y := by
  cases v with
  | map ro es =>
    obtain ⟨o, ho⟩ := h rfl
    rw [parseNested, ho, ok_bind]
    cases o with
    | ok p => exact ⟨_, rfl⟩
    | error rep => exact ⟨_, rfl⟩
  | _ => exact ⟨_, rfl⟩

/-- an array is resolved if the parse of each element that is a mapping has an end -/
theorem parseItems_ends {parse : Nat → Parsing} {v : Value}
    (h : ∀ xs, v.items? = some xs → ∀ x ∈ xs, x.entries?.isSome → ∀ i, ∃ o, parse i x = .ok o) :
    ∃ y, parseItems parse v = .ok y := by
  cases hxs : v.items? with
  | none => exact ⟨_, by rw [parseItems, hxs]⟩
  | some xs =>
    obtain ⟨rs, hrs⟩ := mapM_ok_of_forall fun (e : Value × Nat) (he : e ∈ xs.zipIdx) =>
      parseNested_ends fun hm => h xs hxs e.1 (List.fst_mem_of_mem_zipIdx he) hm e.2
    simp only [parseItems, hxs, hrs, ok_bind]
    rcases gatherItems_eq 0 rs with ⟨vs, -, -, hg⟩ | ⟨-, hg⟩
    · exact ⟨_, by rw [hg]⟩
    · exact ⟨_, by rw [hg]⟩

namespace Definition

/-- in a parse that is not broken off every shape resolves its raw value, if its parts have ends -/
theorem Unbroken.resolve_ends {d : Definition} {raw : Value} {view : KeyView} {a : Attribute} (h : d.Unbroken r raw)
    (hv : viewOf raw = .ok view) (ha : a ∈ d.attributes)
    (ih : ∀ e, a.shape.definition? = some e → ∀ v, e.Unbroken r v → ∀ there, ∃ o, e.read r there v = .ok o) :
    ∃ y, Shape.resolve r here d.settings.strictTypes a.shape (a.rawValue view) = .ok y := by
  cases hs : a.shape with
  | untyped => exact ⟨_, rfl⟩
  | scalar t =>
    obtain ⟨o, ho⟩ := h.casts (.here d raw) hv ha hs
    rw [Shape.resolve, castScalar, ho, ok_bind]
    cases o with
    | ok w => exact ⟨_, rfl⟩
    | error f => exact ⟨_, rfl⟩
  | nested e =>
    rw [Shape.resolve]
    exact parseNested_ends fun hm => ih e (by rw [hs]; rfl) _ (h.of_visits (.nested hv ha hs hm (.here _ _))) _
  | arrayOf e =>
    rw [Shape.resolve]
    exact parseItems_ends fun xs hxs x hx hm i =>
      ih e (by rw [hs]; rfl) _ (h.of_visits (.element hv ha hs hxs hx hm (.here _ _))) _

/-- in a parse that is not broken off every attribute has a reading -/
theorem Unbroken.attribute_ends {d : Definition} {raw : Value} {view : KeyView} {a : Attribute} (h : d.Unbroken r raw)
    (hv : viewOf raw = .ok view) (ha : a ∈ d.attributes)
    (ih : ∀ e, a.shape.definition? = some e → ∀ v, e.Unbroken r v → ∀ there, ∃ o, e.read r there v = .ok o) :
    ∃ x, Attribute.read r here d.settings.strictTypes view a = .ok x := by
  cases hm : a.missingIn view with
  | true => exact ⟨_, by rw [Attribute.read_eq, if_pos hm]⟩
  | false =>
    by_cases hn : a.rawValue view = .null
    · obtain ⟨o, ho⟩ : ∃ o, a.absent (here.within a.name) (a.suppliedIn view) = .ok o := by
        cases hd : a.default with
        | none => exact ⟨_, Attribute.absent_eq_ok.2 (.inr ⟨hd, rfl⟩)⟩
        | some v => exact ⟨_, Attribute.absent_eq_ok.2 (.inl ⟨v, hd, h.defaults (.here d raw) ha hd, rfl⟩)⟩
      exact ⟨_, by rw [Attribute.read_of_null hm hn, ho]; rfl⟩
    · rw [Attribute.read_of_not_null hm hn]
      obtain ⟨resolved, hr⟩ := h.resolve_ends hv ha ih
      cases resolved with
      | error f => exact ⟨_, Attribute.readValue_eq_ok.2 ⟨_, _, hr, Attribute.checked_eq_ok.2 (.inl ⟨f, rfl, rfl⟩), rfl⟩⟩
      | ok v =>
        obtain ⟨ms, hms⟩ := h.rules (.here d raw) hv ha (Shape.resolve_eq_ok.1 hr)
        exact ⟨_, Attribute.readValue_eq_ok.2 ⟨_, _, hr, Attribute.checked_eq_ok.2 (.inr ⟨v, ms, rfl, hms, rfl⟩), rfl⟩⟩

theorem Unbroken.read_ends {d : Definition} {raw : Value} (h : d.Unbroken r raw) (here : Place) :
    ∃ o, d.read r here raw = .ok o := by
  induction d using Definition.byParts generalizing here raw with
  | parts d ih =>
    obtain ⟨view, hview⟩ := h.keys (.here d raw)
    obtain ⟨rs, hrs⟩ :=
      mapM_ok_of_forall fun a ha => h.attribute_ends hview ha fun e he v hv there => ih a ha e he hv there
    exact ⟨_, read_eq_ok.2 ⟨view, rs, hview, mapM_eq_ok.1 hrs, rfl⟩⟩

end Definition

/-! ## Reports of texts -/

theorem mem_failedItems {i : Nat} {rs : List (Reading Value)} {e : String × Finding} (h : e ∈ failedItems i rs) :
    .error e.2 ∈ rs := by
  induction rs generalizing i with
  | nil => cases h
  | cons x rs ih =>
    cases x with
    | ok v => exact List.mem_cons_of_mem _ (ih h)
    | error f =>
      rcases List.mem_cons.1 h with rfl | h
      · exact List.mem_cons_self
      · exact List.mem_cons_of_mem _ (ih h)

/-- the messages of a report are texts -/
def Report.Written (rep : Report) : Prop := ∀ e ∈ rep.entries, e.2.Written

theorem written_of_parseNested {parse : Parsing} {v : Value} {f : Finding}
    (h : ∀ rep, v.entries?.isSome → parse v = .ok (.error rep) → rep.Written)
    (hf : parseNested parse v = .ok (.error f)) :
    f.Written := by
  rcases parseNested_eq_error.1 hf with ⟨-, rfl⟩ | ⟨rep, hm, hrep, rfl⟩
  · exact Finding.written_message _
  · exact .nested (h rep hm hrep)

theorem written_of_parseItems {parse : Nat → Parsing} {v : Value} {f : Finding}
    (h : ∀ xs, v.items? = some xs → ∀ x ∈ xs, ∀ i rep, x.entries?.isSome → parse i x = .ok (.error rep) → rep.Written)
    (hf : parseItems parse v = .ok (.error f)) : f.Written := by
  rcases parseItems_eq_error.1 hf with ⟨-, rfl⟩ | ⟨xs, rs, hxs, hrs, -, rfl⟩
  · exact Finding.written_message _
  · refine .nested fun e he => ?_
    obtain ⟨x, hx, hxe⟩ := exists_of_mem_right hrs (mem_failedItems he)
    exact written_of_parseNested (h xs hxs x.1 (List.fst_mem_of_mem_zipIdx hx) x.2) hxe

namespace Definition

/-- a raw value that cannot be resolved is told of in texts, if rules answer with texts inside it -/
theorem AnswersInTexts.resolve_written {d : Definition} {raw : Value} {view : KeyView} {a : Attribute} {f : Finding}
    (h : d.AnswersInTexts r raw) (hv : viewOf raw = .ok view) (ha : a ∈ d.attributes)
    (ih : ∀ e, a.shape.definition? = some e → ∀ there v rep, e.AnswersInTexts r v →
      e.read r there v = .ok (.error rep) → rep.Written)
    (hf : Shape.resolve r here d.settings.strictTypes a.shape (a.rawValue view) = .ok (.error f)) : f.Written := by
  cases hs : a.shape with
  | untyped => rw [hs] at hf; cases hf
  | scalar t =>
    rw [hs, Shape.resolve] at hf
    obtain ⟨o, -, hf⟩ := bind_eq_ok.1 hf
    cases o with
    | ok w => cases hf
    | error g => cases hf; exact Finding.written_message _
  | nested e =>
    rw [hs, Shape.resolve] at hf
    exact written_of_parseNested (fun rep hm =>
      ih e (by rw [hs]; rfl) _ _ rep (h.of_visits (.nested hv ha hs hm (.here _ _)))) hf
  | arrayOf e =>
    rw [hs, Shape.resolve] at hf
    exact written_of_parseItems (fun xs hxs x hx i rep hm =>
      ih e (by rw [hs]; rfl) _ _ rep (h.of_visits (.element hv ha hs hxs hx hm (.here _ _)))) hf

/-- where rules answer with texts, a report is one of texts -/
theorem AnswersInTexts.report_written {d : Definition} {raw : Value} {rep : Report} (h : d.AnswersInTexts r raw)
    (hrep : d.read r here raw = .ok (.error rep)) : rep.Written := by
  induction d using Definition.byParts generalizing here raw rep with
  | parts d ih =>
    obtain ⟨view, rs, hv, hrs, ho⟩ := read_eq_ok.1 hrep
    obtain ⟨-, rfl⟩ := gather_eq_error.1 ho.symm
    rintro ⟨name, f⟩ he
    obtain ⟨x, hx, -, hf⟩ := mem_findings.1 he
    obtain ⟨a, ha, hread⟩ := exists_of_mem_right hrs hx
    have hy := (Attribute.read_eq_ok.1 hread).2.2
    rw [hf] at hy
    cases hy with
    | missing => exact Finding.written_message _
    | failed _ _ hres => exact h.resolve_written hv ha (fun e he there v rep hc => ih a ha e he hc) hres
    | broken _ _ hres hms _ => exact .messages (h (.here d raw) hv ha (Shape.resolve_eq_ok.1 hres) hms)

/-- a calm parse has an end, and if that is a report it is one of texts -/
theorem Calm.read_ok {d : Definition} {raw : Value} (h : d.Calm r raw) (here : Place) :
    ∃ o, d.read r here raw = .ok o ∧ ∀ rep, o = .error rep → ∀ e ∈ rep.entries, e.2.Written := by
  obtain ⟨o, ho⟩ := h.unbroken.read_ends here
  refine ⟨o, ho, ?_⟩
  rintro rep rfl
  exact AnswersInTexts.report_written h.answersInTexts ho

theorem Calm.completes {d : Definition} {raw : Value} (h : d.Calm r raw) (run : Nat) : d.Completes r run raw := by
  obtain ⟨o, ho, hw⟩ := h.read_ok (.root run)
  exact ⟨o, ho, fun rep hrep => Report.renders_of_written (hw rep hrep)⟩

end Definition

end Intake
