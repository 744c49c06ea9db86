/-
Documents that cannot be built are refused with a reason.

A document is free in what it holds: option names and values go to the builder as they stand. Building may fail in
other ways than by a refusal, and this module tells in which: an option that goes by the name of another part of a
declaration is an ill-typed call, an integer that is too long to be written has no place in a message, nor has a value
nested too deep, and reading a pattern may end in a fault (`JsonSchema.patternFault?`). Options without these
(`Reportable`) give rules or are refused, and a document of plain data without any of them (`Value.Manageable`,
`Unclashing`) gives a definition or is refused.

How deep calls may go depends on who makes the first one, so what is asked for here stays far from every limit.
-/
import Intake.Proofs.Completion
import Intake.Proofs.Declared
import Intake.Proofs.RuleDescription
import Intake.Proofs.ShownValues

namespace Intake

open Outcome Number

/-! ## Steps that may refuse -/

/-- a step gives what has a property, or refuses a definition; it does not fail in another way -/
def Refusable {α : Type} (P : α → Prop) (x : Outcome α) : Prop :=
  match x with
  | .ok a => P a
  | .error f => ∃ e, f = .definition e

section Steps

variable {α β : Type} {P : α → Prop} {Q : β → Prop}

theorem refusable_ok {a : α} (h : P a) : Refusable P (.ok a) := h

theorem refusable_refuse (e : DefinitionError) : Refusable P (refuse e) := ⟨e, rfl⟩

theorem refusable_bind {x : Outcome α} {f : α → Outcome β} (hx : Refusable P x) (hf : ∀ a, P a → Refusable Q (f a)) :
    Refusable Q (x >>= f) := by
  cases x with
  | ok a => exact hf a hx
  | error e => exact hx

theorem refusable_ite {c : Prop} [Decidable c] {x y : Outcome α} (hx : c → Refusable P x) (hy : ¬ c → Refusable P y) :
    Refusable P (if c then x else y) := by
  split
  · next h => exact hx h
  · next h => exact hy h

theorem Refusable.imp {P' : α → Prop} {x : Outcome α} (hx : Refusable P x) (h : ∀ a, P a → P' a) : Refusable P' x := by
  cases x with
  | ok a => exact h a hx
  | error e => exact hx

theorem refusable_mapM {f : α → Outcome β} {xs : List α} (h : ∀ x ∈ xs, Refusable (fun _ => True) (f x)) :
    Refusable (fun _ => True) (xs.mapM f) := by
  induction xs with
  | nil => exact trivial
  | cons x xs ih =>
    rw [List.mapM_cons]
    refine refusable_bind (h x List.mem_cons_self) fun a _ => ?_
    exact refusable_bind (ih fun y hy => h y (List.mem_cons_of_mem x hy)) fun as _ => trivial

end Steps

/-! ## Data -/

namespace Value

/-- a message can show it -/
structure Showable (v : Value) : Prop where
  writable : v.Writable
  shallow : v.Shallow

/-- what every message can show: integers are short enough to be written, and so is the last one of a range -/
def IsPresentable : Value → Prop
  | .int n => (intText? n).isSome
  | .range a b s => Short (.range a b s) ∧ (intText? (b - 1)).isSome
  | _ => True

/-- what every message can show, as a whole and in each of its parts -/
structure Presentable (v : Value) : Prop where
  data : v.Throughout IsPresentable
  shallow : v.Shallow

theorem Shallow.child {v x : Value} (h : v.Shallow) (hx : Child x v) : x.Shallow := Nat.le_trans hx.calls_lt.le h

theorem Presentable.child {v x : Value} (h : v.Presentable) (hx : Child x v) : x.Presentable :=
  ⟨h.data.child hx, Shallow.child h.shallow hx⟩

theorem Presentable.items {v x : Value} {xs : List Value} (h : v.Presentable) (hxs : v.items? = some xs) (hx : x ∈ xs) :
    x.Presentable :=
  ⟨h.data.items hxs hx, Nat.le_trans (calls_lt_of_items hxs hx).le h.shallow⟩

theorem Presentable.showable {v : Value} (h : v.Presentable) : v.Showable where
  writable := h.data.imp fun x hx => by
    cases x with
    | int n => exact hx
    | range a b s => exact hx.1
    | _ => exact trivial
  shallow := h.shallow

/-- as a pattern the text has few groups -/
def FewGroups (s : String) : Prop := s.toList.count '(' ≤ 100

/-- reading the text as a pattern ends in no fault: it is a pattern, or it is refused as none -/
structure OrdinaryPattern (s : String) : Prop where
  groups : FewGroups s
  calm : JsonSchema.patternFault? s = none

/-- it may be given as a pattern -/
def Ordinary (v : Value) : Prop := ∀ s, v.text? = some s ∨ v = .pattern s → OrdinaryPattern s

/-- it may be given as a schema: the texts inside may be given as patterns, and it is nested on few levels, for each of
which a check makes many calls -/
structure OrdinarySchema (v : Value) : Prop where
  patterns : v.Throughout Ordinary
  flat : v.calls ≤ 20

/-- an entry under a text, which is nested on few levels if it is called a schema -/
structure NamedEntry (e : Value × Value) : Prop where
  text : ∃ s, e.1 = .text s
  flat : e.1 = .text "json_schema" → e.2.calls ≤ 20

/-- plain data that every message can show, whose mappings have texts as keys. Texts may be given as patterns, and what is
called a schema may be given as one -/
def IsManageable : Value → Prop
  | .null | .bool _ | .float _ | .date _ | .moment _ | .list _ => True
  | .int n => (intText? n).isSome
  | .text s => OrdinaryPattern s
  | .map _ es => ∀ e ∈ es, NamedEntry e
  | _ => False

/-- data that every message can show, as a whole and in each of its parts -/
structure Manageable (v : Value) : Prop where
  data : v.Throughout IsManageable
  shallow : v.Shallow

theorem Manageable.child {v x : Value} (h : v.Manageable) (hx : Child x v) : x.Manageable :=
  ⟨h.data.child hx, Shallow.child h.shallow hx⟩

theorem Manageable.presentable {v : Value} (h : v.Manageable) : v.Presentable where
  data := h.data.imp fun x hx => by cases x <;> first | exact trivial | exact hx | exact absurd hx id
  shallow := h.shallow

theorem Manageable.showable {v : Value} (h : v.Manageable) : v.Showable := h.presentable.showable

theorem IsManageable.ordinary {v : Value} (h : v.IsManageable) : v.Ordinary := by
  rintro s (hs | rfl)
  · rcases text?_eq_some hs with rfl | rfl
    · exact h
    · exact absurd h id
  · exact absurd h id

theorem presentable_null : Value.null.Presentable := ⟨.of_leaf trivial (by rintro x ⟨⟩), Nat.zero_le _⟩

theorem showable_text (s : String) : (Value.text s).Showable := ⟨Throughout.text_iff.2 trivial, Nat.zero_le _⟩

theorem showable_int {n : Int} (h : (intText? n).isSome) : (Value.int n).Showable :=
  ⟨.of_leaf h (by rintro x ⟨⟩), Nat.zero_le _⟩

theorem showable_texts {ks : List Value} (h : ∀ k ∈ ks, k.text?.isSome) : (Value.list ks).Showable := by
  have leaf (k : Value) (hk : k.text?.isSome) : k.Writable ∧ k.calls = 0 := by
    obtain ⟨s, hs⟩ := Option.isSome_iff_exists.1 hk
    rcases text?_eq_some hs with rfl | rfl <;> exact ⟨.of_leaf trivial (by rintro x ⟨⟩), rfl⟩
  refine ⟨Throughout.list_iff.2 ⟨trivial, fun k hk => (leaf k (h k hk)).1⟩, ?_⟩
  have := callsOfAll_le (n := 0) fun k hk => (leaf k (h k hk)).2.le
  rw [Shallow, calls]
  omega

/-- a configuration of an option: what messages can show, under texts if it is a hash -/
structure Configurable (config : Value) : Prop where
  presentable : config.Presentable
  keyed : ∀ es, config.hash? = some es → ∀ e ∈ es, e.1.text?.isSome

end Value

/-- parts under names, of which messages can show everything -/
def Parts.Presentable (parts : Parts) : Prop := ∀ e ∈ parts, e.1.text?.isSome ∧ e.2.Presentable

/-- parts under names, all of them manageable -/
def Parts.Manageable (parts : Parts) : Prop := ∀ e ∈ parts, Value.NamedEntry e ∧ e.2.Manageable

theorem Value.Manageable.parts {ro : Bool} {es : Parts} (h : (Value.map ro es).Manageable) : Parts.Manageable es :=
  fun e he => ⟨h.data.here e he, h.child (.entry he)⟩

theorem Value.Configurable.parts {config : Value} {es : Parts} (h : config.Configurable) (hes : config.hash? = some es) :
    Parts.Presentable es := by
  refine fun e he => ⟨h.keyed es hes e he, ?_⟩
  obtain rfl := hash?_eq_some hes
  exact h.presentable.child (.entry he)

theorem Value.Manageable.configurable {config : Value} (h : config.Manageable) : config.Configurable where
  presentable := h.presentable
  keyed es hes e he := by
    obtain rfl := hash?_eq_some hes
    obtain ⟨s, hs⟩ := (h.data.here e he).text
    rw [hs]
    rfl

namespace Parts

variable {parts : Parts}

theorem presentable_nil : Parts.Presentable [] := by rintro e ⟨⟩

theorem Presentable.without (h : Parts.Presentable parts) (name : String) :
    Parts.Presentable (Value.removeKey name parts) :=
  fun e he => h e (List.mem_of_mem_filter he)

theorem Presentable.field (h : Parts.Presentable parts) {name : String} {v : Value}
    (hv : Value.field? name parts = some v) :
    v.Presentable := of_field? (fun e he => (h e he).2) hv

theorem manageable_nil : Parts.Manageable [] := by rintro e ⟨⟩

theorem Manageable.without (h : Parts.Manageable parts) (name : String) : Parts.Manageable (Value.removeKey name parts) :=
  fun e he => h e (List.mem_of_mem_filter he)

theorem Manageable.field (h : Parts.Manageable parts) {name : String} {v : Value}
    (hv : Value.field? name parts = some v) :
    v.Manageable := of_field? (fun e he => (h e he).2) hv

end Parts

theorem refusable_shown {v : Value} (h : v.Showable) : Refusable (fun _ => True) v.shown := by
  obtain ⟨s, hs⟩ := Value.shown_ok (Value.shown?_isSome h.writable) (Nat.lt_of_le_of_lt h.shallow (by decide))
  rw [hs]
  trivial

theorem refusable_plain {v : Value} (h : v.Showable) : Refusable (fun _ => True) v.plain := by
  obtain ⟨s, hs⟩ := Value.plain_ok (Value.shown?_isSome h.writable) (Nat.lt_of_le_of_lt h.shallow (by decide))
  rw [hs]
  trivial

section Refusals

variable {α : Type} {P : α → Prop} {v : Value}

theorem refusable_refuse_shown (h : v.Showable) (e : String → DefinitionError) :
    Refusable P (v.shown >>= fun s => refuse (e s)) :=
  refusable_bind (refusable_shown h) fun s _ => refusable_refuse (e s)

theorem refusable_refuse_plain (h : v.Showable) (e : String → DefinitionError) :
    Refusable P (v.plain >>= fun s => refuse (e s)) :=
  refusable_bind (refusable_plain h) fun s _ => refusable_refuse (e s)

end Refusals

/-! ## Options -/

theorem refusable_optionParts {option : String} {config : Value} {short : Option String} (h : config.Configurable) :
    Refusable Parts.Presentable (optionParts option config short) := by
  unfold optionParts
  split
  · next es hes => exact h.parts hes
  · exact List.forall_mem_singleton.2 ⟨rfl, h.presentable⟩
  · exact refusable_refuse_shown h.presentable.showable _

theorem refusable_popMessage {option : String} {parts : Parts} (h : Parts.Presentable parts) :
    Refusable (fun r => Parts.Presentable r.2 ∧ r.2 = Value.removeKey "message" parts) (popMessage option parts) := by
  unfold popMessage
  simp only [Parts.pop]
  split
  · exact ⟨h.without _, rfl⟩
  · next m hm =>
    refine refusable_ite (fun _ => ⟨h.without _, rfl⟩) fun _ => ?_
    exact refusable_refuse_shown (h.field (field?_of_given hm)).showable _

theorem refusable_rejectUnknown {option : String} {parts : Parts} (h : Parts.Presentable parts) :
    Refusable (fun _ => True) (rejectUnknown option parts) := by
  have hkeys : ∀ k ∈ parts.map (·.1), k.text?.isSome := by
    intro k hk
    obtain ⟨e, he, rfl⟩ := List.mem_map.1 hk
    exact (h e he).1
  have hsorted : Refusable (fun keys => ∀ k ∈ keys, k.text?.isSome) (sortedKeys (parts.map (·.1))) := by
    unfold sortedKeys
    rw [if_pos (List.all_eq_true.2 hkeys)]
    refine refusable_ite (fun _ => hkeys) fun _ => ?_
    exact fun k hk => hkeys k (List.mem_mergeSort.1 hk)
  unfold rejectUnknown
  refine refusable_ite (fun _ => trivial) fun _ => refusable_bind hsorted fun keys hk => ?_
  exact refusable_refuse_shown (Value.showable_texts hk) _

theorem refusable_popBounds {cs : List Comparison} {parts : Parts} (h : Parts.Presentable parts) :
    Refusable (fun r => Parts.Presentable r.2) (popBounds cs parts) := by
  induction cs generalizing parts with
  | nil => exact h
  | cons c cs ih =>
    unfold popBounds
    simp only [Parts.pop]
    split
    · exact ih h
    · next v rest hpop =>
      obtain ⟨hv, rfl⟩ := Prod.mk.inj hpop
      split
      · exact refusable_refuse_shown (h.field hv).showable _
      · exact refusable_bind (ih (h.without _)) fun r hr => hr

theorem refusable_numericality {config : Value} (h : config.Configurable) :
    Refusable (fun _ => True) (buildNumericality config) := by
  have hparts : Refusable Parts.Presentable (numericalityParts config) := by
    unfold numericalityParts
    split
    · exact Parts.presentable_nil
    · exact refusable_optionParts h
  rw [buildNumericality_eq]
  refine refusable_bind hparts fun parts hp => refusable_bind (refusable_popMessage hp) fun r ⟨hr, _⟩ => ?_
  refine refusable_bind (refusable_popBounds hr) fun b hb => ?_
  exact refusable_bind (refusable_rejectUnknown (((hb.without _).without _).without _)) fun _ _ => trivial

theorem refusable_lengthBound {name : String} {v : Option Value} (h : ∀ w, v = some w → w.Showable) :
    Refusable (fun _ => True) (lengthBound name v) := by
  unfold lengthBound
  split
  · trivial
  · exact refusable_ite (fun _ => refusable_refuse_shown (h _ rfl) _) fun _ => trivial
  · exact refusable_refuse_shown (h _ rfl) _

/-- the ends of a length, be they given one by one, as a pair or by a range, can be shown -/
theorem refusable_lengthLimits {minimum maximum within : Option Value} (hmin : ∀ v, minimum = some v → v.Showable)
    (hmax : ∀ v, maximum = some v → v.Showable) (hin : ∀ v, within = some v → v.Presentable) :
    Refusable (fun r => (∀ v, r.1 = some v → v.Showable) ∧ ∀ v, r.2 = some v → v.Showable)
      (lengthLimits minimum maximum within) := by
  unfold lengthLimits
  split
  · next v hv =>
    have hm := hin v (field?_of_given hv)
    unfold lengthEnds
    split
    · obtain ⟨⟨ha, -, -⟩, hb⟩ := hm.data.here
      exact ⟨by rintro v ⟨⟩; exact Value.showable_int ha, by rintro v ⟨⟩; exact Value.showable_int hb⟩
    · split
      · next a b hitems =>
        refine ⟨fun w hw => ?_, fun w hw => ?_⟩ <;> cases field?_of_given hw
        · exact (hm.items hitems List.mem_cons_self).showable
        · exact (hm.items hitems (List.mem_cons_of_mem _ List.mem_cons_self)).showable
      · exact refusable_refuse_shown hm.showable _
  · exact ⟨fun v hv => hmin v (field?_of_given hv), fun v hv => hmax v (field?_of_given hv)⟩

theorem refusable_length {config : Value} (h : config.Configurable) : Refusable (fun _ => True) (buildLength config) := by
  rw [buildLength_eq]
  refine refusable_bind (refusable_optionParts h) fun parts hp => refusable_bind (refusable_popMessage hp) fun r
    ⟨hr, _⟩ => ?_
  have h1 := hr.without "minimum"
  have h2 := h1.without "maximum"
  have h3 := h2.without "is"
  have h4 := h3.without "within"
  simp only [Parts.pop]
  refine refusable_bind
    (refusable_lengthLimits (fun v hv => (hr.field hv).showable) (fun v hv => (h1.field hv).showable) ?_)
    fun l hl => ?_
  · intro v hv
    rcases Option.or_eq_some_iff.1 hv with hv | ⟨-, hv⟩
    · exact h4.field hv
    · exact h3.field hv
  refine refusable_bind (refusable_rejectUnknown (h4.without _)) fun _ _ => ?_
  refine refusable_bind (refusable_lengthBound hl.1) fun _ _ => ?_
  refine refusable_bind (refusable_lengthBound hl.2) fun _ _ => ?_
  exact refusable_bind (refusable_lengthBound fun v hv => (h2.field (field?_of_given hv)).showable) fun _ _ => trivial

theorem refusable_compileFormat {v : Value} (h : v.Presentable) (hv : v.Ordinary) (negated : Bool)
    (message : Option Value) :
    Refusable (fun _ => True) (compileFormat v negated message) := by
  unfold compileFormat
  dsimp only
  split
  · exact refusable_refuse_shown h.showable _
  · next declared s hs =>
    have hcalm : JsonSchema.patternFault? s = none := by
      cases v with
      | text _ => cases hs; exact (hv _ (.inl rfl)).calm
      | textMember _ => cases hs; exact (hv _ (.inl rfl)).calm
      | pattern _ => cases hs; exact (hv _ (.inr rfl)).calm
      | _ => cases hs
    unfold JsonSchema.patternFault? at hcalm
    cases hp : Pattern.compile s.toList with
    | ok p => trivial
    | error e =>
      simp only [hp] at hcalm ⊢
      rw [hcalm]
      exact refusable_refuse_shown h.showable _

theorem refusable_formatOf {parts : Parts} (hp : Parts.Presentable parts)
    (hv : ∀ v, (Value.field? "with" parts).or (Value.field? "without" parts) = some v → v.Ordinary) :
    Refusable (fun _ => True) (formatOf parts) := by
  refine refusable_bind (refusable_popMessage hp) fun ⟨message, rest⟩ ⟨hr, hrest⟩ => ?_
  obtain rfl : rest = Value.removeKey "message" parts := hrest
  have h1 := hr.without "with"
  simp only [Parts.pop]
  have hchosen : Refusable (fun _ => True) (chosenFormat (Value.field? "with" (Value.removeKey "message" parts))
      (Value.field? "without" (Value.removeKey "with" (Value.removeKey "message" parts))) message) := by
    -- neither name is the message's or the other's, so the patterns are those of the parts as they were given
    rw [Value.field?_removeKey (by decide), Value.field?_removeKey (by decide), Value.field?_removeKey (by decide)]
    unfold chosenFormat
    split
    · exact refusable_refuse _
    · next p hp' hn => exact refusable_compileFormat (hp.field hp') (hv p (by rw [hp']; rfl)) _ _
    · next p hp' hn => exact refusable_compileFormat (hp.field hn) (hv p (by rw [hp', hn]; rfl)) _ _
    · exact refusable_refuse _
  refine refusable_bind hchosen fun f _ => ?_
  exact refusable_bind (refusable_rejectUnknown (h1.without _)) fun _ _ => trivial

/-- the pattern of a format, in full or in its short form -/
def patternPart? (config : Value) : Option Value :=
  match config.hash? with
  | some es => (Value.field? "with" es).or (Value.field? "without" es)
  | none => some config

theorem Value.Manageable.patternPart {config v : Value} (h : config.Manageable) (hv : patternPart? config = some v) :
    v.Manageable := by
  unfold patternPart? at hv
  split at hv
  · next es hes =>
    obtain rfl := hash?_eq_some hes
    rcases Option.or_eq_some_iff.1 hv with hv | ⟨-, hv⟩
    · exact h.parts.field hv
    · exact h.parts.field hv
  · cases hv
    exact h

theorem refusable_format {config : Value} (h : config.Configurable)
    (hv : ∀ v, patternPart? config = some v → v.Ordinary) :
    Refusable (fun _ => True) (buildFormat config) := by
  rw [buildFormat_eq]
  unfold patternPart? at hv
  unfold optionParts
  cases hes : config.hash? with
  | some es =>
    rw [hes] at hv
    exact refusable_formatOf (h.parts hes) hv
  | none =>
    rw [hes] at hv
    have hwith : Value.field? "with" [(.text "with", config)] = some config :=
      Value.field?_entries "with" [("with", config)]
    refine refusable_formatOf (List.forall_mem_singleton.2 ⟨rfl, h.presentable⟩) fun v hpart => hv v ?_
    rw [hwith] at hpart
    exact hpart

theorem refusable_membership {option : String} {config : Value} (h : config.Configurable) :
    Refusable (fun _ => True) (buildMembership option config) := by
  unfold buildMembership
  refine refusable_bind (refusable_optionParts h) fun parts hp => refusable_bind (refusable_popMessage hp) fun r
    ⟨hr, _⟩ => ?_
  have h1 := hr.without "within"
  simp only [Parts.pop]
  refine refusable_bind (refusable_rejectUnknown (h1.without _)) fun _ _ => ?_
  have hvalues :
      (((Value.field? "in" (Value.removeKey "within" r.2)).or (Value.field? "within" r.2)).getD .null).Presentable := by
    cases hv : (Value.field? "in" (Value.removeKey "within" r.2)).or (Value.field? "within" r.2) with
    | none => exact Value.presentable_null
    | some v =>
      rcases Option.or_eq_some_iff.1 hv with hv | ⟨-, hv⟩
      · exact h1.field hv
      · exact hr.field hv
  split
  · trivial
  · trivial
  · trivial
  · trivial
  · exact refusable_refuse_shown hvalues.showable _

/-- the texts that are read as patterns in a schema stand inside it -/
theorem JsonSchema.text_of_patternsIn {P : Value → Prop} {fuel : Nat} {v : Value} (h : v.Throughout P) {s : String}
    (hs : s ∈ patternsIn fuel v) : ∃ x, P x ∧ x.text? = some s := by
  induction fuel generalizing v with
  | zero => cases hs
  | succ fuel ih =>
    have entry {v : Value} {e : Value × Value} (h : v.Throughout P) (he : e ∈ v.entries?.getD []) :
        e.1.Throughout P ∧ e.2.Throughout P := by
      cases v with
      | map readOnly es => exact ⟨h.child (.key he), h.child (.entry he)⟩
      | _ => cases he
    have inside {v : Value} (h : v.Throughout P) (hs : s ∈ (v.entries?.getD []).flatMap fun e => patternsIn fuel e.2) :
        ∃ x, P x ∧ x.text? = some s := by
      obtain ⟨e, he, hs⟩ := List.mem_flatMap.1 hs
      exact ih (entry h he).2 hs
    obtain ⟨e, he, hs⟩ := List.mem_flatMap.1 hs
    have hv := (entry h he).2
    split at hs
    · next form _ =>
      cases form with
      | schema => exact ih hv hs
      | schemas =>
        obtain ⟨x, hx, hs⟩ := List.mem_flatMap.1 hs
        cases hxs : e.2.items? with
        | none => simp [hxs] at hx
        | some xs =>
          rw [hxs] at hx
          exact ih (hv.items hxs hx) hs
      | schemaMap => exact inside hv hs
      | dependencies => exact inside hv hs
      | patternMap =>
        rcases List.mem_append.1 hs with hs | hs
        · obtain ⟨f, hf, htext⟩ := List.mem_filterMap.1 hs
          exact ⟨f.1, (entry hv hf).1.here, htext⟩
        · exact inside hv hs
      | pattern => exact ⟨e.2, hv.here, Option.mem_toList.1 hs⟩
      | _ => cases hs
    · cases hs

theorem Value.OrdinarySchema.fault?_eq_none {v : Value} (h : v.OrdinarySchema) : JsonSchema.fault? v = none := by
  unfold JsonSchema.fault?
  split
  · refine List.findSome?_eq_none_iff.2 fun s hs => ?_
    obtain ⟨x, hx, htext⟩ := JsonSchema.text_of_patternsIn h.patterns hs
    exact (hx s (.inl htext)).calm
  · rfl

theorem Value.OrdinarySchema.child {v x : Value} (h : v.OrdinarySchema) (hx : Value.Child x v) : x.OrdinarySchema :=
  ⟨h.patterns.child hx, Nat.le_trans hx.calls_lt.le h.flat⟩

theorem Value.ordinarySchema_null : Value.null.OrdinarySchema where
  patterns := .of_leaf (by rintro s (h | h) <;> cases h) (by rintro x ⟨⟩)
  flat := Nat.zero_le _

theorem refusable_schema {config : Value} (h : config.Configurable) (hs : config.OrdinarySchema) :
    Refusable (fun _ => True) (buildSchema config) := by
  have hrule {schema : Value} (hschema : schema.OrdinarySchema) (message : Option Value) :
      Refusable (fun _ => True) (schemaRule schema message) := by
    refine refusable_ite (fun _ => trivial) fun _ => ?_
    rw [hschema.fault?_eq_none]
    exact refusable_refuse _
  unfold buildSchema
  split
  · exact refusable_refuse_shown h.presentable.showable _
  · next es hes =>
    refine refusable_ite (fun _ => ?_) fun _ => hrule hs _
    refine refusable_bind (refusable_popMessage (h.parts hes)) fun r ⟨hr, hrest⟩ => ?_
    obtain ⟨hinner, hinnerSchema⟩ : ((Value.field? "schema" r.2).getD .null).Presentable ∧
        ((Value.field? "schema" r.2).getD .null).OrdinarySchema := by
      cases hv : Value.field? "schema" r.2 with
      | none => exact ⟨Value.presentable_null, Value.ordinarySchema_null⟩
      | some v =>
        obtain rfl := hash?_eq_some hes
        refine ⟨hr.field hv, of_field? (P := Value.OrdinarySchema) (fun e he => ?_) hv⟩
        rw [hrest] at he
        exact hs.child (.entry (List.mem_of_mem_filter he))
    exact refusable_ite (fun _ => hrule hinnerSchema _) fun _ => refusable_refuse_shown hinner.showable _

theorem refusable_callbacks {config : Value} (h : config.Presentable) :
    Refusable (fun _ => True) (buildCallbacks config) := by
  unfold buildCallbacks
  refine refusable_mapM fun f hf => refusable_ite (fun _ => trivial) fun _ => ?_
  refine refusable_refuse_shown ?_ _
  cases hi : config.items? with
  | none =>
    rw [hi, Option.getD_none, List.mem_singleton] at hf
    exact hf ▸ h.showable
  | some xs =>
    rw [hi, Option.getD_some] at hf
    exact (h.items hi hf).showable

/-- options in which nothing keeps a refusal from being told: messages can show them, and patterns end in no fault -/
structure Reportable (options : Parts) : Prop where
  names : ∀ o ∈ options, o.1.Showable
  configs : ∀ o ∈ options, o.2.Presentable
  patterns : ∀ o ∈ options, o.1.text? = some "format" → ∀ v, patternPart? o.2 = some v → v.Ordinary
  schemas : ∀ o ∈ options, o.1.text? = some "json_schema" → o.2.OrdinarySchema

/-- **The rules of options are built or refused**, if refusals can be told and hashes have texts as keys -/
theorem refusable_buildRules {options : Parts} (h : Reportable options)
    (hkeyed : ∀ o ∈ options, ∀ es, o.2.hash? = some es → ∀ e ∈ es, e.1.text?.isSome) :
    Refusable (fun _ => True) (buildRules options) := by
  unfold buildRules
  refine refusable_bind (refusable_mapM fun o hmem => ?_) fun _ _ => trivial
  have ho := List.mem_of_mem_filter hmem
  have hv : o.2.Configurable := ⟨h.configs o ho, hkeyed o ho⟩
  unfold buildOption
  split
  · exact refusable_bind (refusable_numericality hv) fun _ _ => trivial
  · exact refusable_bind (refusable_length hv) fun _ _ => trivial
  · next hkey => exact refusable_bind (refusable_format hv (h.patterns o ho hkey)) fun _ _ => trivial
  · exact refusable_bind (refusable_membership hv) fun _ _ => trivial
  · exact refusable_bind (refusable_membership hv) fun _ _ => trivial
  · trivial
  · next hkey => exact refusable_bind (refusable_schema hv (h.schemas o ho hkey)) fun _ _ => trivial
  · exact refusable_callbacks hv.presentable
  · exact refusable_refuse_plain (h.names o ho) _

theorem Parts.Manageable.reportable {options : Parts} (h : Parts.Manageable options) : Reportable options where
  names o ho := by
    obtain ⟨s, hs⟩ := (h o ho).1.text
    exact hs ▸ Value.showable_text s
  configs o ho := (h o ho).2.presentable
  patterns o ho _ _ hv := ((h o ho).2.patternPart hv).data.here.ordinary
  schemas o ho hkey := by
    obtain ⟨s, hs⟩ := (h o ho).1.text
    rw [hs] at hkey
    obtain rfl := Option.some.inj hkey
    exact ⟨(h o ho).2.data.imp fun _ => Value.IsManageable.ordinary, (h o ho).1.flat hs⟩

/-! ## Declarations -/

/-- no attribute of these configurations, nor of those inside them, has an option that goes by the name of another
part of a declaration -/
inductive Unclashing : List (Value × Value) → Prop where
  | intro {configs : List (Value × Value)}
    (names : ∀ e ∈ configs, ∀ ro parts, e.2 = .map ro parts → ∀ f ∈ parts, ∀ s, f.1 = .text s →
      s ∉ ["self", "name", "block"])
    (inside : ∀ e ∈ configs, ∀ ro parts ro' inner, e.2 = .map ro parts →
      Value.field? "attributes" parts = some (.map ro' inner) → Unclashing inner) : Unclashing configs

theorem Unclashing.subset {configs others : List (Value × Value)} (h : Unclashing configs) (ho : others ⊆ configs) :
    Unclashing others := by
  cases h with
  | intro names inside => exact .intro (fun e he => names e (ho he)) fun e he => inside e (ho he)

/-- configurations whose declarations are built or refused -/
structure Configs (configs : List (Value × Value)) : Prop where
  manageable : Parts.Manageable configs
  unclashing : Unclashing configs

/-- a declaration that is built or refused -/
structure Declaration.Sane (d : Declaration) : Prop where
  name : ∃ s, d.name = .text s
  type : d.type = .none ∨ ∃ v, d.type = .value v ∧ v.Manageable
  keys : ∀ o ∈ d.options, ∃ s, o.1 = .text s ∧ s ∉ Builder.partNames
  options : Parts.Manageable (Value.removeKey "default" d.options)
  block : d.block = .none ∨ ∃ es, d.block = .document es ∧ Configs es

theorem refusable_resolve {r : Registry} {v : Value} (h : v.Showable) : Refusable (fun _ => True) (r.resolve v) := by
  unfold Registry.resolve
  split
  · trivial
  · split
    · split
      · trivial
      · exact refusable_refuse_plain h _
    · exact refusable_refuse_shown h _

/-- a key that is written where it stands does not change what is left without it -/
theorem removeKey_insertEntry (name : String) (v : Value) (es : List (Value × Value)) :
    Value.removeKey name (Value.insertEntry (.text name) v es) = Value.removeKey name es := by
  induction es with
  | nil => simp [Value.insertEntry, Value.removeKey]
  | cons e es ih =>
    obtain ⟨k, w⟩ := e
    unfold Value.removeKey at ih ⊢
    rw [Value.insertEntry]
    split
    · next hk => simp [hk]
    · next hk => simp [hk, ih]

theorem refusable_castDefaultOption {name : Value} (hname : name.Showable) {type nested : Option Value}
    {options : Parts} (ht : ∀ v, type = some v → v.Manageable) (ho : Parts.Manageable options) :
    Refusable (fun os => (∀ o ∈ os, ∃ e ∈ options, o.1 = e.1) ∧
        Value.removeKey "default" os = Value.removeKey "default" options)
      (castDefaultOption .builtin name type nested options) := by
  unfold castDefaultOption
  split
  · next t d hd =>
    have hfield := field?_of_given hd
    have hdefault := ho.field hfield
    have hcast : Refusable (fun _ => True) (castDefault .builtin name t d) := by
      unfold castDefault
      refine refusable_bind (refusable_resolve (ht t rfl).showable) fun u _ => ?_
      have hdeep : d.calls < Value.callLimit := Nat.lt_of_le_of_lt hdefault.shallow (by decide)
      obtain ⟨o, hcast⟩ : ∃ o, Registry.builtin.cast u false d = .ok o := Registry.builtin_cast_ok fun _ _ => hdeep
      rw [hcast, ok_bind]
      cases o with
      | ok v => trivial
      | error f => exact refusable_bind (refusable_plain hname) fun _ _ => refusable_refuse_shown hdefault.showable _
    refine refusable_bind hcast fun v _ => ⟨fun o hmem => ?_, removeKey_insertEntry _ _ _⟩
    obtain ⟨e, he, hsame, -⟩ := any_of_field? hfield
    have hkeys := keys_insertEntry (v := v) (List.any_eq_true.2 ⟨e, he, hsame⟩)
    have hk : o.1 ∈ options.map (·.1) := hkeys ▸ List.mem_map_of_mem hmem
    obtain ⟨e', he', hk'⟩ := List.mem_map.1 hk
    exact ⟨e', he', hk'.symm⟩
  · exact ⟨fun o ho => ⟨o, ho, rfl⟩, rfl⟩

theorem ne_of_mem_removeKey {name s : String} {es : List (Value × Value)} {e : Value × Value}
    (h : e ∈ Value.removeKey name es) (hs : e.1 = .text s) : s ≠ name := by
  have hne := (List.mem_filter.1 h).2
  rw [hs, Value.sameKey_texts] at hne
  rintro rfl
  simp at hne

/-- parts that make a sane declaration -/
structure SaneParts (parts : Parts) : Prop where
  manageable : Parts.Manageable parts
  names : ∀ f ∈ parts, ∀ s, f.1 = .text s → s ∉ ["self", "name", "block"]
  inside : ∀ ro inner, Value.field? "attributes" parts = some (.map ro inner) → Unclashing inner

theorem saneParts_type {v : Value} (h : v.Manageable) : SaneParts [(.text "type", v)] := by
  have htype : Value.NamedEntry (.text "type", v) := ⟨⟨_, rfl⟩, fun h => absurd (Value.text.inj h) (by decide)⟩
  constructor
  case manageable => exact List.forall_mem_singleton.2 ⟨htype, h⟩
  case names =>
    intro f hf s hs
    rw [List.mem_singleton.1 hf] at hs
    cases hs
    decide
  case inside =>
    intro ro inner h
    rw [show [(Value.text "type", v)] = Fields.entries [("type", v)] from rfl, Value.field?_entries] at h
    cases h

section Configurations

variable {name : Value} (hname : name.Showable)

include hname

theorem refusable_configParts {config : Value} (hc : config.Manageable) (hu : Unclashing [(name, config)]) :
    Refusable SaneParts (configParts name config) := by
  unfold configParts
  split
  · exact ⟨Parts.manageable_nil, by simp, by rintro ro inner ⟨⟩⟩
  · next ro es =>
    cases hu with
    | intro names inside =>
      exact ⟨hc.parts, names _ List.mem_cons_self ro es rfl,
        fun ro' inner => inside _ List.mem_cons_self ro es ro' inner rfl⟩
  · exact refusable_ite (fun _ => saneParts_type hc) fun _ => refusable_refuse_plain hname _

theorem refusable_requiredFlag (required : Option Value) : Refusable (fun _ => True) (requiredFlag name required) := by
  unfold requiredFlag
  split
  · trivial
  · exact refusable_refuse_plain hname _

theorem refusable_nestedBlock {nested : Option Value} (h : ∀ ro es, nested = some (.map ro es) → Configs es) :
    Refusable (fun b => b = .none ∨ ∃ es, b = .document es ∧ Configs es) (nestedBlock name nested) := by
  unfold nestedBlock
  split
  · exact .inl rfl
  · exact .inr ⟨_, rfl, h _ _ rfl⟩
  · exact refusable_refuse_plain hname _

end Configurations

/-- what is left of sane parts, once the others are taken out, are names that no other part goes by -/
theorem SaneParts.others {parts : Parts} (h : SaneParts parts) {e : Value × Value}
    (he : e ∈ Value.removeKey "attributes" (Value.removeKey "type" (Value.removeKey "required" parts))) :
    ∃ s, e.1 = .text s ∧ s ∉ Builder.partNames := by
  have htyped : e ∈ Value.removeKey "type" (Value.removeKey "required" parts) := List.mem_of_mem_filter he
  have hgiven : e ∈ parts := List.mem_of_mem_filter (List.mem_of_mem_filter htyped)
  obtain ⟨s, hs⟩ := (h.manageable e hgiven).1.text
  have htype : s ≠ "type" := ne_of_mem_removeKey htyped hs
  have hother := h.names e hgiven s hs
  refine ⟨s, hs, ?_⟩
  simp only [Builder.partNames, List.mem_cons, List.not_mem_nil, or_false, not_or] at hother ⊢
  exact ⟨hother.1, hother.2.1, htype, hother.2.2⟩

/-- a configuration is turned into a declaration that is built or refused, or it is refused itself -/
theorem refusable_ofConfig {known : List Definition} {name config : Value} (hname : ∃ s, name = .text s)
    (hc : config.Manageable) (hu : Unclashing [(name, config)]) :
    Refusable Declaration.Sane (Declaration.ofConfig .builtin known name config) := by
  have hshowable : name.Showable := by
    obtain ⟨s, rfl⟩ := hname
    exact Value.showable_text s
  rw [ofConfig_eq]
  refine refusable_bind (refusable_configParts hshowable hc hu) fun parts hparts => ?_
  unfold declarationOf
  dsimp only [Parts.pop]
  have huntyped := hparts.manageable.without "required"
  have hunnested := huntyped.without "type"
  have hleft := hunnested.without "attributes"
  have hinner (ro : Bool) (es : List (Value × Value))
      (h : Parts.given (Value.field? "attributes" (Value.removeKey "type" (Value.removeKey "required" parts))) =
        some (.map ro es)) : Configs es := by
    have hfield := field?_of_given h
    have hmap := hunnested.field hfield
    rw [Value.field?_removeKey (by decide), Value.field?_removeKey (by decide)] at hfield
    exact ⟨hmap.parts, hparts.inside ro es hfield⟩
  refine refusable_bind (refusable_requiredFlag hshowable _) fun required _ => ?_
  refine refusable_bind (refusable_nestedBlock hshowable hinner) fun block hblock => ?_
  refine refusable_bind (refusable_castDefaultOption hshowable (fun v hv => huntyped.field (field?_of_given hv)) hleft)
    fun options ⟨hkeys, hdefault⟩ => ?_
  constructor
  case name => exact hname
  case type =>
    dsimp only
    cases ht : Parts.given (Value.field? "type" (Value.removeKey "required" parts)) with
    | none => exact .inl rfl
    | some v =>
      have hv := huntyped.field (field?_of_given ht)
      refine .inr ⟨v, ?_, hv⟩
      rw [Option.map_some, Option.getD_some]
      cases v with
      | schema h => exact absurd hv.data.here id
      | _ => rfl
  case keys =>
    intro o ho
    obtain ⟨e, he, hk⟩ := hkeys o ho
    obtain ⟨s, hs, hother⟩ := hparts.others he
    exact ⟨s, hk.trans hs, hother⟩
  case options =>
    dsimp only
    rw [hdefault]
    exact hleft.without _
  case block => exact hblock

namespace Builder

/-- **An option that goes by the name of another part of a declaration is an ill-typed call**, whatever else is
declared -/
theorem declare_of_clash {w : Workshop} {left : Nat} {b : Builder} {d : Declaration} {s : String}
    (hs : s ∈ partNames) (h : ∃ o ∈ d.options, o.1.text? = some s) : declare w left b d = .error .illTyped := by
  obtain ⟨o, ho, hos⟩ := h
  have hnames : checkOptionNames d.options = .error .illTyped := by
    refine if_neg fun hall => ?_
    have hfree := List.all_eq_true.1 hall o ho
    rw [hos] at hfree
    simp [hs] at hfree
  rw [declare, prepare_eq, hnames]
  rfl

/-- a key that is a text has itself for its normal form -/
theorem refusable_checkName {b : Builder} {name : Value} (h : ∃ s, name = .text s) :
    Refusable (fun _ => True) (b.checkName name) := by
  obtain ⟨s, rfl⟩ := h
  unfold checkName
  show Refusable _ (Except.ok s >>= fun name => _)
  rw [ok_bind]
  refine refusable_ite (fun _ => refusable_refuse _) fun _ => refusable_ite (fun _ => refusable_refuse _) fun _ => ?_
  exact refusable_ite (fun _ => refusable_refuse _) fun _ => refusable_ite (fun _ => refusable_refuse _) fun _ => trivial

theorem refusable_prepare {b : Builder} {d : Declaration} (h : d.Sane) :
    Refusable (fun p => p.options = Value.removeKey "default" d.options) (prepare .builtin b d) := by
  have hchecked : checkOptionNames d.options = .ok () := by
    refine if_pos (List.all_eq_true.2 fun o ho => ?_)
    obtain ⟨s, hs, hfree⟩ := h.keys o ho
    rw [hs]
    simpa [Value.text?] using hfree
  have hshowable : d.name.Showable := by
    obtain ⟨s, hs⟩ := h.name
    exact hs ▸ Value.showable_text s
  have hscalar (name : String) : Refusable (fun _ => True) (declaredScalar .builtin name d) := by
    unfold declaredScalar
    rcases h.type with ht | ⟨v, ht, hv⟩
    · rw [ht]
      trivial
    · rw [ht]
      exact refusable_bind (refusable_resolve hv.showable) fun _ _ => trivial
  rw [prepare_eq, hchecked, ok_bind]
  refine refusable_ite (fun _ => refusable_refuse_plain hshowable _) fun _ => ?_
  refine refusable_bind (refusable_checkName h.name) fun name _ => refusable_bind (hscalar name) fun scalar _ => ?_
  exact refusable_ite (fun _ => refusable_refuse _) fun _ => snd_popDefault _

theorem refusable_declare {w : Workshop} (hw : w.registry = .builtin) {left : Nat} {b : Builder} {d : Declaration}
    (h : d.Sane) (hblock : ∀ b name, Refusable (fun _ => True) (buildBlock w left b name d.block)) :
    Refusable (fun _ => True) (declare w left b d) := by
  unfold declare
  rw [hw]
  refine refusable_bind (refusable_prepare h) fun p hp => refusable_bind (hblock b p.name) fun block _ => ?_
  have hoptions : Parts.Manageable p.options := hp ▸ h.options
  exact refusable_bind (refusable_buildRules hoptions.reportable fun o ho => (hoptions o ho).2.configurable.keyed)
    fun _ _ => trivial

theorem refusable_declareDocument {w : Workshop} (hw : w.registry = .builtin) {left : Nat}
    (hblocks : ∀ es, Configs es → ∀ b name, Refusable (fun _ => True) (buildBlock w left b name (.document es)))
    {configs : List (Value × Value)} (h : Configs configs) {b : Builder} :
    Refusable (fun _ => True) (declareDocument w left b configs) := by
  induction configs generalizing b with
  | nil =>
    rw [declareDocument]
    trivial
  | cons e configs ih =>
    obtain ⟨name, config⟩ := e
    obtain ⟨hname, hconfig⟩ := h.manageable _ List.mem_cons_self
    rw [declareDocument, hw]
    refine refusable_bind (refusable_ofConfig hname.text hconfig (h.unclashing.subset (by simp))) fun d hd => ?_
    refine refusable_bind (refusable_declare hw hd fun b name => ?_) fun b _ => ?_
    · rcases hd.block with hb | ⟨es, hb, hes⟩
      · rw [hb, buildBlock]
        trivial
      · rw [hb]
        exact hblocks es hes b name
    · exact ih ⟨fun e he => h.manageable e (List.mem_cons_of_mem _ he), h.unclashing.subset (List.subset_cons_self _ _)⟩

/-- **The configurations inside an attribute are built or refused**, as deep as they go -/
theorem refusable_buildBlock {w : Workshop} (hw : w.registry = .builtin) (left : Nat) (es : List (Value × Value))
    (h : Configs es) (b : Builder) (name : String) :
    Refusable (fun _ => True) (buildBlock w left b name (.document es)) := by
  induction left generalizing es b name with
  | zero =>
    unfold buildBlock
    exact refusable_refuse _
  | succ left ih =>
    unfold buildBlock
    exact refusable_bind (refusable_declareDocument hw ih h) fun _ _ => trivial

end Builder

/-! ## Documents -/

namespace Definition

theorem refusable_documentSettings {v : Option Value} (h : ∀ x, v = some x → x.Manageable) :
    Refusable (fun _ => True) (documentSettings v) := by
  unfold documentSettings
  split
  · trivial
  · next ro es hes =>
    have hparts := (h _ (field?_of_given hes)).parts
    have hnames : ∃ names, es.mapM (fun e => e.1.text?) = some names := by
      clear hes
      induction es with
      | nil => exact ⟨[], rfl⟩
      | cons e es ih =>
        obtain ⟨s, hs⟩ := (hparts e List.mem_cons_self).1.text
        obtain ⟨names, hn⟩ := ih fun f hf => hparts f (List.mem_cons_of_mem e hf)
        refine ⟨s :: names, ?_⟩
        rw [List.mapM_cons, hn, hs]
        rfl
    obtain ⟨names, hn⟩ := hnames
    have hread : ∃ o, Settings.read es = .ok o := by
      unfold Settings.read
      simp only [hn]
      split <;> exact ⟨_, rfl⟩
    obtain ⟨o, ho⟩ := hread
    rw [ho, ok_bind]
    cases o with
    | ok s => trivial
    | error problems => exact refusable_refuse _
  · exact refusable_refuse _

theorem refusable_documentName {given : Option String} {field : Option Value} (h : ∀ x, field = some x → x.Manageable) :
    Refusable (fun _ => True) (documentName given field) := by
  unfold documentName
  split
  · trivial
  · next v _ hv => exact refusable_plain (h v (Option.filter_eq_some_iff.1 hv).1).showable
  · trivial

/-- a document is taken out of its envelope, or it is refused -/
theorem refusable_draft {v : Value} (hv : v.Manageable) (name : Option String) (settings : Option Settings) :
    Refusable (fun p => Parts.Manageable p.configs) (draft v name settings) := by
  unfold draft
  split
  · next ro es =>
    have hes := hv.parts
    split
    · next inner hinner =>
      have hconfigs : Parts.Manageable inner := by
        unfold envelope? at hinner
        split at hinner
        · obtain ⟨x, hx, hentries⟩ := Option.bind_eq_some_iff.1 hinner
          have hm := hes.field hx
          cases x with
          | map ro' fs => cases hentries; exact hm.parts
          | _ => cases hentries
        · cases hinner
      have hname : Refusable (fun _ => True) (documentName name (Value.field? "name" es)) :=
        refusable_documentName fun x hx => hes.field hx
      cases settings with
      | some s =>
        refine refusable_bind (refusable_ok trivial : Refusable (fun _ => True) (.ok s)) fun s _ => ?_
        exact refusable_bind hname fun _ _ => hconfigs
      | none =>
        refine refusable_bind (refusable_documentSettings fun x hx => hes.field hx) fun s _ => ?_
        exact refusable_bind hname fun _ _ => hconfigs
    · exact refusable_bind (refusable_documentName (by simp)) fun _ _ => hes
  · exact refusable_refuse _

/-- **A document of plain data gives a definition or is refused**, unless an option goes by the name of another part
of a declaration, an integer is too long to be written, the reading of a pattern ends in a fault, or something is
nested too deep. -/
theorem ofDocument_ok_or_refused {w : Workshop} (hw : w.registry = .builtin) (n : Nat) {v : Value} (hv : v.Manageable)
    (name : Option String) (settings : Option Settings)
    (hclash : ∀ p, draft v name settings = .ok p → Unclashing p.configs) :
    (∃ d, ofDocument w n v name settings = .ok d) ∨ ∃ e, ofDocument w n v name settings = .error (.definition e) := by
  have hdraft := refusable_draft hv name settings
  have hall : Refusable (fun _ => True) (ofDocument w n v name settings) := by
    unfold ofDocument
    cases hp : draft v name settings with
    | error f =>
      rw [hp] at hdraft
      exact hdraft
    | ok p =>
      rw [hp] at hdraft
      have hconfigs : Configs p.configs := ⟨hdraft, hclash p hp⟩
      rw [ok_bind]
      exact refusable_bind
        (Builder.refusable_declareDocument hw (Builder.refusable_buildBlock hw _) hconfigs) fun _ _ => trivial
  cases ho : ofDocument w n v name settings with
  | ok d => exact .inl ⟨d, rfl⟩
  | error f =>
    rw [ho] at hall
    obtain ⟨e, rfl⟩ := hall
    exact .inr ⟨e, rfl⟩

end Definition

/-! ## Examples -/

def builtinWorkshop : Workshop := ⟨.builtin, [], fun _ _ => .ok .null⟩

def oneOption (option : String) (v : Value) : Value :=
  .ofFields [("quantity", .ofFields [(option, v)])]

theorem draft_oneOption (option : String) (v : Value) : Definition.draft (oneOption option v) none none =
    .ok ⟨"parameters", .default, Fields.entries [("quantity", .ofFields [(option, v)])]⟩ := by
  have henvelope : Definition.envelope? (Fields.entries [("quantity", .ofFields [(option, v)])]) = none := by
    simp [Definition.envelope?, Definition.envelopeKeys]
  simp only [oneOption, Value.ofFields_eq, Definition.draft] at henvelope ⊢
  rw [henvelope]
  rfl

/-- an option that goes by the name of another part is no refusal -/
theorem name_option_not_refused :
    Definition.ofDocument builtinWorkshop 1 (oneOption "name" (.text "x")) none none = .error .illTyped := by
  have hdeclaration : Declaration.ofConfig .builtin [] (.text "quantity") (.ofFields [("name", .text "x")]) =
      .ok ⟨false, .text "quantity", .none, .none, Fields.entries [("name", .text "x")]⟩ := by
    rw [ofConfig_eq]
    show declarationOf .builtin [] (.text "quantity") (Fields.entries [("name", .text "x")]) = _
    unfold declarationOf
    simp only [Parts.pop_entries]
    rfl
  rw [Definition.ofDocument, draft_oneOption, ok_bind, Fields.entries_cons, Fields.entries_nil, Builder.declareDocument]
  show (Declaration.ofConfig .builtin [] (.text "quantity") (.ofFields [("name", .text "x")]) >>= _) >>= _ = _
  rw [hdeclaration, ok_bind, Builder.declare_of_clash (s := "name") (by decide) ⟨_, List.mem_cons_self, rfl⟩]
  rfl

theorem manageable_ofFields {fs : Fields} (hshallow : (Value.ofFields fs).Shallow)
    (h : ∀ f ∈ fs, Value.OrdinaryPattern f.1 ∧ f.1 ≠ "json_schema" ∧ f.2.Manageable) :
    (Value.ofFields fs).Manageable := by
  refine ⟨?_, hshallow⟩
  rw [Value.ofFields_eq, Fields.entries]
  refine Value.Throughout.map_iff.2 ⟨fun e he => ?_, fun e he => ?_⟩
  · obtain ⟨f, hf, rfl⟩ := List.mem_map.1 he
    exact ⟨⟨f.1, rfl⟩, fun hkey => absurd (Value.text.inj hkey) (h f hf).2.1⟩
  · obtain ⟨f, hf, rfl⟩ := List.mem_map.1 he
    exact ⟨Value.Throughout.text_iff.2 (h f hf).1, (h f hf).2.2.data⟩

/-- a document whose option is misspelled gives a definition or is refused -/
theorem misspelled_ok_or_refused :
    (∃ d, Definition.ofDocument builtinWorkshop 1 (oneOption "lenght" (.int 3)) none none = .ok d) ∨
      ∃ e, Definition.ofDocument builtinWorkshop 1 (oneOption "lenght" (.int 3)) none none = .error (.definition e) := by
  have ordinary {s : String} (hgroups : s.toList.count '(' ≤ 100) (h : (JsonSchema.patternFault? s).isNone = true) :
      Value.OrdinaryPattern s := ⟨hgroups, Option.isNone_iff_eq_none.1 h⟩
  have hint : (Value.int 3).Manageable :=
    ⟨.of_leaf (show (intText? 3).isSome by decide) (by rintro x ⟨⟩), Nat.zero_le _⟩
  have hconfig : (Value.ofFields [("lenght", .int 3)]).Manageable :=
    manageable_ofFields (by decide)
      (List.forall_mem_singleton.2 ⟨ordinary (by decide) (by decide +kernel), by decide, hint⟩)
  have hdoc : (oneOption "lenght" (.int 3)).Manageable :=
    manageable_ofFields (by decide)
      (List.forall_mem_singleton.2 ⟨ordinary (by decide) (by decide +kernel), by decide, hconfig⟩)
  refine Definition.ofDocument_ok_or_refused rfl 1 hdoc none none fun p hp => ?_
  rw [draft_oneOption] at hp
  cases hp
  refine .intro ?_ ?_
  · rintro e he ro parts hparts f hf s hs
    rw [List.mem_singleton.1 he] at hparts
    cases hparts
    rw [List.mem_singleton.1 hf] at hs
    cases hs
    decide
  · rintro e he ro parts ro' inner hparts hinner
    rw [List.mem_singleton.1 he] at hparts
    cases hparts
    change Value.field? "attributes" (Fields.entries [("lenght", .int 3)]) = _ at hinner
    rw [Value.field?_entries] at hinner
    cases hinner

end Intake
