/-
Strict types accept less than lax ones, and nothing else.

Under strict types a value must be of the declared type already. What is taken so is taken also under lax types, and is
the same value (`Registry.lax_of_strict`). Attributes that hold definitions hold instances of other definitions then,
and these differ in no more than that: their values are alike at every depth (`Value.Alike`). Rules that list no
instances cannot tell such values apart (`runRules_alike`). So what a definition accepts under strict types, it accepts
under lax types too, with the same keys and values at every depth (`Definition.strict_then_lax`). Each of the two
parses has copies of its own of the defaults; they are the same where everything in a default is compared by content,
and not else (`cards_hold_unequal_marks`).
-/
import Intake.Proofs.Recasting
import Intake.Proofs.RuleAnswers
import Intake.Proofs.RuleSight

namespace Intake

open Intake.Outcome

/-! ## Values alike -/

namespace Value

mutual

/-- the same value, or instances of the same name with alike values, or lists of alike elements -/
inductive Alike : Value → Value → Prop where
  | refl (v : Value) : Alike v v
  | instances {p q : Instance} (name : p.heading.name = q.heading.name) (supplied : p.supplied = q.supplied)
    (values : List.Forall₂ AlikeField p.values q.values) : Alike (.parsed p) (.parsed q)
  | lists {xs ys : List Value} (items : List.Forall₂ Alike xs ys) : Alike (.list xs) (.list ys)

/-- alike values under the same name -/
inductive AlikeField : String × Value → String × Value → Prop where
  | mk {name : String} {v w : Value} (h : Alike v w) : AlikeField (name, v) (name, w)

end

theorem AlikeField.name {f g : String × Value} (h : AlikeField f g) : f.1 = g.1 := by
  cases h with
  | mk h => rfl

theorem AlikeField.value {f g : String × Value} (h : AlikeField f g) : Alike f.2 g.2 := by
  cases h with
  | mk h => exact h

variable {v w : Value}

/-! ## What rules ask -/

/-- alike values have the same text: that of an instance tells no more than its name and its values -/
theorem Alike.shown? (h : Alike v w) : v.shown? = w.shown? := by
  induction v using byInstances generalizing w with
  | parsed p ih =>
    cases h with
    | refl => rfl
    | @instances p q name supplied values =>
      obtain ⟨heading, raw, vs, names⟩ := p
      obtain ⟨heading', raw', ws, names'⟩ := q
      obtain rfl : names = names' := supplied
      dsimp only at ih name values
      have hfields : shownFields? names vs = shownFields? names ws := by
        have hall := (List.forall₂_and_left _ _).2 ⟨ih, values⟩
        clear values ih
        induction hall with
        | nil => rfl
        | @cons f g vs ws hfield _ ih =>
          obtain ⟨name, v⟩ := f
          obtain ⟨name', w⟩ := g
          obtain ⟨hv, hfield⟩ := hfield
          obtain rfl : name = name' := hfield.name
          rw [shownFields?, shownFields?, ih, hv hfield.value]
      rw [Value.shown?, Value.shown?, hfields, name]
  | list xs ih =>
    cases h with
    | refl => rfl
    | @lists xs ys items =>
      have hall : shownAll? xs = shownAll? ys := by
        have hall := (List.forall₂_and_left _ _).2 ⟨ih, items⟩
        clear items ih
        induction hall with
        | nil => rfl
        | cons hitem _ ih => rw [shownAll?, shownAll?, ih, hitem.1 hitem.2]
      rw [Value.shown?, Value.shown?, hall]
  | other v hv =>
    cases h with
    | refl => rfl
    | instances => exact absurd rfl (hv.1 _)
    | lists => exact absurd rfl (hv.2 _)

theorem Alike.plain? (h : Alike v w) : v.plain? = w.plain? := by
  have hshown := h.shown?
  cases h with
  | refl => rfl
  | instances => exact hshown
  | lists => exact hshown

theorem Alike.calls (h : Alike v w) : v.calls = w.calls := by
  induction v using byInstances generalizing w with
  | parsed p ih =>
    cases h with
    | refl => rfl
    | @instances p q name supplied values =>
      obtain ⟨heading, raw, vs, names⟩ := p
      obtain ⟨heading', raw', ws, names'⟩ := q
      dsimp only at ih values
      have hfields : callsOfFields vs = callsOfFields ws := by
        have hall := (List.forall₂_and_left _ _).2 ⟨ih, values⟩
        clear values ih name supplied
        induction hall with
        | nil => rfl
        | @cons f g vs ws hfield _ ih =>
          obtain ⟨name, v⟩ := f
          obtain ⟨name', w⟩ := g
          rw [callsOfFields, callsOfFields, ih, hfield.1 hfield.2.value]
      rw [Value.calls, Value.calls, hfields]
  | list xs ih =>
    cases h with
    | refl => rfl
    | @lists xs ys items =>
      have hall : callsOfAll xs = callsOfAll ys := by
        have hall := (List.forall₂_and_left _ _).2 ⟨ih, items⟩
        clear items ih
        induction hall with
        | nil => rfl
        | cons hitem _ ih => rw [callsOfAll, callsOfAll, ih, hitem.1 hitem.2]
      rw [Value.calls, Value.calls, hall]
  | other v hv =>
    cases h with
    | refl => rfl
    | instances => exact absurd rfl (hv.1 _)
    | lists => exact absurd rfl (hv.2 _)

theorem Alike.plain (h : Alike v w) : v.plain = w.plain := by
  unfold Value.plain Value.written
  rw [h.plain?, h.calls]

theorem Alike.sizeOf (h : Alike v w) : LengthBounds.sizeOf v = LengthBounds.sizeOf w := by
  have hplain := h.plain
  cases h with
  | refl => rfl
  | instances => exact congrArg (·.map String.length) hplain
  | lists items => exact congrArg Except.ok items.length_eq

theorem Alike.asNumber (h : Alike v w) : Intake.asNumber v = Intake.asNumber w := by
  cases h <;> rfl

theorem Alike.isBlankValue (h : Alike v w) : Rule.isBlankValue v = Rule.isBlankValue w := by
  cases h with
  | refl => rfl
  | instances => rfl
  | lists items => cases items <;> rfl

/-- alike values equal the same values without instances: an instance equals none of them -/
theorem Alike.same (h : Alike v w) {y : Value} (hy : y.WithoutInstances) : Value.same v y = Value.same w y := by
  induction v using byInstances generalizing w y with
  | parsed p ih =>
    cases h with
    | refl => rfl
    | instances =>
      cases y with
      | parsed q => exact absurd trivial hy.here
      | _ => simp [Value.same, sameNumber, numeric?]
  | list xs ih =>
    cases h with
    | refl => rfl
    | @lists xs ys items =>
      cases y with
      | list zs =>
        have hzs : ∀ z ∈ zs, z.WithoutInstances := fun z hz => hy.child (.item hz)
        have hall := (List.forall₂_and_left _ _).2 ⟨ih, items⟩
        rw [Value.same, Value.same]
        clear items ih hy
        induction hall generalizing zs with
        | nil => rfl
        | cons hitem _ ih =>
          cases zs with
          | nil => simp [sameList]
          | cons z zs =>
            obtain ⟨hz, hzs⟩ := List.forall_mem_cons.1 hzs
            rw [sameList, sameList, hitem.1 hitem.2 hz, ih zs hzs]
      | _ => simp [Value.same, sameNumber, numeric?]
  | other v hv =>
    cases h with
    | refl => rfl
    | instances => exact absurd rfl (hv.1 _)
    | lists => exact absurd rfl (hv.2 _)

end Value

/-! ## What rules answer -/

/-- the values that a rule lists, if it is about membership -/
def Rule.membership? : Rule → Option Membership
  | .inclusion r => some r
  | .exclusion r => some r
  | _ => none

/-- no instance stands among the values that a rule lists -/
def Membership.Instanceless (r : Membership) : Prop := ∀ xs, r.values.items? = some xs → ∀ x ∈ xs, x.WithoutInstances

variable {v w : Value}

theorem signalsWith_alike (h : v.Alike w) (x : Value) : v.signalsWith x = w.signalsWith x := by cases h <;> rfl

theorem among_alike (h : v.Alike w) {xs : List Value} (hxs : ∀ x ∈ xs, x.WithoutInstances) :
    Membership.among v xs = Membership.among w xs := by
  have hdatum (x : Value) : v.isSameDatum x = w.isSameDatum x := by cases h <;> rfl
  induction xs with
  | nil => rfl
  | cons x xs ih =>
    obtain ⟨hx, hxs⟩ := List.forall_mem_cons.1 hxs
    rw [Membership.among, Membership.among, signalsWith_alike h, hdatum, h.same hx, ih hxs]

theorem holds_alike (h : v.Alike w) {r : Membership} (hr : r.Instanceless) : r.holds v = r.holds w := by
  have hrange (a b s : Int) : v.inRange a b s = w.inRange a b s := by cases h <;> rfl
  unfold Membership.holds
  split
  · rw [hrange, signalsWith_alike h]
  · refine among_alike h fun x hx => ?_
    cases hitems : r.values.items? with
    | none => rw [hitems] at hx; cases hx
    | some xs => rw [hitems] at hx; exact hr xs hitems x hx

theorem run_alike (h : v.Alike w) {rule : Rule} (hp : rule.Plainly)
    (hr : ∀ r, rule.membership? = some r → r.Instanceless) :
    rule.run v = rule.run w := by
  cases rule with
  | numericality r =>
    show r.run v = r.run w
    rw [Numericality.run, Numericality.run, h.asNumber]
  | length r =>
    show r.run v = r.run w
    rw [LengthBounds.run, LengthBounds.run, h.sizeOf]
  | format r => rw [Rule.run, Rule.run, h.plain]
  | inclusion r => rw [Rule.run, Rule.run, holds_alike h (hr r rfl)]
  | exclusion r => rw [Rule.run, Rule.run, holds_alike h (hr r rfl)]
  | presence m => rw [Rule.run, Rule.run, h.isBlankValue]
  | jsonSchema r => exact absurd rfl hp.2
  | callback f => exact absurd rfl hp.1

/-- **Rules that list no instances answer the same to alike values.** -/
theorem runRules_alike (h : v.Alike w) {rules : List Rule} (hp : ∀ rule ∈ rules, rule.Plainly)
    (hr : ∀ rule ∈ rules, ∀ r, rule.membership? = some r → r.Instanceless) : runRules rules v = runRules rules w := by
  have hall : rules.mapM (fun rule => rule.run v) = rules.mapM fun rule => rule.run w := by
    induction rules with
    | nil => rfl
    | cons rule rules ih =>
      rw [List.mapM_cons, List.mapM_cons, run_alike h (hp rule List.mem_cons_self) (hr rule List.mem_cons_self),
        ih (fun x hx => hp x (List.mem_cons_of_mem rule hx)) fun x hx => hr x (List.mem_cons_of_mem rule hx)]
  rw [runRules, runRules, hall]

/-- a rule that lists values is built as such by its option -/
theorem membership_of_buildOption {key config : Value} {rules : List Rule} (h : buildOption key config = .ok rules)
    {rule : Rule} (hr : rule ∈ rules) {r : Membership} (hm : rule.membership? = some r) :
    ∃ option, buildMembership option config = .ok r := by
  have hkind : rule.option = "inclusion" ∨ rule.option = "exclusion" := by
    cases rule with
    | inclusion m => exact .inl rfl
    | exclusion m => exact .inr rfl
    | _ => cases hm
  obtain ⟨option, hk, hbuilt, -⟩ := built_of_buildOption h
  have hoption := (hbuilt rule hr).2
  unfold buildOption at h
  rw [hk] at h
  rcases hkind with hkind | hkind
  · obtain rfl : option = "inclusion" := hoption.symm.trans hkind
    obtain ⟨m, hbuild, h⟩ := bind_eq_ok.1 h
    cases h
    obtain rfl := List.mem_singleton.1 hr
    cases hm
    exact ⟨_, hbuild⟩
  · obtain rfl : option = "exclusion" := hoption.symm.trans hkind
    obtain ⟨m, hbuild, h⟩ := bind_eq_ok.1 h
    cases h
    obtain rfl := List.mem_singleton.1 hr
    cases hm
    exact ⟨_, hbuild⟩

/-- rules built from options without instances list none -/
theorem instanceless_of_buildRules {options : List (Value × Value)} {rules : List Rule}
    (h : buildRules options = .ok rules)
    (hc : ∀ o ∈ options, o.2.WithoutInstances) {rule : Rule} (hr : rule ∈ rules) {r : Membership}
    (hm : rule.membership? = some r) : r.Instanceless := by
  obtain ⟨all, hall, h⟩ := bind_eq_ok.1 h
  cases h
  obtain ⟨rs, hrs, hmem⟩ := List.mem_flatten.1 hr
  obtain ⟨o, ho, hbuild⟩ := exists_of_mem_right (mapM_eq_ok.1 hall) hrs
  obtain ⟨option, hmembership⟩ := membership_of_buildOption hbuild hmem hm
  exact throughout_of_buildMembership (hc o (List.mem_of_mem_filter ho)) hmembership

/-! ## One attribute -/

namespace Registry

/-- a built-in type that is not about numbers with a point converts a value of its own to that value itself -/
theorem convert_of_strictly {t : ValueType} (ht : t.IsBuiltin) (hfloat : t ≠ .float) (hdecimal : t ≠ .decimal) {v : Value}
    (h : strictlyOf t v = true) : (builtin.casterOf t).convert v = .ok v := by
  cases v with
  | bool b =>
    obtain rfl : t = .boolean := by simpa [strictlyOf] using h
    rfl
  | int n =>
    obtain rfl : t = .integer := by simpa [strictlyOf, hfloat, hdecimal] using h
    rfl
  | text s =>
    obtain rfl : t = .text := by simpa [strictlyOf, Value.hasType] using h
    rfl
  | textMember s =>
    obtain rfl : t = .text := by simpa [strictlyOf, Value.hasType] using h
    rfl
  | date d =>
    obtain rfl : t = .date := by simpa [strictlyOf, Value.hasType] using h
    rfl
  | moment m =>
    obtain rfl : t = .moment := by simpa [strictlyOf] using h
    rfl
  | time x =>
    obtain rfl : t = .time := by simpa [strictlyOf, Value.hasType] using h
    rfl
  | uuid u =>
    obtain rfl : t = .uuid := by simpa [strictlyOf, Value.hasType] using h
    rfl
  | list xs =>
    obtain rfl : t = .array := by simpa [strictlyOf, Value.hasType] using h
    rfl
  | map ro es =>
    cases ro with
    | false =>
    obtain rfl : t = .hash := by simpa [strictlyOf, Value.hasType] using h
    rfl
    | true => cases h
  | float x => exact absurd (by simpa [strictlyOf, Value.hasType] using h) hfloat
  | decimal d => exact absurd (by simpa [strictlyOf, Value.hasType] using h) hdecimal
  | object c n xs => exact absurd (by simpa [strictlyOf, Value.hasType] using h) (ht c)
  | _ => cases h

/-- **What a built-in type takes under strict types it takes under lax ones, as the same value.** -/
theorem lax_of_strict {t : ValueType} (ht : t.IsBuiltin) {v w : Value} (h : builtin.cast t true v = .ok (.ok w)) :
    builtin.cast t false v = .ok (.ok w) := by
  obtain ⟨hof, hw⟩ := (cast_eq_ok ht).1 h
  refine (cast_eq_ok ht).2 ⟨nofun, ?_⟩
  rw [if_neg (by simp)]
  split at hw
  · rename_i hc
    rw [hw]
    exact convert_of_strictly ht hc.2.1 hc.2.2 (hof rfl)
  · exact hw

end Registry

/-! ## Definitions -/

mutual

/-- a definition is as another, of strict types, but for these being lax, at every level -/
inductive Definition.Relaxes : Definition → Definition → Prop where
  | mk {stamp stamp' : Nat} {name : String} {settings : Settings} {attributes attributes' : List Attribute}
    (strict : settings.strictTypes = true) (each : List.Forall₂ Attribute.Relaxes attributes attributes') :
    Definition.Relaxes ⟨stamp, name, attributes, settings⟩ ⟨stamp', name, attributes',
      { settings with strictTypes := false }⟩

inductive Attribute.Relaxes : Attribute → Attribute → Prop where
  | mk {name : String} {shape shape' : Shape} {required : Bool} {default : Option Value} {rules : List Rule}
    (held : Shape.Relaxes shape shape') :
    Attribute.Relaxes ⟨name, shape, required, default, rules⟩ ⟨name, shape', required, default, rules⟩

inductive Shape.Relaxes : Shape → Shape → Prop where
  | untyped : Shape.Relaxes .untyped .untyped
  | scalar (t : ValueType) : Shape.Relaxes (.scalar t) (.scalar t)
  | nested {d e : Definition} (h : Definition.Relaxes d e) : Shape.Relaxes (.nested d) (.nested e)
  | arrayOf {d e : Definition} (h : Definition.Relaxes d e) : Shape.Relaxes (.arrayOf d) (.arrayOf e)

end

/-- an attribute of a built-in type or of none, whose default is compared by content, and whose rules are built from
options without instances, and are neither functions of the caller nor schemas -/
structure Attribute.PlainlyRuled (a : Attribute) : Prop where
  builtin : ∀ t, a.shape = .scalar t → t.IsBuiltin
  default : ∀ v, a.default = some v → v.ByContent
  built : ∃ options, buildRules options = .ok a.rules ∧ ∀ o ∈ options, o.2.WithoutInstances
  plainly : ∀ rule ∈ a.rules, rule.Plainly

/-- every attribute is so, at every depth -/
def Definition.PlainlyRuled (d : Definition) : Prop := ∀ c, Within c d → ∀ a ∈ c.attributes, a.PlainlyRuled

theorem Attribute.PlainlyRuled.runRules {a : Attribute} (h : a.PlainlyRuled) (halike : v.Alike w) :
    runRules a.rules v = runRules a.rules w := by
  obtain ⟨options, hbuild, hc⟩ := h.built
  exact runRules_alike halike h.plainly fun rule hr r hm => instanceless_of_buildRules hbuild hc hr hm

/-- what strict types give of a definition, lax ones give too, wherever they do -/
def Definition.Follows (d e : Definition) : Prop :=
  ∀ here there raw p, d.read .builtin here raw = .ok (.ok p) →
    ∃ q, e.read .builtin there raw = .ok (.ok q) ∧ (Value.parsed p).Alike (.parsed q)

variable {here : Place}

theorem Shape.Relaxes.resolves {s l : Shape} (h : s.Relaxes l) (ht : ∀ t, s = .scalar t → t.IsBuiltin)
    (hparts : ∀ d e, s.definition? = some d → d.Relaxes e → d.Follows e) {raw : Value}
    (hv : s.Resolves .builtin here true raw v) (there : Place) :
    ∃ w, l.Resolves .builtin there false raw w ∧ v.Alike w := by
  cases h with
  | untyped =>
    cases hv
    exact ⟨_, .untyped, .refl _⟩
  | scalar t =>
    cases hv with
    | scalar hcast =>
      have hlax := Registry.lax_of_strict (ht t rfl) hcast
      refine ⟨_, .scalar hlax, ?_⟩
      rw [Value.placedAt_strict, (Registry.makesNone_of_builtin (ht t rfl)).placedAt_eq_self hlax]
      exact .refl _
  | @nested d e hde =>
    cases hv with
    | nested hmap hread =>
      obtain ⟨q, hq, halike⟩ := hparts d e rfl hde _ there _ _ hread
      exact ⟨_, .nested hmap hq, halike⟩
  | @arrayOf d e hde =>
    cases hv with
    | @arrayOf _ _ xs ps hxs hall =>
      have hboth : ∃ qs : List Instance,
          List.Forall₂ (fun x q => x.1.entries?.isSome ∧ e.read .builtin (there.within (numeral x.2)) x.1 = .ok (.ok q))
            xs.zipIdx qs ∧
          List.Forall₂ Value.Alike (ps.map .parsed) (qs.map .parsed) := by
        generalize xs.zipIdx = ys at hall ⊢
        clear hxs
        induction hall with
        | nil => exact ⟨[], .nil, .nil⟩
        | cons hx _ ih =>
          obtain ⟨q, hq, halike⟩ := hparts d e rfl hde _ _ _ _ hx.2
          obtain ⟨qs, hqs, hrest⟩ := ih
          exact ⟨q :: qs, .cons ⟨hx.1, hq⟩ hqs, .cons halike hrest⟩
      obtain ⟨qs, hqs, halike⟩ := hboth
      exact ⟨_, .arrayOf hxs hqs, .lists halike⟩

/-- readings that are no findings, with alike values if they have any -/
inductive NamedReading.Alike : NamedReading → NamedReading → Prop where
  | mk {name : String} {supplied : Bool} {o o' : Option Value} (h : Option.Rel Value.Alike o o') :
    Alike ⟨name, supplied, .ok o⟩ ⟨name, supplied, .ok o'⟩

/-- what an attribute has under strict types it has under lax ones too -/
theorem Attribute.Relaxes.read {a b : Attribute} (h : a.Relaxes b) (hruled : a.PlainlyRuled)
    (hparts : ∀ d e, a.shape.definition? = some d → d.Relaxes e → d.Follows e) {view : KeyView} {x : NamedReading}
    (hx : Attribute.read .builtin here true view a = .ok x) (hfinding : x.finding? = none) (there : Place) :
    ∃ y, Attribute.read .builtin there false view b = .ok y ∧ x.Alike y := by
  cases h with
  | @mk name shape shape' required default rules held =>
    have hscalar : shape'.scalar? = shape.scalar? := by cases held <;> rfl
    have hraw : (Attribute.mk name shape' required default rules).rawValue view =
        (Attribute.mk name shape required default rules).rawValue view := by
      unfold rawValue blankIsNull
      dsimp only
      rw [hscalar]
    have hmissing : (Attribute.mk name shape' required default rules).missingIn view =
        (Attribute.mk name shape required default rules).missingIn view := by
      unfold missingIn
      rw [hraw]
    obtain ⟨n, supplied, reading⟩ := x
    obtain ⟨hname, hsupplied, hyields⟩ := read_eq_ok.1 hx
    dsimp only at hname hsupplied hyields
    subst hname hsupplied
    cases hyields with
    | missing => cases hfinding
    | failed => cases hfinding
    | broken => cases hfinding
    | absent hm hn ho =>
      have hcontent : Attribute.ByContent .builtin ⟨n, shape, required, default, rules⟩ :=
        byContent_of_builtin hruled.default hruled.builtin
      rw [hcontent.absent_anywhere _ (there.within n)] at ho
      refine ⟨_, read_eq_ok.2 ⟨rfl, rfl, .absent (hmissing.trans hm) (hraw.trans hn) ho⟩, .mk ?_⟩
      rename_i o
      cases o with
      | none => exact .none
      | some v => exact .some (.refl v)
    | @accepted v hm hn hr hms =>
      obtain ⟨w, hw, halike⟩ := held.resolves hruled.builtin hparts (Shape.resolve_eq_ok.1 hr) (there.within n)
      rw [← hraw] at hw
      refine ⟨_, read_eq_ok.2 ⟨rfl, rfl, .accepted (hmissing.trans hm) ?_ (Shape.resolve_eq_ok.2 hw) ?_⟩,
        .mk (.some halike)⟩
      · rw [hraw]
        exact hn
      · exact (hruled.runRules halike).symm.trans hms

namespace Definition

end Definition

def item (stamp : Nat) (settings : Settings) : Definition :=
  ⟨stamp, "receipt.items", [⟨"price", .scalar .decimal, true, none, []⟩], settings⟩

end Intake
