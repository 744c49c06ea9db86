/-
What of the input makes no difference.

A definition looks its attributes up by name, and sees no other keys of a mapping, nor how a key is spelled or where it
stands. So two mappings that have the same values under the declared names are read alike, and likewise the mappings
inside them, at every depth (`Definition.Equivalent`): both parses end in the same report, or both give instances with
the same keys and values, which differ in the raw input they keep and in nothing else, or the same fault breaks both
off, and then neither parse is calm (`Definition.parse_indifferent`). Each parse makes copies of its own of the
defaults, so this is of definitions under which nothing is compared by identity.

Under an attribute the same value must stand, and an equal one is not enough: the order of keys in a mapping that no
definition describes is seen in its text (`mapping_order_seen`).
-/
import Mathlib
import Intake.Proofs.Acceptance
import Intake.Proofs.Completion
import Intake.Proofs.RuleSight

namespace Intake

open Intake.Outcome

/-! ## Results without raw input -/

/-- an instance without the raw input it was read from, and so inside it -/
def Parsed.bare (p : Instance) : Instance := ⟨p.heading, .null, p.values.map fun f => (f.1, f.2.bare), p.supplied⟩

theorem Value.bare_parsed (p : Instance) : (Value.parsed p).bare = .parsed p.bare := by
  obtain ⟨heading, raw, values, supplied⟩ := p
  rw [Value.bare, Value.bareFields_eq_map]
  rfl

def NamedReading.bare (x : NamedReading) : NamedReading := ⟨x.name, x.supplied, x.reading.map (Option.map Value.bare)⟩

/-- instances that are the same but for raw input have the same keys, and under each name the same value but for raw
input -/
theorem Parsed.agree_of_bare {p q : Instance} (h : p.bare = q.bare) :
    p.keys = q.keys ∧ ∀ name, (p.valueOf name).bare = (q.valueOf name).bare := by
  have hkeys (p : Instance) : p.bare.keys = p.keys := by
    unfold keys pairs bare
    rw [List.filter_map, List.map_map]
    rfl
  have hvalue (p : Instance) (name : String) : p.bare.valueOf name = (p.valueOf name).bare := by
    unfold valueOf bare
    rw [List.find?_map]
    show (((p.values.find? (·.1 == name)).map _).map _).getD Value.null = _
    cases p.values.find? (·.1 == name) <;> rfl
  refine ⟨?_, fun name => ?_⟩
  · rw [← hkeys p, h, hkeys q]
  · rw [← hvalue p, h, hvalue q]

/-- readings are gathered alike, whatever raw input their values were read from -/
theorem gather_bare (h : Heading) (raw : Value) (rs : List NamedReading) :
    (gather h raw rs).map Parsed.bare = gather h .null (rs.map NamedReading.bare) := by
  have hfindings : findings (rs.map NamedReading.bare) = findings rs := by
    rw [findings, List.filterMap_map]
    refine List.filterMap_congr fun x _ => ?_
    obtain ⟨name, supplied, reading⟩ := x
    cases reading <;> rfl
  have hvalues : valuesOf (rs.map NamedReading.bare) = (valuesOf rs).map fun f => (f.1, f.2.bare) := by
    rw [valuesOf, valuesOf, List.filterMap_map, List.map_filterMap]
    refine List.filterMap_congr fun x _ => ?_
    obtain ⟨name, supplied, reading⟩ := x
    cases reading with
    | error f => rfl
    | ok o => cases o <;> rfl
  have hsupplied : suppliedOf (rs.map NamedReading.bare) = suppliedOf rs := by
    rw [suppliedOf, List.filter_map, List.map_map]
    rfl
  unfold gather
  rw [hfindings, hvalues, hsupplied]
  cases findings rs <;> rfl

/-- elements are gathered alike, whatever raw input they were read from -/
theorem gatherItems_bare (i : Nat) (rs : List (Reading Value)) :
    gatherItems i (rs.map (Except.map Value.bare)) = (gatherItems i rs).map (List.map Value.bare) := by
  induction rs generalizing i with
  | nil => rfl
  | cons x rs ih =>
    unfold gatherItems
    rw [List.map_cons]
    dsimp only
    rw [ih]
    cases x <;> cases gatherItems (i + 1) rs <;> rfl

/-! ## Steps that end alike -/

section Steps

variable {α β γ δ : Type}

/-- two steps whose results are the same up to a mapping end in the same fault, or both succeed -/
theorem map_eq_map {x : Outcome α} {y : Outcome β} {f : α → γ} {g : β → γ} (h : x.map f = y.map g) :
    (∃ e, x = .error e ∧ y = .error e) ∨ ∃ a b, x = .ok a ∧ y = .ok b ∧ f a = g b := by
  cases x with
  | error e =>
    cases y with
    | error e' => cases h; exact .inl ⟨e, rfl, rfl⟩
    | ok b => cases h
  | ok a =>
    cases y with
    | error e' => cases h
    | ok b => exact .inr ⟨a, b, rfl, rfl, Except.ok.inj h⟩

/-- steps over two lists end alike, if they do over the elements side by side -/
theorem mapM_eq_mapM {f f' : α → Outcome β} {g : β → γ} {xs ys : List α}
    (h : List.Forall₂ (fun x y => (f x).map g = (f' y).map g) xs ys) :
    (xs.mapM f).map (List.map g) = (ys.mapM f').map (List.map g) := by
  induction h with
  | nil => rfl
  | @cons x y xs ys hxy _ ih =>
    rw [List.mapM_cons, List.mapM_cons]
    rcases map_eq_map hxy with ⟨e, hx, hy⟩ | ⟨a, b, hx, hy, hab⟩
    · rw [hx, hy]
      rfl
    · rw [hx, hy, ok_bind, ok_bind]
      rcases map_eq_map ih with ⟨e, hxs, hys⟩ | ⟨as, bs, hxs, hys, hall⟩
      · rw [hxs, hys]
        rfl
      · rw [hxs, hys, ok_bind, ok_bind]
        exact congrArg Except.ok (congrArg₂ List.cons hab hall)

end Steps

variable {r : Registry} {here : Place} {strict : Bool}

/-- what is resolved alike is checked alike: rules do not see raw input -/
theorem checked_alike {rules : List Rule} (hp : ∀ rule ∈ rules, rule.Plainly) {x y : Reading Value}
    (h : x.map Value.bare = y.map Value.bare) :
    (checked rules x).map (Except.map Value.bare) = (checked rules y).map (Except.map Value.bare) := by
  cases x with
  | error f =>
    cases y with
    | error f' => cases h; rfl
    | ok w => cases h
  | ok v =>
    cases y with
    | error f' => cases h
    | ok w =>
      have hbare : v.bare = w.bare := Except.ok.inj h
      have hrules : runRules rules v = runRules rules w := by
        rw [← runRules_bare hp v, hbare, runRules_bare hp w]
      unfold checked
      dsimp only
      rw [hrules]
      cases runRules rules w with
      | error e => rfl
      | ok ms => cases ms <;> simp [Except.map, hbare]

/-- a nested parse of two mappings ends alike, if the parse does -/
theorem parseNested_alike {parse : Parsing} {v w : Value} (hv : v.entries?.isSome) (hw : w.entries?.isSome)
    (h : (parse v).map (Except.map Parsed.bare) = (parse w).map (Except.map Parsed.bare)) :
    (parseNested parse v).map (Except.map Value.bare) = (parseNested parse w).map (Except.map Value.bare) := by
  cases v with
  | map ro es =>
    cases w with
    | map ro' es' =>
      unfold parseNested
      dsimp only
      rcases map_eq_map h with ⟨e, hx, hy⟩ | ⟨a, b, hx, hy, hab⟩
      · rw [hx, hy]
      · rw [hx, hy, ok_bind, ok_bind]
        cases a with
        | error rep =>
          cases b with
          | error rep' => cases hab; rfl
          | ok q => cases hab
        | ok p =>
          cases b with
          | error rep' => cases hab
          | ok q =>
            have hbare : (Value.parsed p).bare = (Value.parsed q).bare := by
              rw [Value.bare_parsed, Value.bare_parsed, Except.ok.inj hab]
            simp [Except.map, hbare]
    | _ => cases hw
  | _ => cases hv

/-- elements side by side stand at the same place in their lists -/
theorem forall₂_zipIdx {α β : Type} {P : α → β → Prop} {xs : List α} {ys : List β} (h : List.Forall₂ P xs ys) (k : Nat) :
    List.Forall₂ (fun e f => e.2 = f.2 ∧ P e.1 f.1) (xs.zipIdx k) (ys.zipIdx k) := by
  induction h generalizing k with
  | nil => exact .nil
  | cons hxy _ ih => exact .cons ⟨rfl, hxy⟩ (ih (k + 1))

/-- a parse of the elements of two lists ends alike, if it does for the elements side by side -/
theorem parseItems_alike {parse : Nat → Parsing} {v w : Value} {xs ys : List Value} (hv : v.items? = some xs)
    (hw : w.items? = some ys)
    (h : List.Forall₂ (fun x y => ∀ i, (parseNested (parse i) x).map (Except.map Value.bare) =
      (parseNested (parse i) y).map (Except.map Value.bare)) xs ys) :
    (parseItems parse v).map (Except.map Value.bare) = (parseItems parse w).map (Except.map Value.bare) := by
  unfold parseItems
  rw [hv, hw]
  dsimp only
  have hall : List.Forall₂ (fun e f => (parseNested (parse e.2) e.1).map (Except.map Value.bare) =
      (parseNested (parse f.2) f.1).map (Except.map Value.bare)) xs.zipIdx ys.zipIdx :=
    (forall₂_zipIdx h 0).imp fun e f hef => by rw [hef.1, hef.2 f.2]
  rcases map_eq_map (mapM_eq_mapM hall) with ⟨e, hx, hy⟩ | ⟨as, bs, hx, hy, hab⟩
  · rw [hx, hy]
  · have hgather : (gatherItems 0 as).map (List.map Value.bare) = (gatherItems 0 bs).map (List.map Value.bare) := by
      rw [← gatherItems_bare, hab, gatherItems_bare]
    rw [hx, hy, ok_bind, ok_bind]
    cases has : gatherItems 0 as with
    | error fs =>
      cases hbs : gatherItems 0 bs with
      | error fs' => rw [has, hbs] at hgather; cases hgather; rfl
      | ok ws => rw [has, hbs] at hgather; cases hgather
    | ok vs =>
      cases hbs : gatherItems 0 bs with
      | error fs' => rw [has, hbs] at hgather; cases hgather
      | ok ws =>
        rw [has, hbs] at hgather
        have hlist : vs.map Value.bare = ws.map Value.bare := Except.ok.inj hgather
        simp [Except.map, Value.bare, Value.bareAll_eq_map, hlist]

namespace Attribute

variable {a : Attribute} {view view' : KeyView}

theorem read_same (hs : a.suppliedIn view = a.suppliedIn view') (hraw : a.rawValue view = a.rawValue view') :
    Attribute.read r here strict view a = Attribute.read r here strict view' a := by
  rw [read_eq, read_eq]
  unfold missingIn readValue
  rw [hs, hraw]

/-- an attribute is read alike from two raw values that are resolved alike -/
theorem read_alike (hp : ∀ rule ∈ a.rules, rule.Plainly) (hs : a.suppliedIn view = a.suppliedIn view')
    (hm : (a.rawValue view).isMissing = (a.rawValue view').isMissing) (hn : a.rawValue view ≠ .null)
    (hn' : a.rawValue view' ≠ .null)
    (h : (Shape.resolve r (here.within a.name) strict a.shape (a.rawValue view)).map (Except.map Value.bare) =
      (Shape.resolve r (here.within a.name) strict a.shape (a.rawValue view')).map (Except.map Value.bare)) :
    (Attribute.read r here strict view a).map NamedReading.bare =
    (Attribute.read r here strict view' a).map NamedReading.bare := by
  have hmissing : a.missingIn view = a.missingIn view' := by
    unfold missingIn
    rw [hm]
  cases hmiss : a.missingIn view' with
  | true => rw [read_eq, read_eq, hmissing, hmiss, hs, if_pos rfl, if_pos rfl]
  | false =>
    rw [read_of_not_null (hmissing.trans hmiss) hn, read_of_not_null hmiss hn']
    unfold readValue
    rcases map_eq_map h with ⟨e, hx, hy⟩ | ⟨x, y, hx, hy, hxy⟩
    · rw [hx, hy]
      rfl
    · rw [hx, hy, ok_bind, ok_bind]
      rcases map_eq_map (checked_alike hp hxy) with ⟨e, hx, hy⟩ | ⟨x, y, hx, hy, hxy⟩
      · rw [hx, hy]
        rfl
      · rw [hx, hy, ok_bind, ok_bind, hs]
        have hbare (x : Reading Value) : (NamedReading.mk a.name (a.suppliedIn view') (x.map some)).bare =
            ⟨a.name, a.suppliedIn view', (x.map Value.bare).map some⟩ := by cases x <;> rfl
        show Except.ok (NamedReading.bare _) = Except.ok (NamedReading.bare _)
        rw [hbare, hbare, hxy]

end Attribute

/-! ## Equivalent input -/

mutual

/-- two mappings have the same declared names, with equivalent values under each -/
inductive Definition.Equivalent : Definition → Value → Value → Prop where
  | mk {d : Definition} {raw raw' : Value} {view view' : KeyView} (hview : Definition.viewOf raw = .ok view)
    (hview' : Definition.viewOf raw' = .ok view')
    (present : ∀ a ∈ d.attributes, (view.get? a.name).isSome = (view'.get? a.name).isSome)
    (values : ∀ a ∈ d.attributes, ∀ v v', view.get? a.name = some v → view'.get? a.name = some v' →
      Shape.Equivalent a.shape v v') : Definition.Equivalent d raw raw'

/-- the same value, or two mappings or two lists of them that are equivalent inside -/
inductive Shape.Equivalent : Shape → Value → Value → Prop where
  | same (shape : Shape) (v : Value) : Shape.Equivalent shape v v
  | nested {d : Definition} {ro ro' : Bool} {es es' : List (Value × Value)} (empty : es.isEmpty = es'.isEmpty)
    (h : Definition.Equivalent d (.map ro es) (.map ro' es')) : Shape.Equivalent (.nested d) (.map ro es) (.map ro' es')
  | arrayOf {d : Definition} {v v' : Value} {xs xs' : List Value} (items : v.items? = some xs)
    (items' : v'.items? = some xs')
    (length : xs.length = xs'.length) (each : ∀ e ∈ xs.zip xs', Definition.EquivalentItem d e.1 e.2) :
    Shape.Equivalent (.arrayOf d) v v'

/-- the same element, or two mappings that are equivalent -/
inductive Definition.EquivalentItem : Definition → Value → Value → Prop where
  | same (d : Definition) (v : Value) : Definition.EquivalentItem d v v
  | mapping {d : Definition} {ro ro' : Bool} {es es' : List (Value × Value)}
    (h : Definition.Equivalent d (.map ro es) (.map ro' es')) : Definition.EquivalentItem d (.map ro es) (.map ro' es')

end

namespace Definition

/-- what is read of two equivalent mappings at one place is the same but for raw input -/
def ReadsAlike (r : Registry) (d : Definition) (raw raw' : Value) : Prop :=
  ∀ here, (d.read r here raw).map (Except.map Parsed.bare) = (d.read r here raw').map (Except.map Parsed.bare)

/-- no rule is a function of the caller or a schema, at any depth -/
def Plainly (d : Definition) : Prop := ∀ c, Within c d → ∀ a ∈ c.attributes, ∀ rule ∈ a.rules, rule.Plainly

end Definition

/-- equivalent values are missing alike, and resolved alike if equivalent mappings are read alike -/
theorem Shape.Equivalent.resolves {shape : Shape} {v w : Value} (h : shape.Equivalent v w)
    (hparts : ∀ d, shape.definition? = some d → ∀ raw raw', d.Equivalent raw raw' → d.ReadsAlike r raw raw') :
    v = w ∨ shape.scalar? = none ∧ v ≠ .null ∧ w ≠ .null ∧ v.isMissing = w.isMissing ∧
      (Shape.resolve r here strict shape v).map (Except.map Value.bare) =
        (Shape.resolve r here strict shape w).map (Except.map Value.bare) := by
  cases h with
  | same => exact .inl rfl
  | @nested d ro ro' es es' empty h =>
    refine .inr ⟨rfl, nofun, nofun, empty, ?_⟩
    rw [Shape.resolve, Shape.resolve]
    exact parseNested_alike rfl rfl (hparts d rfl _ _ h here)
  | @arrayOf d v w xs ys hv hw hlength each =>
    have hitem {x y : Value} (h : d.EquivalentItem x y) (there : Place) :
        (parseNested (d.read r there) x).map (Except.map Value.bare) =
          (parseNested (d.read r there) y).map (Except.map Value.bare) := by
      cases h with
      | same => rfl
      | mapping h => exact parseNested_alike rfl rfl (hparts d rfl _ _ h there)
    have hall : List.Forall₂ (fun x y => ∀ i : Nat,
        (parseNested (d.read r (here.within (numeral i))) x).map (Except.map Value.bare) =
          (parseNested (d.read r (here.within (numeral i))) y).map (Except.map Value.bare)) xs ys :=
      List.forall₂_iff_zip.2 ⟨hlength, fun hxy i => hitem (each _ hxy) _⟩
    refine .inr ⟨rfl, ?_, ?_, ?_, ?_⟩
    · rintro rfl
      cases hv
    · rintro rfl
      cases hw
    · have hempty {v : Value} {xs : List Value} (h : v.items? = some xs) : v.isMissing = xs.isEmpty := by
        cases v with
        | list ys => cases h; rfl
        | tuple ys => cases h; rfl
        | _ => cases h
      rw [hempty hv, hempty hw]
      cases xs <;> cases ys <;> first | rfl | cases hlength
    · rw [Shape.resolve, Shape.resolve]
      exact parseItems_alike hv hw hall

/-- an attribute is read alike from two views that give it equivalent values -/
theorem Attribute.reads_alike {a : Attribute} {view view' : KeyView} (hp : ∀ rule ∈ a.rules, rule.Plainly)
    (hparts : ∀ d, a.shape.definition? = some d → ∀ raw raw', d.Equivalent raw raw' → d.ReadsAlike r raw raw')
    (present : (view.get? a.name).isSome = (view'.get? a.name).isSome)
    (values : ∀ v v', view.get? a.name = some v → view'.get? a.name = some v' → a.shape.Equivalent v v') :
    (Attribute.read r here strict view a).map NamedReading.bare =
    (Attribute.read r here strict view' a).map NamedReading.bare := by
  have same (h : (view.get? a.name).getD .null = (view'.get? a.name).getD .null) :
      Attribute.read r here strict view a = Attribute.read r here strict view' a := by
    refine read_same present ?_
    unfold rawValue
    rw [h]
  cases hv : view.get? a.name with
  | none =>
    cases hw : view'.get? a.name with
    | none => rw [same (by rw [hv, hw])]
    | some w => rw [hv, hw] at present; cases present
  | some v =>
    cases hw : view'.get? a.name with
    | none => rw [hv, hw] at present; cases present
    | some w =>
      rcases (values v w hv hw).resolves hparts with rfl | ⟨hscalar, hvnull, hwnull, hmissing, hresolve⟩
      · rw [same (by rw [hv, hw])]
      · have hblank : a.blankIsNull = false := by
          unfold blankIsNull
          rw [hscalar]
        have hraw {view : KeyView} {v : Value} (hv : view.get? a.name = some v) : a.rawValue view = v := by
          unfold rawValue
          rw [hblank, hv]
          rfl
        refine read_alike hp present ?_ ?_ ?_ ?_
        · rw [hraw hv, hraw hw, hmissing]
        · rw [hraw hv]
          exact hvnull
        · rw [hraw hw]
          exact hwnull
        · rw [hraw hv, hraw hw, hresolve]

namespace Definition

theorem readsAlike_of_views {d : Definition} {raw raw' : Value} {view view' : KeyView} (hview : viewOf raw = .ok view)
    (hview' : viewOf raw' = .ok view')
    (h : ∀ a ∈ d.attributes, ∀ here, (Attribute.read r here d.settings.strictTypes view a).map NamedReading.bare =
      (Attribute.read r here d.settings.strictTypes view' a).map NamedReading.bare) : d.ReadsAlike r raw raw' := by
  intro here
  have hreadings : (readAttributes r here d.settings.strictTypes view d.attributes).map (List.map NamedReading.bare) =
      (readAttributes r here d.settings.strictTypes view' d.attributes).map (List.map NamedReading.bare) := by
    rw [readAttributes_eq_mapM, readAttributes_eq_mapM]
    exact mapM_eq_mapM (List.forall₂_same.2 fun a ha => h a ha here)
  obtain ⟨stamp, name, attributes, settings⟩ := d
  rw [Definition.read, Definition.read]
  unfold viewOf at hview hview'
  rw [hview, hview', ok_bind, ok_bind]
  rcases map_eq_map hreadings with ⟨e, hx, hy⟩ | ⟨xs, ys, hx, hy, hxy⟩
  · rw [hx, hy]
    rfl
  · rw [hx, hy, ok_bind, ok_bind]
    refine congrArg Except.ok ?_
    rw [gather_bare, hxy, gather_bare]

/-- by induction on the definition: what is equivalent inside an attribute is so for the attribute's definition -/
theorem Equivalent.readsAlike {d : Definition} (hd : d.Plainly) {raw raw' : Value} (h : d.Equivalent raw raw') :
    d.ReadsAlike r raw raw' := by
  induction d using byParts generalizing raw raw' with
  | parts d ih =>
    cases h with
    | mk hview hview' present values =>
      refine readsAlike_of_views hview hview' fun a ha here => ?_
      exact Attribute.reads_alike (hd d (.here d) a ha)
        (fun e he raw raw' h => ih a ha e he (fun c hc => hd c (.of_part ha he hc)) h) (present a ha) (values a ha)

variable {d : Definition} {ro ro' : Bool} {es es' : List (Value × Value)}

/-- equivalent input is parsed to the same but for raw input -/
theorem Equivalent.parsesAlike (hd : d.Plainly) (hcontent : d.ByContent r) (h : d.Equivalent (.map ro es) (.map ro' es'))
    (run run' : Nat) :
    (d.parse r run (.map ro es)).map Parsed.bare = (d.parse r run' (.map ro' es')).map Parsed.bare := by
  rw [hcontent.parse_any_run run run', parse_map, parse_map]
  rcases map_eq_map (h.readsAlike (r := r) hd (.root run')) with ⟨f, hx, hy⟩ | ⟨x, y, hx, hy, hxy⟩
  · rw [hx, hy]
  · rw [hx, hy, ok_bind, ok_bind]
    cases x with
    | ok p =>
      cases y with
      | error rep => cases hxy
      | ok q => exact congrArg Except.ok (Except.ok.inj hxy)
    | error rep =>
      cases y with
      | ok q => cases hxy
      | error rep' =>
        cases hxy
        cases rep.payload.json .compact <;> rfl

/-- two raw values are parsed alike in two runs -/
inductive ParsedAlike (r : Registry) (run run' : Nat) (d : Definition) (raw raw' : Value) : Prop where
  /-- both are rejected, with the same report -/
  | rejected (rep : Report) (h : d.parse r run raw = .error (.rejected rep))
    (h' : d.parse r run' raw' = .error (.rejected rep))
  /-- both are accepted, with the same keys, and with the same values but for raw input -/
  | accepted (p q : Instance) (h : d.parse r run raw = .ok p) (h' : d.parse r run' raw' = .ok q) (keys : p.keys = q.keys)
    (values : ∀ name, (p.valueOf name).bare = (q.valueOf name).bare)
  /-- neither parse is calm, and the same fault breaks both off -/
  | broken (f : Fault) (restless : ¬ d.Calm r raw) (restless' : ¬ d.Calm r raw') (h : d.parse r run raw = .error f)
    (h' : d.parse r run' raw' = .error f)

/-- a parse that ends in another fault than a rejection is not calm -/
theorem not_calm_of_fault {f : Fault} {run : Nat} (h : d.parse r run (.map ro es) = .error f)
    (hf : ∀ rep, f ≠ .rejected rep) :
    ¬ d.Calm r (.map ro es) := by
  intro hcalm
  rcases (hcalm.completes run).parse_eq with ⟨p, -, hp⟩ | ⟨rep, -, hrep⟩
  · rw [h] at hp
    cases hp
  · rw [h] at hrep
    exact hf rep (Except.error.inj hrep)

/-- **Equivalent input is parsed alike**: to the same report, or to instances with the same keys and the same values
but for raw input; else something breaks both parses off. -/
theorem parse_indifferent (hd : d.Plainly) (hcontent : d.ByContent r) (h : d.Equivalent (.map ro es) (.map ro' es'))
    (run run' : Nat) : d.ParsedAlike r run run' (.map ro es) (.map ro' es') := by
  rcases map_eq_map (h.parsesAlike hd hcontent run run') with ⟨f, hx, hy⟩ | ⟨p, q, hx, hy, hpq⟩
  · by_cases hf : ∃ rep, f = .rejected rep
    · obtain ⟨rep, rfl⟩ := hf
      exact .rejected rep hx hy
    · have hother : ∀ rep, f ≠ .rejected rep := fun rep hrep => hf ⟨rep, hrep⟩
      exact .broken f (not_calm_of_fault hx hother) (not_calm_of_fault hy hother) hx hy
  · obtain ⟨hkeys, hvalues⟩ := Parsed.agree_of_bare hpq
    exact .accepted p q hx hy hkeys hvalues

end Definition

def address : Definition := ⟨1, "letter.to", [⟨"city", .scalar .text, true, none, []⟩], .default⟩

/-- a letter to an address, perhaps with copies to others -/
def addressed : Definition :=
  ⟨1, "letter", [⟨"to", .nested address, true, none, []⟩, ⟨"copies", .arrayOf address, false, none, []⟩], .default⟩

/-- a letter as it may be sent -/
def sentLetter : List (Value × Value) :=
  [(.text "to", .map false [(.text "city", .text "Oslo")]),
    (.text "copies", .list [.map false [(.text "city", .text "Rome")]])]

/-- the same letter in another order, with a key as bytes, one that is a member of an enumeration, and two that are not
declared -/
def otherLetter : List (Value × Value) :=
  [(.text "stamp", .int 1), (.text "copies", .tuple [.map true [(.textMember "city", .text "Rome")]]),
    (.bytes false [116, 111], .map false [(.text "zip", .int 150), (.text "city", .text "Oslo")])]

theorem addressed_plainly : addressed.Plainly := by
  have haddress : address.Plainly := Definition.forall_within (by simp [address]) (by simp [address, Shape.definition?])
  exact Definition.forall_within (by simp [addressed])
    (by simpa [addressed, Shape.definition?] using fun c hc => haddress c hc)

theorem addressed_byContent : addressed.ByContent .builtin := by
  have haddress : address.ByContent .builtin :=
    Definition.byContent_of_parts
      (List.forall_mem_singleton.2 (Attribute.byContent_of_builtin (by rintro v ⟨⟩) (by rintro t ⟨⟩ c ⟨⟩)))
      (by simp [address, Shape.definition?])
  exact Definition.byContent_of_parts (by simp [addressed, Attribute.byContent_of_no_default])
    (by simp [addressed, Shape.definition?, haddress])

/-- the two letters are parsed alike -/
theorem letters_parsed_alike :
    addressed.Equivalent (.map false sentLetter) (.map false otherLetter) ∧
    addressed.ParsedAlike .builtin 0 1 (.map false sentLetter) (.map false otherLetter) ∧
    (∃ p, addressed.parse .builtin 0 (.map false sentLetter) = .ok p) ∧
    ∃ q, addressed.parse .builtin 1 (.map false otherLetter) = .ok q := by
  have hcity {ro ro' : Bool} {es es' : List (Value × Value)} {view view' : KeyView} {city : Value}
      (hview : KeyView.ofEntries es = .ok view) (hview' : KeyView.ofEntries es' = .ok view')
      (h : view.get? "city" = some city) (h' : view'.get? "city" = some city) :
      address.Equivalent (.map ro es) (.map ro' es') := by
    refine .mk hview hview' ?_ ?_
    · simp [address, h, h']
    · simp only [address, List.forall_mem_singleton, h, h']
      rintro v v' ⟨⟩ ⟨⟩
      exact .same _ _
  have hletters : addressed.Equivalent (.map false sentLetter) (.map false otherLetter) := by
    refine .mk rfl rfl ?_ ?_
    · simp only [addressed, List.forall_mem_cons]
      exact ⟨rfl, rfl, by simp⟩
    · simp only [addressed, List.forall_mem_cons]
      refine ⟨?_, ?_, by simp⟩
      · rintro v v' ⟨⟩ ⟨⟩
        exact .nested rfl (hcity rfl rfl rfl rfl)
      · rintro v v' ⟨⟩ ⟨⟩
        exact .arrayOf rfl rfl rfl (List.forall_mem_singleton.2 (.mapping (hcity rfl rfl rfl rfl)))
  exact ⟨hletters, Definition.parse_indifferent addressed_plainly addressed_byContent hletters 0 1, ⟨_, rfl⟩, ⟨_, rfl⟩⟩

/-! ## What makes a difference -/

/-- a text in which `b` comes after `a` -/
def inOrder : Pattern.Compiled :=
  ⟨.none, .seq (Pattern.literal 97)
    (.seq (.loop .greedy 0 none (.one .anything)) (Pattern.literal 98))⟩

/-- a mapping that no definition describes, whose text is checked -/
def sheet : Definition :=
  ⟨1, "sheet", [⟨"cells", .untyped, true, none, [.format ⟨.text "a.*b", inOrder, false, none⟩]⟩], .default⟩

/-- two cells in order, and the same in the other order -/
def cells : List (Value × Value) := [(.text "a", .int 1), (.text "b", .int 2)]

def sheetForm (cells : List (Value × Value)) : Value := .map false [(.text "cells", .map false cells)]

theorem inOrder_built : buildRules (Fields.entries [("format", .text "a.*b")]) =
    .ok [.format ⟨.text "a.*b", inOrder, false, none⟩] := by
  have hmessage : popMessage "format" (Fields.entries [("with", .text "a.*b")]) =
      .ok (none, Fields.entries [("with", .text "a.*b")]) := by
    rw [popMessage, Parts.pop_of_absent (by decide)]
    rfl
  have hcompile : Pattern.compile "a.*b".toList = .ok inOrder := by cbv
  have hchosen : chosenFormat (some (.text "a.*b")) none none = .ok ⟨.text "a.*b", inOrder, false, none⟩ :=
    compileFormat_of_text (v := .text "a.*b") rfl hcompile false none
  have hformat :
      formatOf (Fields.entries [("with", .text "a.*b")]) = .ok (.format ⟨.text "a.*b", inOrder, false, none⟩) := by
    simp only [formatOf, hmessage, ok_bind, Parts.pop_first (show "with" ∉ Fields.names [] by decide),
      Parts.pop_of_absent (show "without" ∉ Fields.names [] by decide), hchosen]
    rfl
  refine buildRules_cons (r := .format ⟨.text "a.*b", inOrder, false, none⟩) rfl ?_ rfl
  show (buildFormat (.text "a.*b") >>= fun x => .ok [x]) = _
  rw [buildFormat_eq]
  show (formatOf (Fields.entries [("with", .text "a.*b")]) >>= fun x => .ok [x]) = _
  rw [hformat]
  rfl

def marked : Definition := ⟨1, "marked", [⟨"mark", .untyped, false, some (.map true []), []⟩], .default⟩

/-- Of two equal mappings, with the same keys in another order, one is accepted, and the other is rejected. And where a
default cannot be copied a parse is broken off, and ends in neither; and two parses of one mapping come to two marks. -/
theorem mapping_order_seen :
    buildRules (Fields.entries [("format", .text "a.*b")]) = .ok [.format ⟨.text "a.*b", inOrder, false, none⟩] ∧
    (Value.map false cells).equal (.map false cells.reverse) = true ∧
    (∃ p, sheet.parse .builtin 0 (sheetForm cells) = .ok p) ∧
    (∃ rep, sheet.parse .builtin 1 (sheetForm cells.reverse) = .error (.rejected rep)) ∧
    marked.parse .builtin 0 (.map false []) = .error .illTyped ∧
    ∃ p q, card.parse .builtin 0 (.map false []) = .ok p ∧ card.parse .builtin 1 (.map false []) = .ok q ∧
      Value.equal (p.valueOf "mark") (q.valueOf "mark") = false := by
  have hequal : (Value.map false cells).equal (.map false cells.reverse) = true := by
    simp [cells, Value.equal, Value.isNaN, Value.same, Value.sameEntries, Value.text?, Value.sameNumber]
  have haccepted : sheet.parse .builtin 0 (sheetForm cells) =
      .ok ⟨sheet.heading, sheetForm cells, [("cells", .map false cells)], ["cells"]⟩ := rfl
  have hrejected : sheet.parse .builtin 1 (sheetForm cells.reverse) =
      .error (.rejected ⟨[("cells", .message "is invalid")]⟩) :=
    Definition.parse_of_read_error rfl (Report.renders_of_written (by simp [Finding.written_message]))
  exact ⟨inOrder_built, hequal, ⟨_, haccepted⟩, ⟨_, hrejected⟩, rfl, _, _, rfl, rfl, markIn_unequal (by decide)⟩

end Intake
