/-
How a raw value becomes the value of its attribute, shape by shape.

A nested attribute takes a mapping and holds what its definition parses it to; an array takes a list and holds
what each element is parsed to, in order; an attribute of a scalar type holds what the cast gives, and an untyped
one its raw value. For each shape one lemma tells the values and one the findings.

Results:
- `parseNested_eq_ok`, `parseNested_eq_error`: a nested value is an instance, or a report;
- `parseItems_eq_ok`, `parseItems_eq_error`: an array is a list of instances, or the findings of all the elements
  that failed, by index;
- `Shape.Resolves`: the value that each shape gives.
-/
import Intake.Proofs.Reading

namespace Intake

open Outcome

/-- a parse of the values inside an attribute -/
abbrev Parsing := Value → Outcome (Except Report Instance)

/-! ## Nested values -/

/-- a nested value is resolved exactly to the instance that a mapping is parsed to -/
theorem parseNested_eq_ok {parse : Parsing} {v w : Value} :
    parseNested parse v = .ok (.ok w) ↔ ∃ q, v.entries?.isSome ∧ parse v = .ok (.ok q) ∧ w = .parsed q := by
  cases v with
  | map ro es =>
    rw [parseNested, bind_eq_ok]
    constructor
    · rintro ⟨o, ho, h⟩
      cases o with
      | ok q => cases h; exact ⟨q, rfl, ho, rfl⟩
      | error rep => cases h
    · rintro ⟨q, -, hq, rfl⟩
      exact ⟨_, hq, rfl⟩
  | _ => simp [parseNested, Value.entries?]

/-- a nested value fails exactly if it is no mapping, or with the report of the mapping's parse -/
theorem parseNested_eq_error {parse : Parsing} {v : Value} {f : Finding} :
    parseNested parse v = .ok (.error f) ↔
      (v.entries? = none ∧ f = .message notHashMessage) ∨
      ∃ rep, v.entries?.isSome ∧ parse v = .ok (.error rep) ∧ f = .nested rep.entries := by
  cases v with
  | map ro es =>
    rw [parseNested, bind_eq_ok]
    constructor
    · rintro ⟨o, ho, h⟩
      cases o with
      | ok q => cases h
      | error rep => cases h; exact .inr ⟨rep, rfl, ho, rfl⟩
    · rintro (⟨h, -⟩ | ⟨rep, -, hrep, rfl⟩)
      · cases h
      · exact ⟨_, hrep, rfl⟩
  | _ => simp [parseNested, Value.entries?, eq_comm]

/-! ## Arrays -/

/-- the findings among readings, by index from a first one on -/
def failedItems : Nat → List (Reading Value) → List (String × Finding)
  | _, [] => []
  | i, .ok _ :: rs => failedItems (i + 1) rs
  | i, .error f :: rs => (numeral i, f) :: failedItems (i + 1) rs

/-- readings of elements are gathered into their values, if none has failed, and else into the findings -/
theorem gatherItems_eq (i : Nat) (rs : List (Reading Value)) :
    (∃ vs, rs = vs.map .ok ∧ failedItems i rs = [] ∧ gatherItems i rs = .ok vs) ∨
    (failedItems i rs ≠ [] ∧ gatherItems i rs = .error (failedItems i rs)) := by
  induction rs generalizing i with
  | nil => exact .inl ⟨[], rfl, rfl, rfl⟩
  | cons x rs ih =>
    rcases ih (i + 1) with ⟨vs, hvs, hf, hg⟩ | ⟨hf, hg⟩
    · cases x with
      | ok v => exact .inl ⟨v :: vs, by rw [hvs]; rfl, hf, by simp [gatherItems, hg]⟩
      | error f => exact .inr ⟨List.cons_ne_nil _ _, by simp [gatherItems, hg, failedItems, hf]⟩
    · cases x with
      | ok v => exact .inr ⟨hf, by simp [gatherItems, hg, failedItems]⟩
      | error f => exact .inr ⟨List.cons_ne_nil _ _, by simp [gatherItems, hg, failedItems]⟩

theorem gatherItems_eq_ok {i : Nat} {rs : List (Reading Value)} {vs : List Value} :
    gatherItems i rs = .ok vs ↔ rs = vs.map .ok := by
  constructor
  · intro h
    rcases gatherItems_eq i rs with ⟨ws, hws, -, hg⟩ | ⟨-, hg⟩
    · rw [h] at hg; cases hg; exact hws
    · rw [h] at hg; cases hg
  · rintro rfl
    induction vs generalizing i with
    | nil => rfl
    | cons v vs ih => simp [gatherItems, ih]

theorem gatherItems_eq_error {i : Nat} {rs : List (Reading Value)} {fs : List (String × Finding)} :
    gatherItems i rs = .error fs ↔ fs = failedItems i rs ∧ fs ≠ [] := by
  rcases gatherItems_eq i rs with ⟨vs, -, hf, hg⟩ | ⟨hf, hg⟩
  · rw [hg, hf]; simp
  · rw [hg]
    constructor
    · intro h; cases h; exact ⟨rfl, hf⟩
    · rintro ⟨rfl, -⟩; rfl

/-- a list that holds an instance for each element is a list of instances -/
theorem instances_of_forall₂ {α : Type} {P : α → Instance → Prop} {xs : List α} {vs : List Value}
    (h : List.Forall₂ (fun x v => ∃ q, v = .parsed q ∧ P x q) xs vs) :
    ∃ qs : List Instance, vs = qs.map .parsed ∧ List.Forall₂ P xs qs := by
  induction h with
  | nil => exact ⟨[], rfl, .nil⟩
  | cons hx _ ih =>
    obtain ⟨q, rfl, hq⟩ := hx
    obtain ⟨qs, rfl, hqs⟩ := ih
    exact ⟨q :: qs, rfl, .cons hq hqs⟩

/-- an array is resolved exactly to the instances that its elements are parsed to, in order -/
theorem parseItems_eq_ok {parse : Nat → Parsing} {v w : Value} :
    parseItems parse v = .ok (.ok w) ↔
      ∃ xs qs, v.items? = some xs ∧ w = .list (qs.map .parsed) ∧
        List.Forall₂ (fun e q => parseNested (parse e.2) e.1 = .ok (.ok (.parsed q))) xs.zipIdx qs := by
  unfold parseItems
  cases hxs : v.items? with
  | none => simp
  | some xs =>
    simp only [Option.some.injEq]
    rw [bind_eq_ok]
    constructor
    · rintro ⟨rs, hrs, h⟩
      have hall := mapM_eq_ok.1 hrs
      cases hg : gatherItems 0 rs with
      | error fs => rw [hg] at h; cases h
      | ok vs =>
        rw [hg] at h
        cases h
        rw [gatherItems_eq_ok] at hg
        subst hg
        rw [List.forall₂_map_right_iff] at hall
        obtain ⟨qs, rfl, hqs⟩ := instances_of_forall₂ (hall.imp fun e v hx => by
          obtain ⟨q, -, -, rfl⟩ := parseNested_eq_ok.1 hx
          exact ⟨q, rfl, hx⟩)
        exact ⟨xs, qs, rfl, rfl, hqs⟩
    · rintro ⟨ys, qs, hys, rfl, hqs⟩
      subst hys
      have hrs : List.Forall₂ (fun e y => parseNested (parse e.2) e.1 = .ok y) xs.zipIdx
          ((qs.map Value.parsed).map .ok) := by
        rw [List.forall₂_map_right_iff, List.forall₂_map_right_iff]
        exact hqs
      exact ⟨_, mapM_eq_ok.2 hrs, by rw [gatherItems_eq_ok.2 rfl]⟩

/-- an array fails exactly if it is no list, or with the findings of every element that failed -/
theorem parseItems_eq_error {parse : Nat → Parsing} {v : Value} {f : Finding} :
    parseItems parse v = .ok (.error f) ↔
      (v.items? = none ∧ f = .message notArrayMessage) ∨
      ∃ xs rs, v.items? = some xs ∧ List.Forall₂ (fun e y => parseNested (parse e.2) e.1 = .ok y) xs.zipIdx rs ∧
        failedItems 0 rs ≠ [] ∧ f = .nested (failedItems 0 rs) := by
  unfold parseItems
  cases hxs : v.items? with
  | none =>
    constructor
    · intro h; cases h; exact .inl ⟨rfl, rfl⟩
    · rintro (⟨-, rfl⟩ | ⟨xs, rs, h, -⟩)
      · rfl
      · cases h
  | some xs =>
    simp only [reduceCtorEq, false_and, false_or, Option.some.injEq]
    rw [bind_eq_ok]
    constructor
    · rintro ⟨rs, hrs, h⟩
      cases hg : gatherItems 0 rs with
      | ok vs => rw [hg] at h; cases h
      | error fs =>
        rw [hg] at h
        cases h
        obtain ⟨rfl, hne⟩ := gatherItems_eq_error.1 hg
        exact ⟨xs, rs, rfl, mapM_eq_ok.1 hrs, hne, rfl⟩
    · rintro ⟨ys, rs, rfl, hrs, hne, rfl⟩
      exact ⟨rs, mapM_eq_ok.2 hrs, by rw [gatherItems_eq_error.2 ⟨rfl, hne⟩]⟩

/-! ## Scalars -/

theorem castScalar_eq_ok {r : Registry} {here : Place} {strict : Bool} {t : ValueType} {v w : Value} :
    castScalar r here strict t v = .ok (.ok w) ↔ ∃ x, r.cast t strict v = .ok (.ok x) ∧ w = x.placedAt here strict := by
  unfold castScalar
  cases h : r.cast t strict v with
  | error f => simp
  | ok o => cases o <;> simp [eq_comm]

/-! ## Shapes -/

/-- the value that an attribute of a shape holds at its place when its raw value is given -/
inductive Shape.Resolves (r : Registry) (here : Place) (strict : Bool) : Shape → Value → Value → Prop where
  | untyped {v : Value} : Resolves r here strict .untyped v v
  | scalar {t : ValueType} {v w : Value} : r.cast t strict v = .ok (.ok w) →
      Resolves r here strict (.scalar t) v (w.placedAt here strict)
  | nested {e : Definition} {v : Value} {q : Instance} : v.entries?.isSome → e.read r here v = .ok (.ok q) →
      Resolves r here strict (.nested e) v (.parsed q)
  | arrayOf {e : Definition} {v : Value} {xs : List Value} {qs : List Instance} : v.items? = some xs →
      List.Forall₂ (fun x q => x.1.entries?.isSome ∧
        e.read r (here.within (numeral x.2)) x.1 = .ok (.ok q)) xs.zipIdx qs →
      Resolves r here strict (.arrayOf e) v (.list (qs.map .parsed))

theorem Shape.resolve_eq_ok {r : Registry} {here : Place} {strict : Bool} {shape : Shape} {v w : Value} :
    Shape.resolve r here strict shape v = .ok (.ok w) ↔ Shape.Resolves r here strict shape v w := by
  constructor
  · intro h
    cases shape with
    | untyped => cases h; exact .untyped
    | scalar t =>
      rw [Shape.resolve, castScalar_eq_ok] at h
      obtain ⟨x, hx, rfl⟩ := h
      exact .scalar hx
    | nested e =>
      rw [Shape.resolve, parseNested_eq_ok] at h
      obtain ⟨q, hv, hq, rfl⟩ := h
      exact .nested hv hq
    | arrayOf e =>
      rw [Shape.resolve, parseItems_eq_ok] at h
      obtain ⟨xs, qs, hxs, rfl, hqs⟩ := h
      refine .arrayOf hxs (hqs.imp fun x q hq => ?_)
      obtain ⟨q', hx, hp, hqq⟩ := parseNested_eq_ok.1 hq
      cases hqq
      exact ⟨hx, hp⟩
  · intro h
    cases h with
    | untyped => rfl
    | scalar hc => rw [Shape.resolve, castScalar_eq_ok]; exact ⟨_, hc, rfl⟩
    | nested hv hq => rw [Shape.resolve, parseNested_eq_ok]; exact ⟨_, hv, hq, rfl⟩
    | arrayOf hxs hqs =>
      rw [Shape.resolve, parseItems_eq_ok]
      exact ⟨_, _, hxs, rfl, hqs.imp fun x q hq => parseNested_eq_ok.2 ⟨q, hq.1, hq.2, rfl⟩⟩

end Intake
