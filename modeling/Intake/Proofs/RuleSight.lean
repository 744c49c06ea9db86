/-
What rules see of an instance.

Two instances that differ in the raw input they were read from, and in nothing else, at any depth, are one and the
same to every rule but a function of the caller or a schema: such a rule asks for the text of a value, for its size,
and for whether it equals other values, and none of these looks at raw input. `Value.bare` is a value without
the raw input of the instances in it.

Results:
- `Value.projected_bare`: what is projected does not depend on raw input;
- `Value.same_bare`: equality does not either;
- `runRules_bare`: nor do the messages of rules.
-/
import Intake.Rule.Run
import Intake.Proofs.RuleBuilding

namespace Intake

open Intake.Outcome

namespace Value

/-! ## Instances inside instances and lists -/

/-- neither an instance nor a list: raw input is not looked for inside -/
def Closed (v : Value) : Prop := (∀ p, v ≠ .parsed p) ∧ ∀ xs, v ≠ .list xs

/-- what holds of a value whenever it holds of the elements of a list and of the values of an instance holds of
every one -/
@[elab_as_elim]
theorem byInstances {motive : Value → Prop}
    (parsed : ∀ p : Instance, (∀ f ∈ p.values, motive f.2) → motive (.parsed p))
    (list : ∀ xs : List Value, (∀ x ∈ xs, motive x) → motive (.list xs))
    (other : ∀ v : Value, v.Closed → motive v) (v : Value) : motive v := by
  induction hn : sizeOf v using Nat.strongRecOn generalizing v with
  | ind n ih =>
    subst hn
    have hother : v.Closed → motive v := other v
    cases v with
    | parsed p =>
      refine parsed p fun f hf => ih _ ?_ f.2 rfl
      have h1 : sizeOf f < sizeOf p.values := List.sizeOf_lt_of_mem hf
      have h2 : sizeOf f.2 < sizeOf f := by cases f; simp only [Prod.mk.sizeOf_spec]; omega
      have h3 : sizeOf p.values < sizeOf (Value.parsed p) := by
        cases p; simp only [Value.parsed.sizeOf_spec, Parsed.mk.sizeOf_spec]; omega
      omega
    | list xs =>
      refine list xs fun x hx => ih _ ?_ x rfl
      have h1 : sizeOf x < sizeOf xs := List.sizeOf_lt_of_mem hx
      simp
      omega
    | _ => exact hother ⟨by rintro p ⟨⟩, by rintro xs ⟨⟩⟩

mutual

/-- a value without the raw input of the instances in it, also inside lists -/
def bare : Value → Value
  | .parsed ⟨heading, _, values, supplied⟩ => .parsed ⟨heading, .null, bareFields values, supplied⟩
  | .list xs => .list (bareAll xs)
  | v => v

def bareAll : List Value → List Value
  | [] => []
  | x :: xs => bare x :: bareAll xs

def bareFields : List (String × Value) → List (String × Value)
  | [] => []
  | (name, v) :: fields => (name, bare v) :: bareFields fields

end

theorem bareAll_eq_map (xs : List Value) : bareAll xs = xs.map bare := by
  induction xs with
  | nil => rw [bareAll, List.map_nil]
  | cons x xs ih => rw [bareAll, List.map_cons, ih]

theorem bareFields_eq_map (fields : List (String × Value)) : bareFields fields = fields.map fun f => (f.1, bare f.2) := by
  induction fields with
  | nil => rw [bareFields, List.map_nil]
  | cons f fields ih => rw [bareFields, List.map_cons, ih]

theorem bare_of_closed {v : Value} (h : v.Closed) : bare v = v := by
  cases v with
  | parsed p => exact absurd rfl (h.1 p)
  | list xs => exact absurd rfl (h.2 xs)
  | _ => rfl

/-! ## Projections -/

theorem projectedAll_eq_map (xs : List Value) : projectedAll xs = xs.map projected := by
  induction xs with
  | nil => rw [projectedAll, List.map_nil]
  | cons x xs ih => rw [projectedAll, List.map_cons, ih]

theorem projectedFields_congr (supplied : List String) {fields : List (String × Value)} {g : String × Value → Value}
    (h : ∀ f ∈ fields, projected (g f) = projected f.2) :
    projectedFields supplied (fields.map fun f => (f.1, g f)) = projectedFields supplied fields := by
  induction fields with
  | nil => rfl
  | cons f fields ih =>
    obtain ⟨name, v⟩ := f
    rw [List.map_cons, projectedFields, projectedFields, h _ List.mem_cons_self,
      ih fun f hf => h f (List.mem_cons_of_mem _ hf)]

/-- what is projected of a value does not depend on raw input -/
theorem projected_bare (v : Value) : projected (bare v) = projected v := by
  induction v using byInstances with
  | parsed p ih =>
    obtain ⟨heading, raw, values, supplied⟩ := p
    rw [bare, projected, projected, bareFields_eq_map, projectedFields_congr supplied ih]
  | list xs ih =>
    rw [bare, projected, projected, bareAll_eq_map, projectedAll_eq_map, projectedAll_eq_map, List.map_map]
    exact congrArg _ (List.map_congr_left ih)
  | other v h => rw [bare_of_closed h]

/-! ## Texts and sizes -/

theorem shownAll?_congr {xs : List Value} {g : Value → Value} (h : ∀ x ∈ xs, (g x).shown? = x.shown?) :
    shownAll? (xs.map g) = shownAll? xs := by
  induction xs with
  | nil => rfl
  | cons x xs ih =>
    rw [List.map_cons, shownAll?, shownAll?, h x List.mem_cons_self, ih fun y hy => h y (List.mem_cons_of_mem x hy)]

theorem shownFields?_congr (supplied : List String) {fields : List (String × Value)} {g : String × Value → Value}
    (h : ∀ f ∈ fields, (g f).shown? = f.2.shown?) :
    shownFields? supplied (fields.map fun f => (f.1, g f)) = shownFields? supplied fields := by
  induction fields with
  | nil => rfl
  | cons f fields ih =>
    obtain ⟨name, v⟩ := f
    rw [List.map_cons, shownFields?, shownFields?, h _ List.mem_cons_self,
      ih fun f hf => h f (List.mem_cons_of_mem _ hf)]

theorem shown?_bare (v : Value) : (bare v).shown? = v.shown? := by
  induction v using byInstances with
  | parsed p ih =>
    obtain ⟨heading, raw, values, supplied⟩ := p
    rw [bare, shown?, shown?, bareFields_eq_map, shownFields?_congr supplied ih]
  | list xs ih => rw [bare, shown?, shown?, bareAll_eq_map, shownAll?_congr ih]
  | other v h => rw [bare_of_closed h]

theorem plain?_bare (v : Value) : (bare v).plain? = v.plain? := by
  have hshown := shown?_bare v
  cases v with
  | parsed p => exact hshown
  | list xs => exact hshown
  | _ => rfl

theorem callsOfAll_congr {xs : List Value} {g : Value → Value} (h : ∀ x ∈ xs, (g x).calls = x.calls) :
    callsOfAll (xs.map g) = callsOfAll xs := by
  induction xs with
  | nil => rfl
  | cons x xs ih =>
    rw [List.map_cons, callsOfAll, callsOfAll, h x List.mem_cons_self, ih fun y hy => h y (List.mem_cons_of_mem x hy)]

theorem callsOfFields_congr {fields : List (String × Value)} {g : String × Value → Value}
    (h : ∀ f ∈ fields, (g f).calls = f.2.calls) :
    callsOfFields (fields.map fun f => (f.1, g f)) = callsOfFields fields := by
  induction fields with
  | nil => rfl
  | cons f fields ih =>
    obtain ⟨name, v⟩ := f
    rw [List.map_cons, callsOfFields, callsOfFields, h _ List.mem_cons_self,
      ih fun f hf => h f (List.mem_cons_of_mem _ hf)]

theorem calls_bare (v : Value) : (bare v).calls = v.calls := by
  induction v using byInstances with
  | parsed p ih =>
    obtain ⟨heading, raw, values, supplied⟩ := p
    rw [bare, calls, calls, bareFields_eq_map, callsOfFields_congr ih]
  | list xs ih => rw [bare, calls, calls, bareAll_eq_map, callsOfAll_congr ih]
  | other v h => rw [bare_of_closed h]

theorem plain_bare (v : Value) : (bare v).plain = v.plain := by
  unfold plain written
  rw [plain?_bare, calls_bare]

/-! ## Equality -/

theorem sameList_congr {xs : List Value} {g : Value → Value} (h : ∀ x ∈ xs, ∀ y, same (g x) y = same x y)
    (ys : List Value) :
    sameList (xs.map g) ys = sameList xs ys := by
  induction xs generalizing ys with
  | nil => rfl
  | cons x xs ih =>
    cases ys with
    | nil => simp [sameList]
    | cons y ys =>
      rw [List.map_cons, sameList, sameList, h x List.mem_cons_self, ih fun z hz => h z (List.mem_cons_of_mem x hz)]

theorem sameFields_congr {fields : List (String × Value)} {g : Value → Value}
    (h : ∀ f ∈ fields, ∀ y, same (g f.2) y = same f.2 y)
    (others : List (String × Value)) :
    sameFields (fields.map fun f => (f.1, g f.2)) others = sameFields fields others := by
  induction fields with
  | nil => rfl
  | cons f fields ih =>
    obtain ⟨name, v⟩ := f
    rw [List.map_cons, sameFields, sameFields, ih fun f hf => h f (List.mem_cons_of_mem _ hf)]
    simp only [h _ List.mem_cons_self]

theorem same_bare (v y : Value) : same (bare v) y = same v y := by
  induction v using byInstances generalizing y with
  | parsed p ih =>
    obtain ⟨heading, raw, values, supplied⟩ := p
    rw [bare, bareFields_eq_map]
    cases y with
    | parsed q =>
      obtain ⟨heading', raw', values', supplied'⟩ := q
      rw [same, same, List.length_map, sameFields_congr ih]
    | _ => simp [same, sameNumber, numeric?]
  | list xs ih =>
    rw [bare, bareAll_eq_map]
    cases y with
    | list ys => rw [same, same, sameList_congr ih]
    | _ => simp [same, sameNumber, numeric?]
  | other v h => rw [bare_of_closed h]

end Value

/-! ## Rules -/

/-- a rule that asks neither a function of the caller nor a schema -/
def Rule.Plainly (rule : Rule) : Prop := rule.option ≠ "validate" ∧ rule.option ≠ "json_schema"

theorem asNumber_bare (v : Value) : asNumber v.bare = asNumber v := by
  cases v <;> rfl

theorem signalsWith_bare (v x : Value) : v.bare.signalsWith x = v.signalsWith x := by cases v <;> rfl

theorem among_bare (v : Value) (xs : List Value) : Membership.among v.bare xs = Membership.among v xs := by
  have hdatum (x : Value) : v.bare.isSameDatum x = v.isSameDatum x := by cases v <;> rfl
  induction xs with
  | nil => rfl
  | cons x xs ih => rw [Membership.among, Membership.among, signalsWith_bare, hdatum, Value.same_bare, ih]

theorem holds_bare (r : Membership) (v : Value) : r.holds v.bare = r.holds v := by
  have hrange (a b s : Int) : v.bare.inRange a b s = v.inRange a b s := by cases v <;> rfl
  unfold Membership.holds
  split
  · rw [hrange, signalsWith_bare]
  · exact among_bare v _

/-- a rule answers to an instance whatever raw input it was read from -/
theorem run_bare {rule : Rule} (h : rule.Plainly) (v : Value) : rule.run v.bare = rule.run v := by
  cases rule with
  | numericality r =>
    show r.run v.bare = r.run v
    rw [Numericality.run, Numericality.run, asNumber_bare]
  | length r =>
    have hsize : LengthBounds.sizeOf v.bare = LengthBounds.sizeOf v := by
      cases v with
      | range a b s => rfl
      | parsed p => exact congrArg (·.map String.length) (Value.plain_bare (.parsed p))
      | list xs => simp [Value.bare, Value.bareAll_eq_map, LengthBounds.sizeOf, Value.size?]
      | _ => rfl
    show r.run v.bare = r.run v
    rw [LengthBounds.run, LengthBounds.run, hsize]
  | format r => rw [Rule.run, Rule.run, Value.plain_bare]
  | inclusion r => rw [Rule.run, Rule.run, holds_bare]
  | exclusion r => rw [Rule.run, Rule.run, holds_bare]
  | presence m =>
    have hblank : Rule.isBlankValue v.bare = Rule.isBlankValue v := by
      cases v with
      | list xs => simp [Value.bare, Value.bareAll_eq_map, Rule.isBlankValue]
      | _ => rfl
    rw [Rule.run, Rule.run, hblank]
  | jsonSchema r => exact absurd rfl h.2
  | callback f => exact absurd rfl h.1

/-- **Rules answer to instances whatever raw input these were read from.** -/
theorem runRules_bare {rules : List Rule} (h : ∀ rule ∈ rules, rule.Plainly) (v : Value) :
    runRules rules v.bare = runRules rules v := by
  have hall : rules.mapM (fun rule => rule.run v.bare) = rules.mapM fun rule => rule.run v := by
    induction rules with
    | nil => rfl
    | cons rule rules ih =>
      rw [List.mapM_cons, List.mapM_cons, run_bare (h rule List.mem_cons_self),
        ih fun x hx => h x (List.mem_cons_of_mem rule hx)]
  rw [runRules, runRules, hall]

end Intake
