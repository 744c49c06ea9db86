/-
What a parse makes does not depend on where it is made.

Objects that are compared by identity are told apart by the places at which they are made: two copies of one such
default are unequal, and so are two objects that a converter makes. Where no such object stands in a default, and none is
made by a converter (`Definition.ByContent`), the place of a reading, and the run of a parse, tell nothing of the result.

Results:
- `Value.copiedAt_eq_self`: a copy of what is compared by content is the value itself;
- `Definition.ByContent.read_anywhere`, `Definition.ByContent.parse_any_run`: such a definition reads alike wherever it
  stands, and parses alike in every run.
-/
import Intake.Proofs.Resolving
import Intake.Proofs.ValueParts

namespace Intake

open Outcome

variable {r : Registry} {here there : Place} {strict : Bool} {view : KeyView}

/-! ## Values -/

namespace Value

/-- it is no object that is compared by identity -/
def ComparesContent : Value → Prop
  | .object c _ _ => c.comparesContent = true
  | _ => True

/-- no object inside is compared by identity -/
abbrev ByContent : Value → Prop := Throughout ComparesContent

theorem copiedAllAt_eq_map (xs : List Value) : copiedAllAt here xs = xs.map (copiedAt here) := by
  induction xs with
  | nil => rfl
  | cons x xs ih => rw [copiedAllAt, List.map_cons, ih]

theorem copiedEntriesAt_eq_map (es : List (Value × Value)) :
    copiedEntriesAt here es = es.map fun e => (e.1.copiedAt here, e.2.copiedAt here) := by
  induction es with
  | nil => rfl
  | cons e es ih => rw [copiedEntriesAt, List.map_cons, ih]

theorem copiedAllAt_eq_self {xs : List Value} (h : ∀ x ∈ xs, x.copiedAt here = x) : copiedAllAt here xs = xs := by
  rw [copiedAllAt_eq_map, List.map_congr_left h, List.map_id']

theorem copiedEntriesAt_eq_self {es : List (Value × Value)}
    (h : ∀ e ∈ es, e.1.copiedAt here = e.1 ∧ e.2.copiedAt here = e.2) : copiedEntriesAt here es = es := by
  rw [copiedEntriesAt_eq_map, List.map_congr_left fun e he => Prod.ext (h e he).1 (h e he).2, List.map_id']

/-- a copy of what is compared by content is the value itself -/
theorem copiedAt_eq_self {v : Value} (h : v.ByContent) (here : Place) : v.copiedAt here = v := by
  induction h with
  | @intro v hv _ ih =>
    cases v with
    | object c i xs =>
      rw [ComparesContent] at hv
      rw [copiedAt, if_pos hv, copiedAllAt_eq_self fun x hx => ih x (.content hx)]
    | map readOnly es => rw [copiedAt, copiedEntriesAt_eq_self fun e he => ⟨ih _ (.key he), ih _ (.entry he)⟩]
    | list xs => rw [copiedAt, copiedAllAt_eq_self fun x hx => ih x (.item hx)]
    | tuple xs => rw [copiedAt, copiedAllAt_eq_self fun x hx => ih x (.place hx)]
    | set frozen xs => rw [copiedAt, copiedAllAt_eq_self fun x hx => ih x (.element hx)]
    | _ => rfl

/-- what stands in a copy is a copy of what stands in the value, or has not been copied -/
theorem child_of_copiedAt {v x : Value} (h : Child x (v.copiedAt here)) :
    Child x v ∨ ∃ y, Child y v ∧ x = y.copiedAt here := by
  have of_all {xs : List Value} (hx : x ∈ copiedAllAt here xs) : ∃ y ∈ xs, x = y.copiedAt here := by
    rw [copiedAllAt_eq_map] at hx
    obtain ⟨y, hy, rfl⟩ := List.mem_map.1 hx
    exact ⟨y, hy, rfl⟩
  cases v with
  | object c i xs => cases h with | content hx => exact .inr ((of_all hx).imp fun y hy => ⟨.content hy.1, hy.2⟩)
  | list xs => cases h with | item hx => exact .inr ((of_all hx).imp fun y hy => ⟨.item hy.1, hy.2⟩)
  | tuple xs => cases h with | place hx => exact .inr ((of_all hx).imp fun y hy => ⟨.place hy.1, hy.2⟩)
  | set frozen xs => cases h with | element hx => exact .inr ((of_all hx).imp fun y hy => ⟨.element hy.1, hy.2⟩)
  | map readOnly es =>
    rw [copiedAt, copiedEntriesAt_eq_map] at h
    cases h with
    | key he =>
      obtain ⟨e, hmem, rfl⟩ := List.mem_map.1 he
      exact .inr ⟨e.1, .key hmem, rfl⟩
    | entry he =>
      obtain ⟨e, hmem, rfl⟩ := List.mem_map.1 he
      exact .inr ⟨e.2, .entry hmem, rfl⟩
  | _ => exact .inl h

/-- what holds throughout a value holds throughout its copies, if copying keeps it -/
theorem Throughout.copiedAt {P : Value → Prop} (hP : ∀ v, P v → P (v.copiedAt here)) {v : Value} (h : v.Throughout P) :
    (v.copiedAt here).Throughout P := by
  induction h with
  | @intro v hv inside ih =>
    refine .intro (hP v hv) fun x hx => ?_
    rcases child_of_copiedAt hx with hx | ⟨y, hy, rfl⟩
    · exact inside x hx
    · exact ih y hy

theorem eq_of_copiedAt_parsed {v : Value} {p : Instance} (h : v.copiedAt here = .parsed p) : v = .parsed p := by
  cases v <;> first | exact h | cases h

theorem eq_list_of_copiedAt {v : Value} {ys : List Value} (h : v.copiedAt here = .list ys) :
    ∃ xs, v = .list xs ∧ copiedAllAt here xs = ys := by
  cases v with
  | list xs => exact ⟨xs, rfl, Value.list.inj h⟩
  | _ => cases h

theorem parsed_mem_of_copiedAllAt {xs : List Value} {p : Instance} (h : .parsed p ∈ copiedAllAt here xs) :
    .parsed p ∈ xs := by
  rw [copiedAllAt_eq_map] at h
  obtain ⟨x, hx, hp⟩ := List.mem_map.1 h
  exact eq_of_copiedAt_parsed hp ▸ hx

/-- only a new object that is compared by identity is told by its place -/
theorem placedAt_eq_self {v : Value} (h : ∀ c xs, v = .object c .new xs → c.comparesContent = true) (here : Place)
    (strict : Bool) : v.placedAt here strict = v := by
  unfold placedAt
  split
  · next c xs => rw [if_pos (by rw [h c xs rfl, Bool.or_true])]
  · rfl

@[simp] theorem placedAt_strict (v : Value) (here : Place) : v.placedAt here true = v := by
  unfold placedAt
  split <;> rfl

end Value

/-! ## Casts -/

namespace Registry

/-- casting to the type makes no object that is compared by identity -/
def MakesNone (r : Registry) (t : ValueType) : Prop :=
  ∀ strict v w, r.cast t strict v = .ok (.ok w) → ∀ c xs, w = .object c .new xs → c.comparesContent = true

theorem MakesNone.placedAt_eq_self {t : ValueType} (h : r.MakesNone t) {v w : Value}
    (hw : r.cast t strict v = .ok (.ok w))
    (here : Place) : w.placedAt here strict = w :=
  Value.placedAt_eq_self (h strict v w hw) here strict

theorem castScalar_anywhere {t : ValueType} (h : r.MakesNone t) (here there : Place) (v : Value) :
    castScalar r here strict t v = castScalar r there strict t v := by
  unfold castScalar
  cases hc : r.cast t strict v with
  | error f => rfl
  | ok o =>
    cases o with
    | error f => rfl
    | ok w => simp only [ok_bind, h.placedAt_eq_self hc]

end Registry

/-! ## Readings -/

/-- no object that is compared by identity stands in the default, and none is made by the converter -/
structure Attribute.ByContent (r : Registry) (a : Attribute) : Prop where
  default : ∀ v, a.default = some v → v.ByContent
  cast : ∀ t, a.shape = .scalar t → r.MakesNone t

/-- nothing is made for an attribute without a default that casts nothing -/
theorem Attribute.byContent_of_no_default {a : Attribute} (hd : a.default = none) (hs : ∀ t, a.shape ≠ .scalar t) :
    a.ByContent r where
  default v hv := by rw [hd] at hv; cases hv
  cast t ht := absurd ht (hs t)

/-- inside a definition nothing is made that is compared by identity -/
def Definition.ByContent (r : Registry) (d : Definition) : Prop :=
  ∀ c, Definition.Within c d → ∀ a ∈ c.attributes, a.ByContent r

theorem Attribute.ByContent.absent_anywhere {a : Attribute} (ha : a.ByContent r) (here there : Place) (supplied : Bool) :
    a.absent here supplied = a.absent there supplied := by
  unfold absent defaultValue
  cases hd : a.default with
  | none => rfl
  | some v => simp only [Value.copiedAt_eq_self (ha.default v hd)]

theorem parseItems_congr {parse parse' : Nat → Parsing} (h : ∀ i v, parse i v = parse' i v) (v : Value) :
    parseItems parse v = parseItems parse' v := by
  rw [funext fun i => funext (h i)]

/-- a shape resolves alike wherever it stands, if the definition inside it reads alike -/
theorem Shape.resolve_anywhere {shape : Shape} (hcast : ∀ t, shape = .scalar t → r.MakesNone t)
    (hread : ∀ e, shape.definition? = some e → ∀ here there raw, e.read r here raw = e.read r there raw)
    (here there : Place) (v : Value) : Shape.resolve r here strict shape v = Shape.resolve r there strict shape v := by
  cases shape with
  | untyped => rfl
  | scalar t => exact Registry.castScalar_anywhere (hcast t rfl) here there v
  | nested e => rw [Shape.resolve, Shape.resolve, funext fun raw => hread e rfl here there raw]
  | arrayOf e =>
    rw [Shape.resolve, Shape.resolve]
    exact parseItems_congr (fun i raw => hread e rfl _ _ raw) v

theorem Attribute.ByContent.read_anywhere {a : Attribute} (ha : a.ByContent r)
    (hread : ∀ e, a.shape.definition? = some e → ∀ here there raw, e.read r here raw = e.read r there raw)
    (here there : Place) : Attribute.read r here strict view a = Attribute.read r there strict view a := by
  rw [read_eq, read_eq, ha.absent_anywhere (here.within a.name) (there.within a.name)]
  simp only [readValue, Shape.resolve_anywhere ha.cast hread (here.within a.name) (there.within a.name)]

namespace Definition

variable {d : Definition}

theorem ByContent.part (h : d.ByContent r) {a : Attribute} (ha : a ∈ d.attributes) {e : Definition}
    (he : a.shape.definition? = some e) : e.ByContent r := fun c hc => h c (.part ha he hc)

theorem byContent_of_parts (hd : ∀ a ∈ d.attributes, a.ByContent r)
    (hparts : ∀ a ∈ d.attributes, ∀ e, a.shape.definition? = some e → e.ByContent r) : d.ByContent r :=
  forall_within hd hparts

/-- **A definition under which nothing is compared by identity reads alike wherever it stands.** -/
theorem ByContent.read_anywhere (h : d.ByContent r) (here there : Place) (raw : Value) :
    d.read r here raw = d.read r there raw := by
  induction d using byParts generalizing here there raw with
  | parts d ih =>
    have heach : ∀ a ∈ d.attributes, ∀ view,
        Attribute.read r here d.settings.strictTypes view a = Attribute.read r there d.settings.strictTypes view a :=
      fun a ha view => (h d (.here d) a ha).read_anywhere (fun e he => ih a ha e he (h.part ha he)) here there
    obtain ⟨stamp, name, attributes, settings⟩ := d
    simp only [Definition.read, readAttributes_eq_mapM]
    cases KeyView.ofEntries (raw.entries?.getD []) with
    | error f => rfl
    | ok view => rw [ok_bind, ok_bind, mapM_congr fun a ha => heach a ha view]

theorem ByContent.parse_any_run (h : d.ByContent r) (run run' : Nat) (raw : Value) :
    d.parse r run raw = d.parse r run' raw := by
  unfold parse
  simp only [h.read_anywhere (.root run) (.root run')]

end Definition

/-! ## Marks, which are compared by identity -/

def markClass : HostClass := ⟨"Mark", .takesNone, false⟩

def markOf (i : Identity) : Value := .object markClass i []

/-- marks are equal if they are the same mark -/
theorem equal_markOf_of_ne {i j : Identity} (h : i ≠ j) : (markOf i).equal (markOf j) = false := by
  simp [markOf, markClass, Value.equal, Value.isNaN, Value.same, h]

/-- a card has the mark that is declared for it, unless another is given -/
def cardUnder (settings : Settings) : Definition :=
  ⟨1, "card", [⟨"mark", .untyped, false, some (markOf (.given 0)), []⟩], settings⟩

def card : Definition := cardUnder .default

/-- cards are unequal if their marks are -/
theorem equal_card_of_ne {i j : Identity} (h : i ≠ j) (raw raw' : Value) (supplied supplied' : List String) :
    Value.equal (.parsed ⟨card.heading, raw, [("mark", markOf i)], supplied⟩)
      (.parsed ⟨card.heading, raw', [("mark", markOf j)], supplied'⟩) = false := by
  simp [markOf, markClass, Value.equal, Value.isNaN, Value.same, Value.sameFields, h]

/-- the mark that a card comes to that is read in a run, and is given none -/
def markIn (run : Nat) : Value := markOf (.made (.given 0) ⟨run, ["mark"]⟩)

theorem markIn_unequal {run run' : Nat} (h : run ≠ run') : (markIn run).equal (markIn run') = false :=
  equal_markOf_of_ne (by simpa using h)

end Intake
