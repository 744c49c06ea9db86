/-
Mappings whose keys are texts, as lists of fields.

A mapping that documents hold is written field by field (`Fields.entries`). As long as no name comes twice,
looking a name up, taking it out and writing the entries anew are what they are on the fields
(`field?_entries`, `removeKey_entries`, `ofEntries_entries`).
-/
import Intake.Value.Equality

namespace Intake

/-- what a mapping holds under names -/
abbrev Fields := List (String × Value)

namespace Fields

def entries (fs : Fields) : List (Value × Value) := fs.map fun (k, v) => (.text k, v)

def names (fs : Fields) : List String := fs.map (·.1)

def without (name : String) (fs : Fields) : Fields := fs.filter fun f => f.1 != name

@[simp] theorem entries_nil : entries [] = [] := rfl

@[simp] theorem entries_cons (k : String) (v : Value) (fs : Fields) :
    entries ((k, v) :: fs) = (.text k, v) :: entries fs := rfl

@[simp] theorem entries_append (fs gs : Fields) : entries (fs ++ gs) = entries fs ++ entries gs := List.map_append

theorem entries_injective {fs gs : Fields} (h : fs.entries = gs.entries) : fs = gs := by
  refine (List.map_inj_right fun f g hfg => ?_).1 h
  exact Prod.ext (Value.text.inj (Prod.mk.inj hfg).1) (Prod.mk.inj hfg).2

@[simp] theorem names_nil : names [] = [] := rfl

@[simp] theorem names_cons (k : String) (v : Value) (fs : Fields) : names ((k, v) :: fs) = k :: names fs := rfl

@[simp] theorem names_append (fs gs : Fields) : names (fs ++ gs) = names fs ++ names gs := List.map_append

@[simp] theorem without_nil (name : String) : without name [] = [] := rfl

theorem without_cons_self (name : String) (v : Value) (fs : Fields) :
    without name ((name, v) :: fs) = without name fs := by
  simp [without]

theorem without_cons_ne {name k : String} (h : k ≠ name) (v : Value) (fs : Fields) :
    without name ((k, v) :: fs) = (k, v) :: without name fs := by
  simp [without, h]

theorem without_eq_self {name : String} {fs : Fields} (h : name ∉ fs.names) : fs.without name = fs := by
  refine List.filter_eq_self.2 fun f hf => ?_
  have : f.1 ≠ name := fun e => h (e ▸ List.mem_map_of_mem hf)
  simpa using this

theorem without_append (name : String) (fs gs : Fields) : (fs ++ gs).without name = fs.without name ++ gs.without name :=
  List.filter_append ..

theorem lookup_eq_none {name : String} {fs : Fields} (h : name ∉ fs.names) : fs.lookup name = none := by
  refine List.lookup_eq_none_iff.2 fun f hf => ?_
  have : name ≠ f.1 := fun e => h (e ▸ List.mem_map_of_mem hf)
  simpa using this

theorem lookup_append_right {name : String} {fs gs : Fields} (h : name ∉ fs.names) :
    (fs ++ gs).lookup name = gs.lookup name := by
  rw [List.lookup_append, lookup_eq_none h, Option.none_or]

end Fields

namespace Value

open Fields

theorem ofFields_eq (fs : Fields) : ofFields fs = .map false fs.entries := rfl

@[simp] theorem sameKey_texts (k l : String) : sameKey (.text k) (.text l) = (k == l) := by
  simp only [sameKey, same, text?, Option.some_beq_some]
  exact Bool.beq_comm

@[simp] theorem lookup?_text (name : String) (es : List (Value × Value)) : lookup? (.text name) es = field? name es := rfl

theorem field?_entries (name : String) (fs : Fields) : field? name fs.entries = fs.lookup name := by
  induction fs with
  | nil => rfl
  | cons f fs ih =>
    obtain ⟨k, v⟩ := f
    unfold field? lookup? at ih ⊢
    rw [entries_cons, List.find?_cons, List.lookup_cons, sameKey_texts]
    by_cases h : name = k
    · simp [h]
    · simp only [beq_eq_false_iff_ne.2 h]
      exact ih

theorem removeKey_entries (name : String) (fs : Fields) : removeKey name fs.entries = (fs.without name).entries := by
  induction fs with
  | nil => rfl
  | cons f fs ih =>
    obtain ⟨k, v⟩ := f
    simp only [removeKey, entries_cons, List.filter_cons, sameKey_texts] at ih ⊢
    by_cases h : k = name
    · subst h; simp [without_cons_self, ih]
    · simp [Ne.symm h, without_cons_ne h, ih]

/-- another name is found as before when one is taken out -/
theorem field?_removeKey {name other : String} (h : name ≠ other) (es : List (Value × Value)) :
    field? name (removeKey other es) = field? name es := by
  unfold field? lookup? removeKey
  rw [List.find?_filter]
  congr 2
  funext e
  have hsame (s : String) : sameKey (.text s) e.1 = (e.1.text? == some s) := by simp [sameKey, same]
  rw [hsame, hsame]
  cases e.1.text? with
  | none => rfl
  | some t => by_cases ht : t = name <;> simp_all

theorem insertEntry_of_new {name : String} {fs : Fields} (h : name ∉ fs.names) (v : Value) :
    insertEntry (.text name) v fs.entries = (fs ++ [(name, v)]).entries := by
  induction fs with
  | nil => rfl
  | cons f fs ih =>
    obtain ⟨k, w⟩ := f
    simp only [names_cons, List.mem_cons, not_or] at h
    simp [insertEntry, h.1, ih h.2]

/-- fields that are written one by one, each name once, stand as they were given -/
theorem ofEntries_entries {fs : Fields} (h : fs.names.Nodup) : ofEntries fs.entries = fs.entries := by
  have written : ∀ gs : Fields, (gs.names ++ fs.names).Nodup →
      fs.entries.foldl (fun acc e => insertEntry e.1 e.2 acc) gs.entries = (gs ++ fs).entries := by
    clear h
    induction fs with
    | nil => intro gs _; simp
    | cons f fs ih =>
      obtain ⟨k, v⟩ := f
      intro gs hn
      have hk : k ∉ gs.names := fun hk => (List.nodup_append.1 hn).2.2 k hk k List.mem_cons_self rfl
      rw [entries_cons, List.foldl_cons, insertEntry_of_new hk, ih]
      · simp
      · simpa using hn
  exact written [] h

end Value

/-- what is found under a name stands under a key of that text -/
theorem any_of_field? {name : String} {es : List (Value × Value)} {v : Value} (h : Value.field? name es = some v) :
    ∃ e ∈ es, (Value.text name).sameKey e.1 = true ∧ e.2 = v := by
  unfold Value.field? Value.lookup? at h
  obtain ⟨e, he, hv⟩ := Option.map_eq_some_iff.1 h
  have hsame := List.find?_some he
  exact ⟨e, List.mem_of_find?_eq_some he, hsame, hv⟩

/-- what holds of every value of a mapping holds of what is found under a name -/
theorem of_field? {P : Value → Prop} {name : String} {es : List (Value × Value)} {v : Value} (hes : ∀ e ∈ es, P e.2)
    (h : Value.field? name es = some v) : P v := by
  obtain ⟨e, he, -, rfl⟩ := any_of_field? h
  exact hes e he

end Intake
