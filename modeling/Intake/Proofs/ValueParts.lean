/-
Values by their parts, and what equality needs of them.

What holds of a value and of everything that it is put together from holds throughout it (`Value.Throughout`).
In a mapping each key comes once, and in an instance each name: where this holds throughout a value
(`Value.WellKeyed`), the value is equal to itself (`Value.same_self`), not-a-number data included. In a mapping that is
written entry by entry each key comes once (`Value.of_ofEntries`). Where no instance stands in a value, projecting it
changes nothing (`Value.projected_eq_self`).
-/
import Mathlib.Data.List.Basic
import Intake.Instance

namespace Intake

open Intake.Number

namespace Value

/-! ## Parts -/

/-- a value stands directly in another -/
inductive Child : Value → Value → Prop where
  | item {x : Value} {xs : List Value} (h : x ∈ xs) : Child x (.list xs)
  | place {x : Value} {xs : List Value} (h : x ∈ xs) : Child x (.tuple xs)
  | element {x : Value} {frozen : Bool} {xs : List Value} (h : x ∈ xs) : Child x (.set frozen xs)
  | key {e : Value × Value} {readOnly : Bool} {es : List (Value × Value)} (h : e ∈ es) : Child e.1 (.map readOnly es)
  | entry {e : Value × Value} {readOnly : Bool} {es : List (Value × Value)} (h : e ∈ es) : Child e.2 (.map readOnly es)
  | value {x : Value} {serial : Nat} : Child x (.member serial x)
  | content {x : Value} {c : HostClass} {i : Identity} {xs : List Value} (h : x ∈ xs) : Child x (.object c i xs)
  | field {f : String × Value} {p : Instance} (h : f ∈ p.values) : Child f.2 (.parsed p)

theorem Child.sizeOf_lt {x v : Value} (h : Child x v) : sizeOf x < sizeOf v := by
  cases h with
  | item h =>
    have := List.sizeOf_lt_of_mem h
    simp only [Value.list.sizeOf_spec]
    omega
  | place h =>
    have := List.sizeOf_lt_of_mem h
    simp only [Value.tuple.sizeOf_spec]
    omega
  | element h =>
    have := List.sizeOf_lt_of_mem h
    simp only [Value.set.sizeOf_spec]
    omega
  | @key e readOnly es h =>
    have := List.sizeOf_lt_of_mem h
    obtain ⟨k, v⟩ := e
    simp only [Value.map.sizeOf_spec, Prod.mk.sizeOf_spec] at this ⊢
    omega
  | @entry e readOnly es h =>
    have := List.sizeOf_lt_of_mem h
    obtain ⟨k, v⟩ := e
    simp only [Value.map.sizeOf_spec, Prod.mk.sizeOf_spec] at this ⊢
    omega
  | value =>
    simp only [Value.member.sizeOf_spec]
    omega
  | content h =>
    have := List.sizeOf_lt_of_mem h
    simp only [Value.object.sizeOf_spec]
    omega
  | @field f p h =>
    have := List.sizeOf_lt_of_mem h
    obtain ⟨name, v⟩ := f
    obtain ⟨heading, raw, values, supplied⟩ := p
    simp only [Value.parsed.sizeOf_spec, Parsed.mk.sizeOf_spec, Prod.mk.sizeOf_spec] at this ⊢
    omega

/-- what holds of a value whenever it holds of what stands directly in it holds of every one -/
@[elab_as_elim]
theorem byChildren {motive : Value → Prop} (parts : ∀ v, (∀ x, Child x v → motive x) → motive v) (v : Value) :
    motive v := by
  induction hn : sizeOf v using Nat.strongRecOn generalizing v with
  | ind n ih => exact parts v fun x hx => ih _ (hn ▸ hx.sizeOf_lt) x rfl

/-- what holds of a value and of everything that stands in it, at any depth -/
inductive Throughout (P : Value → Prop) : Value → Prop where
  | intro {v : Value} (here : P v) (inside : ∀ x, Child x v → Throughout P x) : Throughout P v

namespace Throughout

variable {P Q : Value → Prop} {v x : Value}

theorem here (h : Throughout P v) : P v := by
  cases h with
  | intro here _ => exact here

theorem child (h : Throughout P v) (hx : Child x v) : Throughout P x := by
  cases h with
  | intro _ inside => exact inside x hx

theorem imp (hPQ : ∀ x, P x → Q x) (h : Throughout P v) : Throughout Q v := by
  induction h with
  | intro here _ ih => exact .intro (hPQ _ here) ih

theorem of_leaf (hv : P v) (h : ∀ x, ¬ Child x v) : Throughout P v := .intro hv fun x hx => absurd hx (h x)

/-- what holds throughout a list or tuple holds throughout its elements -/
theorem items (h : Throughout P v) {xs : List Value} (hxs : v.items? = some xs) (hx : x ∈ xs) : Throughout P x := by
  cases v with
  | list ys => cases hxs; exact h.child (.item hx)
  | tuple ys => cases hxs; exact h.child (.place hx)
  | _ => cases hxs

theorem text_iff {s : String} : Throughout P (.text s) ↔ P (.text s) :=
  ⟨here, fun h => of_leaf h fun x hx => by cases hx⟩

theorem list_iff {xs : List Value} : Throughout P (.list xs) ↔ P (.list xs) ∧ ∀ x ∈ xs, Throughout P x := by
  refine ⟨fun h => ⟨h.here, fun x hx => h.child (.item hx)⟩, fun h => .intro h.1 fun x hx => ?_⟩
  cases hx with
  | item hx => exact h.2 x hx

theorem map_iff {readOnly : Bool} {es : List (Value × Value)} :
    Throughout P (.map readOnly es) ↔ P (.map readOnly es) ∧ ∀ e ∈ es, Throughout P e.1 ∧ Throughout P e.2 := by
  refine ⟨fun h => ⟨h.here, fun e he => ⟨h.child (.key he), h.child (.entry he)⟩⟩, fun h => .intro h.1 fun x hx => ?_⟩
  cases hx with
  | key he => exact (h.2 _ he).1
  | entry he => exact (h.2 _ he).2

end Throughout

/-! ## Equality -/

/-- each key of a mapping comes once, and each name of an instance -/
def KeyedOnce : Value → Prop
  | .map _ es => es.Pairwise fun e f => sameKey f.1 e.1 = false
  | .parsed p => (p.values.map (·.1)).Nodup
  | _ => True

/-- in every mapping inside each key comes once -/
abbrev WellKeyed : Value → Prop := Throughout KeyedOnce

theorem compareFinite_self (s : Bool) (c : Nat) (e : Int) : Decimal.compareFinite s c e s c e = .eq := by
  have hmag : Decimal.compareMagnitude c e c e = .eq := by
    have hadj : compare (Decimal.adjustedOf c e) (Decimal.adjustedOf c e) = .eq := Std.ReflCmp.compare_self
    have hone : Nat.pow 10 (e - e).natAbs = 1 := by rw [Int.sub_self]; rfl
    have hc : compare c c = .eq := Std.ReflCmp.compare_self
    simp only [Decimal.compareMagnitude, hadj, Int.le_refl, if_true, hone, Nat.mul_one, hc]
  unfold Decimal.compareFinite
  by_cases hc : c = 0
  · simp [hc]
  · cases s <;> simp [hc, hmag]

theorem sameNumber_float (x : Binary64) : sameNumber (.float x) (.float x) = true := by
  cases x with
  | nan p => simp [sameNumber]
  | infinite s => simp [sameNumber, numeric?, Decimal.ofBinary64, Decimal.numEq, Decimal.compare?]
  | finite s m e =>
    simp only [sameNumber, numeric?, Decimal.ofBinary64]
    split <;> simp [Decimal.numEq, Decimal.compare?, compareFinite_self]

theorem sameNumber_decimal (d : Decimal) : sameNumber (.decimal d) (.decimal d) = true := by
  cases d with
  | nan a b c n => simp [sameNumber]
  | infinite s => simp [sameNumber, numeric?, Decimal.numEq, Decimal.compare?]
  | finite s c e => simp [sameNumber, numeric?, Decimal.numEq, Decimal.compare?, compareFinite_self]

theorem sameList_self {xs : List Value} (h : ∀ x ∈ xs, same x x = true) : sameList xs xs = true := by
  induction xs with
  | nil => rw [sameList]
  | cons x xs ih =>
    rw [sameList, h x List.mem_cons_self, ih fun y hy => h y (List.mem_cons_of_mem x hy)]
    rfl

theorem sameMembers_of_mem {xs ys : List Value} (h : ∀ x ∈ xs, x ∈ ys ∧ same x x = true) : sameMembers xs ys = true := by
  induction xs with
  | nil => rw [sameMembers]
  | cons x xs ih =>
    obtain ⟨hmem, hself⟩ := h x List.mem_cons_self
    rw [sameMembers, List.any_eq_true.2 ⟨x, hmem, hself⟩, ih fun y hy => h y (List.mem_cons_of_mem x hy)]
    rfl

/-- under distinct keys each entry is found at its own key -/
theorem find?_sameKey {es : List (Value × Value)} (hn : es.Pairwise fun e f => sameKey f.1 e.1 = false)
    (hs : ∀ e ∈ es, same e.1 e.1 = true) {e : Value × Value} (he : e ∈ es) :
    es.find? (fun f => same e.1 f.1) = some e := by
  induction es with
  | nil => cases he
  | cons g es ih =>
    obtain ⟨hg, hn⟩ := List.pairwise_cons.1 hn
    obtain ⟨-, hs'⟩ := List.forall_mem_cons.1 hs
    rcases List.mem_cons.1 he with rfl | he'
    · exact List.find?_cons_of_pos (hs e List.mem_cons_self)
    · have hne : same e.1 g.1 = false := hg e he'
      rw [List.find?_cons, hne]
      exact ih hn hs' he'

theorem sameEntries_of_mem {es fs : List (Value × Value)}
    (h : ∀ e ∈ es, fs.find? (fun f => same e.1 f.1) = some e ∧ same e.2 e.2 = true) : sameEntries es fs = true := by
  induction es with
  | nil => rw [sameEntries]
  | cons e es ih =>
    obtain ⟨hfind, hself⟩ := h e List.mem_cons_self
    rw [sameEntries, hfind, ih fun f hf => h f (List.mem_cons_of_mem e hf)]
    simp [hself]

theorem sameFields_of_mem {vs ws : List (String × Value)}
    (h : ∀ f ∈ vs, ws.find? (fun g => f.1 == g.1) = some f ∧ same f.2 f.2 = true) : sameFields vs ws = true := by
  induction vs with
  | nil => rw [sameFields]
  | cons f vs ih =>
    obtain ⟨hfind, hself⟩ := h f List.mem_cons_self
    rw [sameFields, hfind, ih fun g hg => h g (List.mem_cons_of_mem f hg)]
    simp [hself]

/-- under distinct names each field is found at its own name -/
theorem find?_name {vs : List (String × Value)} (hn : (vs.map (·.1)).Nodup) {f : String × Value} (hf : f ∈ vs) :
    vs.find? (fun g => f.1 == g.1) = some f := by
  induction vs with
  | nil => cases hf
  | cons g vs ih =>
    rw [List.map_cons, List.nodup_cons] at hn
    rcases List.mem_cons.1 hf with rfl | hf'
    · simp
    · have hne : f.1 ≠ g.1 := fun e => hn.1 (e ▸ List.mem_map_of_mem hf')
      exact (List.find?_cons_of_neg (by simpa using hne)).trans (ih hn.2 hf')

/-- **Every value whose mappings have each key once is equal to itself.** -/
theorem same_self {v : Value} (h : v.WellKeyed) : same v v = true := by
  induction h with
  | @intro v here _ ih =>
    cases v with
    | null => simp [same]
    | missing => simp [same]
    | bool b => simp [same, sameNumber, numeric?, Decimal.ofInt, Decimal.numEq, Decimal.compare?, compareFinite_self]
    | int n => simp [same, sameNumber]
    | float x => simp [same, sameNumber_float]
    | decimal d => simp [same, sameNumber_decimal]
    | text s => simp [same, text?]
    | textMember s => simp [same, text?]
    | member n x => simp [same]
    | bytes m bs => simp [same]
    | date d => simp [same]
    | moment m => cases ho : m.time.offset <;> simp [same, Calendar.Moment.sameInstant, ho]
    | time t => cases ho : t.offset <;> simp [same, Calendar.Time.same, ho]
    | uuid u => simp [same]
    | list xs => rw [same]; exact sameList_self fun x hx => ih x (.item hx)
    | tuple xs => rw [same]; exact sameList_self fun x hx => ih x (.place hx)
    | set f xs =>
      have hmem : sameMembers xs xs = true := sameMembers_of_mem fun x hx => ⟨hx, ih x (.element hx)⟩
      simp [same, hmem]
    | range a b s => simp [same, sameRange]
    | map ro es =>
      have hkeys : ∀ e ∈ es, same e.1 e.1 = true := fun e he => ih e.1 (.key he)
      have hall : sameEntries es es = true :=
        sameEntries_of_mem fun e he => ⟨find?_sameKey here hkeys he, ih e.2 (.entry he)⟩
      simp [same, hall]
    | type t => simp [same]
    | object c n xs => simp [same, sameList_self fun x hx => ih x (.content hx)]
    | answers n x => simp [same]
    | echoes n => simp [same]
    | pattern s => simp [same]
    | schema k => simp [same]
    | parsed p =>
      obtain ⟨heading, raw, values, supplied⟩ := p
      have hall : sameFields values values = true := sameFields_of_mem fun f hf =>
        ⟨find?_name here hf, ih f.2 (.field hf)⟩
      simp [same, hall]

/-! ## Entries written one by one -/

theorem of_mem_insertEntry {k v : Value} {es : List (Value × Value)} {e : Value × Value} (h : e ∈ insertEntry k v es) :
    (e.1 = k ∨ ∃ f ∈ es, f.1 = e.1) ∧ (e.2 = v ∨ ∃ f ∈ es, f.2 = e.2) := by
  induction es with
  | nil =>
    obtain rfl := List.mem_singleton.1 h
    exact ⟨.inl rfl, .inl rfl⟩
  | cons f es ih =>
    obtain ⟨l, w⟩ := f
    rw [insertEntry] at h
    split at h
    · rcases List.mem_cons.1 h with rfl | h
      · exact ⟨.inr ⟨_, List.mem_cons_self, rfl⟩, .inl rfl⟩
      · exact ⟨.inr ⟨e, List.mem_cons_of_mem _ h, rfl⟩, .inr ⟨e, List.mem_cons_of_mem _ h, rfl⟩⟩
    · rcases List.mem_cons.1 h with rfl | h
      · exact ⟨.inr ⟨_, List.mem_cons_self, rfl⟩, .inr ⟨_, List.mem_cons_self, rfl⟩⟩
      · obtain ⟨hkey, hvalue⟩ := ih h
        exact ⟨hkey.imp_right (Exists.imp fun f hf => hf.imp_left (List.mem_cons_of_mem _)),
          hvalue.imp_right (Exists.imp fun f hf => hf.imp_left (List.mem_cons_of_mem _))⟩

theorem keyedOnce_insertEntry {k v : Value} {es : List (Value × Value)}
    (h : es.Pairwise fun e f => sameKey f.1 e.1 = false) :
    (insertEntry k v es).Pairwise fun e f => sameKey f.1 e.1 = false := by
  induction es with
  | nil => exact List.pairwise_singleton _ _
  | cons f es ih =>
    obtain ⟨l, w⟩ := f
    obtain ⟨hl, hes⟩ := List.pairwise_cons.1 h
    rw [insertEntry]
    split
    · exact List.pairwise_cons.2 ⟨hl, hes⟩
    · next hk =>
      refine List.pairwise_cons.2 ⟨fun e he => ?_, ih hes⟩
      rcases (of_mem_insertEntry he).1 with hkey | ⟨f, hf, hkey⟩
      · rw [hkey]
        exact Bool.eq_false_iff.2 hk
      · rw [← hkey]
        exact hl f hf

/-- entries written one by one are from the list, and each key comes once -/
theorem of_ofEntries {es : List (Value × Value)} :
    (∀ e ∈ ofEntries es, (∃ f ∈ es, f.1 = e.1) ∧ ∃ f ∈ es, f.2 = e.2) ∧
      (ofEntries es).Pairwise fun e f => sameKey f.1 e.1 = false := by
  have from_acc (acc : List (Value × Value)) (hacc : acc.Pairwise fun e f => sameKey f.1 e.1 = false) :
      (∀ e ∈ es.foldl (fun acc e => insertEntry e.1 e.2 acc) acc,
        (∃ f ∈ acc ++ es, f.1 = e.1) ∧ ∃ f ∈ acc ++ es, f.2 = e.2) ∧
      (es.foldl (fun acc e => insertEntry e.1 e.2 acc) acc).Pairwise fun e f => sameKey f.1 e.1 = false := by
    induction es generalizing acc with
    | nil => exact ⟨fun e he => ⟨⟨e, by simpa using he, rfl⟩, e, by simpa using he, rfl⟩, hacc⟩
    | cons x es ih =>
      obtain ⟨hparts, hkeys⟩ := ih (insertEntry x.1 x.2 acc) (keyedOnce_insertEntry hacc)
      refine ⟨fun e he => ?_, hkeys⟩
      have lift {f : Value × Value} (hf : f ∈ insertEntry x.1 x.2 acc ++ es) :
          (∃ g ∈ acc ++ x :: es, g.1 = f.1) ∧ ∃ g ∈ acc ++ x :: es, g.2 = f.2 := by
        rcases List.mem_append.1 hf with hf | hf
        · obtain ⟨hkey, hvalue⟩ := of_mem_insertEntry hf
          constructor
          · rcases hkey with hkey | ⟨g, hg, hkey⟩
            · exact ⟨x, by simp, hkey.symm⟩
            · exact ⟨g, List.mem_append_left _ hg, hkey⟩
          · rcases hvalue with hvalue | ⟨g, hg, hvalue⟩
            · exact ⟨x, by simp, hvalue.symm⟩
            · exact ⟨g, List.mem_append_left _ hg, hvalue⟩
        · have hmem : f ∈ acc ++ x :: es := List.mem_append_right _ (List.mem_cons_of_mem _ hf)
          exact ⟨⟨f, hmem, rfl⟩, f, hmem, rfl⟩
      obtain ⟨⟨f, hf, hkey⟩, g, hg, hvalue⟩ := hparts e he
      exact ⟨hkey ▸ (lift hf).1, hvalue ▸ (lift hg).2⟩
  simpa [ofEntries] using from_acc [] .nil

/-- entries whose keys come once stand as they were given -/
theorem ofEntries_of_once {es : List (Value × Value)} (h : es.Pairwise fun e f => sameKey f.1 e.1 = false) :
    ofEntries es = es := by
  have insert_new {k v : Value} {es : List (Value × Value)} (h : ∀ e ∈ es, sameKey k e.1 = false) :
      insertEntry k v es = es ++ [(k, v)] := by
    induction es with
    | nil => rfl
    | cons e es ih =>
      obtain ⟨l, w⟩ := e
      obtain ⟨hl, hes⟩ := List.forall_mem_cons.1 h
      rw [insertEntry, if_neg (by simpa using hl), ih hes, List.cons_append]
  have from_acc (acc : List (Value × Value)) (h : (acc ++ es).Pairwise fun e f => sameKey f.1 e.1 = false) :
      es.foldl (fun acc e => insertEntry e.1 e.2 acc) acc = acc ++ es := by
    clear * - insert_new h
    induction es generalizing acc with
    | nil => rw [List.foldl_nil, List.append_nil]
    | cons e es ih =>
      have hnew : ∀ f ∈ acc, sameKey e.1 f.1 = false := fun f hf =>
        (List.pairwise_append.1 h).2.2 f hf e List.mem_cons_self
      rw [List.foldl_cons, insert_new hnew, ih _ (by simpa using h), List.append_assoc, List.singleton_append]
  exact from_acc [] h

/-! ## Instances -/

def IsParsed : Value → Prop
  | .parsed _ => True
  | _ => False

/-- no instance stands anywhere inside -/
abbrev WithoutInstances : Value → Prop := Throughout fun v => ¬ v.IsParsed

theorem projectedAll_eq_self {xs : List Value} (h : ∀ x ∈ xs, projected x = x) : projectedAll xs = xs := by
  induction xs with
  | nil => rfl
  | cons x xs ih => rw [projectedAll, h x List.mem_cons_self, ih fun y hy => h y (List.mem_cons_of_mem x hy)]

/-- projecting a value without instances changes nothing -/
theorem projected_eq_self {v : Value} (h : v.WithoutInstances) : projected v = v := by
  induction h with
  | @intro v here _ ih =>
    cases v with
    | parsed p => exact absurd trivial here
    | list xs => rw [projected, projectedAll_eq_self fun x hx => ih x (.item hx)]
    | _ => rfl

end Value

end Intake
