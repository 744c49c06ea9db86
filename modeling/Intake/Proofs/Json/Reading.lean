/-
What is read from JSON text.

Whatever a text holds, what is read from it is made of nothing, booleans, numbers, texts, lists and mappings; its
integers are short enough to be written, its binary numbers are in canonical form, and its mappings have texts as keys,
each once (`Json.read_isRead`). So it is untrusted input of the kind that a parse is made for (`Value.Read.ofJson`),
and it can be printed again (`Value.Read.printable`).

Induction is on the fuel, for the three readers of values, items and entries at once: each calls the others with less.
-/
import Intake.Proofs.Json.Numbers
import Intake.Proofs.Json.Printing
import Intake.Proofs.Untrusted

namespace Intake

open Intake.Text Intake.Number Intake.Outcome

namespace Value

/-- what reading makes: the one not-a-number datum of JSON has a payload of its own, and keys are texts that come once -/
def IsRead : Value → Prop
  | .null | .bool _ | .text _ | .list _ => True
  | .int n => (intText? n).isSome
  | .float x => x.Canonical ∧ ∀ p, x = .nan p → p = 1
  | .map readOnly es => readOnly = false ∧ (∀ e ∈ es, ∃ s, e.1 = .text s) ∧ es.Pairwise fun e f => sameKey f.1 e.1 = false
  | _ => False

/-- a value as reading makes it, at every depth -/
abbrev Read : Value → Prop := Throughout IsRead

variable {v : Value}

theorem Read.ofJson (h : v.Read) : v.OfJson := by
  refine h.imp fun x hx => ?_
  cases x with
  | float x => exact hx.1
  | map readOnly es => exact hx.2.1
  | _ => exact hx

theorem Read.printable (h : v.Read) : v.Printable := by
  refine h.imp fun x hx => ⟨?_, ?_⟩
  · cases x with
    | int n => exact hx
    | range a b s => exact absurd hx id
    | _ => trivial
  · rintro readOnly es rfl e he
    obtain ⟨s, hs⟩ := hx.2.1 e he
    exact ⟨s.toList, by rw [hs, Json.keyText]⟩

/-- what a built-in type makes of input has a text in JSON -/
theorem Read.printable_of_cast {t : ValueType} (ht : t.IsBuiltin) {strict : Bool} {w : Value} (hv : v.Read)
    (h : Registry.builtin.cast t strict v = .ok (.ok w)) : w.Printable := by
  refine Registry.throughout_of_cast ht (fun hw => ⟨?_, ?_⟩) (fun xs _ => ⟨trivial, by simp⟩)
    (fun readOnly es hes => ⟨trivial, ?_⟩)
    hv.printable h
  · exact (Registry.fit_of_cast ht hv.ofJson h).1.here
  · rintro readOnly es rfl
    exact absurd hw id
  · rintro _ _ ⟨⟩
    exact hes.2 _ _ rfl

theorem keyText_copiedAt (v : Value) (here : Place) : Json.keyText (v.copiedAt here) = Json.keyText v := by
  cases v with
  | object c i xs =>
    rw [copiedAt]
    split <;> rfl
  | _ => rfl

theorem hasJson_copiedAt (v : Value) (here : Place) (h : v.HasJson) : (v.copiedAt here).HasJson := by
  refine ⟨short_copiedAt v here h.1, fun readOnly es hes e he => ?_⟩
  cases v with
  | map _ fs =>
    cases hes
    rw [copiedEntriesAt_eq_map] at he
    obtain ⟨f, hf, rfl⟩ := List.mem_map.1 he
    rw [keyText_copiedAt]
    exact h.2 _ fs rfl f hf
  | object c i xs =>
    rw [copiedAt] at hes
    split at hes <;> cases hes
  | _ => cases hes

/-! ## Instances -/

theorem projectedFields_eq (supplied : List String) (fs : Fields) : projectedFields supplied fs =
    Fields.entries ((fs.filter fun f => supplied.contains f.1).map fun f => (f.1, f.2.projected)) := by
  induction fs with
  | nil => rfl
  | cons f fs ih =>
    obtain ⟨name, v⟩ := f
    rw [projectedFields, List.filter_cons, ih]
    split <;> rfl

theorem mem_projectedFields {supplied : List String} {fs : List (String × Value)} {e : Value × Value}
    (h : e ∈ projectedFields supplied fs) : ∃ f ∈ fs, e = (.text f.1, f.2.projected) := by
  rw [projectedFields_eq, Fields.entries, List.map_map] at h
  obtain ⟨f, hf, rfl⟩ := List.mem_map.1 h
  exact ⟨f, List.mem_of_mem_filter hf, rfl⟩

theorem printable_map_of_fields {es : List (Value × Value)} (h : ∀ e ∈ es, (∃ s, e.1 = .text s) ∧ e.2.Printable) :
    (Value.map false es).Printable := by
  refine Throughout.map_iff.2 ⟨⟨trivial, ?_⟩, fun e he => ?_⟩
  · rintro _ _ ⟨⟩ e he
    obtain ⟨⟨s, hs⟩, -⟩ := h e he
    exact ⟨s.toList, by rw [hs, Json.keyText]⟩
  · obtain ⟨⟨s, hs⟩, hv⟩ := h e he
    refine ⟨?_, hv⟩
    rw [hs]
    exact Throughout.text_iff.2 ⟨trivial, by simp⟩

/-- a projection has a text in JSON if the instance has one -/
theorem Printable.projected (h : v.Printable) : v.projected.Printable := by
  induction v using byInstances with
  | parsed p ih =>
    obtain ⟨heading, raw, values, supplied⟩ := p
    rw [Value.projected]
    refine printable_map_of_fields fun e he => ?_
    obtain ⟨f, hf, rfl⟩ := mem_projectedFields he
    exact ⟨⟨f.1, rfl⟩, ih f hf (h.child (.field hf))⟩
  | list xs ih =>
    rw [Value.projected, projectedAll_eq_map]
    refine Throughout.list_iff.2 ⟨⟨trivial, by simp⟩, fun x hx => ?_⟩
    obtain ⟨y, hy, rfl⟩ := List.mem_map.1 hx
    exact ih y hy (h.child (.item hy))
  | other v hv =>
    cases v with
    | parsed p => exact absurd rfl (hv.1 p)
    | list xs => exact absurd rfl (hv.2 xs)
    | _ => exact h

/-- what is shown of an instance has a text in JSON if the instance has one -/
theorem Printable.toHash {p : Instance} (h : (Value.parsed p).Printable) (recursive : Bool) :
    (Parsed.toHash p recursive).Printable := by
  cases recursive with
  | true => exact h.projected
  | false =>
    refine printable_map_of_fields fun e he => ?_
    obtain ⟨f, hf, rfl⟩ := List.mem_map.1 he
    exact ⟨⟨f.1, rfl⟩, h.child (.field (List.mem_of_mem_filter hf))⟩

end Value

namespace Json

/-! ## Scalars -/

theorem isRead_of_magnitude {negative : Bool} {cs rest : List Char} {v : Value}
    (h : magnitude negative cs = .ok (v, rest)) :
    v.Read := by
  have leaf {v : Value} (hv : v.IsRead) (h : ∀ x, ¬ Value.Child x v) : v.Read := .of_leaf hv h
  simp only [magnitude] at h
  split at h
  · cases h
  · next hds =>
    split at h
    · split at h
      · next n hn =>
        cases h
        refine leaf (short_of_ofDigits? (by simpa using hds) hn negative) fun x hx => by cases hx
      · cases h
    · cases h
      refine leaf ⟨Binary64.canonical_ofScientific _ _ _, fun p hp => absurd hp (Binary64.ofScientific_ne_nan _ _ _ p)⟩
        fun x hx => by cases hx

theorem isRead_of_named? {cs rest : List Char} {v : Value} (h : named? cs = some (v, rest)) : v.Read := by
  obtain ⟨n, hn, h⟩ := Option.map_eq_some_iff.1 h
  obtain ⟨rfl, -⟩ := Prod.mk.inj h
  have hmem := List.mem_of_find?_eq_some hn
  have hall : ∀ n ∈ ([("null", .null), ("true", .bool true), ("false", .bool false), ("NaN", .float (.nan 1)),
      ("Infinity", .float (.infinite false)), ("-Infinity", .float (.infinite true))] : List (String × Value)),
        n.2.IsRead := by
    simp [Value.IsRead, Binary64.Canonical]
  have hleaf : ∀ n ∈ ([("null", .null), ("true", .bool true), ("false", .bool false), ("NaN", .float (.nan 1)),
      ("Infinity", .float (.infinite false)), ("-Infinity", .float (.infinite true))] : List (String × Value)),
      ∀ x, ¬ Value.Child x n.2 := by
    simp only [List.forall_mem_cons]
    refine ⟨?_, ?_, ?_, ?_, ?_, ?_, by simp⟩ <;> rintro x ⟨⟩
  exact .of_leaf (hall n hmem) (hleaf n hmem)

theorem isRead_of_scalar {cs rest : List Char} {v : Value} (h : scalar cs = .ok (v, rest)) : v.Read := by
  unfold scalar at h
  split at h
  · next hn =>
    cases h
    exact isRead_of_named? hn
  · split at h
    · exact isRead_of_magnitude h
    · exact isRead_of_magnitude h

/-! ## Collections -/

theorem read_text (s : String) : (Value.text s).Read := .of_leaf trivial fun x hx => by cases hx

theorem read_map {es : List (Value × Value)} (h : ∀ e ∈ es, (∃ s, e.1 = .text s) ∧ e.2.Read) :
    (Value.map false (Value.ofEntries es)).Read := by
  obtain ⟨hparts, honce⟩ : _ ∧ (Value.ofEntries es).Pairwise _ := Value.of_ofEntries
  have hkeys : ∀ e ∈ Value.ofEntries es, ∃ s, e.1 = .text s := by
    intro e he
    obtain ⟨⟨f, hf, hkey⟩, -⟩ := hparts e he
    exact hkey ▸ (h f hf).1
  refine Value.Throughout.map_iff.2 ⟨⟨rfl, hkeys, honce⟩, fun e he => ⟨?_, ?_⟩⟩
  · obtain ⟨s, hs⟩ := hkeys e he
    rw [hs]
    exact read_text s
  · obtain ⟨-, f, hf, hvalue⟩ := hparts e he
    exact hvalue ▸ (h f hf).2

/-- what each of the readers makes with some fuel is as reading makes it -/
structure ReadsWith (fuel : Nat) : Prop where
  value : ∀ cs v rest, Json.value fuel cs = .ok (v, rest) → v.Read
  items : ∀ cs xs rest, Json.items fuel cs = .ok (xs, rest) → ∀ x ∈ xs, x.Read
  entries : ∀ cs es rest, Json.entries fuel cs = .ok (es, rest) → ∀ e ∈ es, (∃ s, e.1 = .text s) ∧ e.2.Read

theorem ReadsWith.value_succ {fuel : Nat} (ih : ReadsWith fuel) {cs rest : List Char} {v : Value}
    (h : Json.value (fuel + 1) cs = .ok (v, rest)) : v.Read := by
  unfold Json.value at h
  split at h
  · obtain ⟨⟨s, r⟩, -, h⟩ := map_eq_ok.1 h
    cases h
    exact read_text s
  · split at h
    · cases h
      exact Value.Throughout.list_iff.2 ⟨trivial, by simp⟩
    · obtain ⟨⟨xs, r⟩, hxs, h⟩ := map_eq_ok.1 h
      cases h
      exact Value.Throughout.list_iff.2 ⟨trivial, ih.items _ _ _ hxs⟩
  · split at h
    · cases h
      exact Value.Throughout.map_iff.2 ⟨⟨rfl, by simp, .nil⟩, by simp⟩
    · obtain ⟨⟨es, r⟩, hes, h⟩ := map_eq_ok.1 h
      cases h
      exact read_map (ih.entries _ _ _ hes)
  · exact isRead_of_scalar h

theorem ReadsWith.items_succ {fuel : Nat} (ih : ReadsWith fuel) {cs rest : List Char} {xs : List Value}
    (h : Json.items (fuel + 1) cs = .ok (xs, rest)) : ∀ x ∈ xs, x.Read := by
  unfold Json.items at h
  obtain ⟨⟨x, r⟩, hx, h⟩ := bind_eq_ok.1 h
  dsimp only at h
  split at h
  · cases h
    exact List.forall_mem_singleton.2 (ih.value _ _ _ hx)
  · obtain ⟨⟨ys, r'⟩, hys, h⟩ := bind_eq_ok.1 h
    cases h
    exact List.forall_mem_cons.2 ⟨ih.value _ _ _ hx, ih.items _ _ _ hys⟩
  · cases h

theorem ReadsWith.entries_succ {fuel : Nat} (ih : ReadsWith fuel) {cs rest : List Char} {es : List (Value × Value)}
    (h : Json.entries (fuel + 1) cs = .ok (es, rest)) : ∀ e ∈ es, (∃ s, e.1 = .text s) ∧ e.2.Read := by
  unfold Json.entries at h
  split at h
  · obtain ⟨⟨key, r⟩, -, h⟩ := bind_eq_ok.1 h
    dsimp only at h
    split at h
    · obtain ⟨⟨x, r'⟩, hx, h⟩ := bind_eq_ok.1 h
      dsimp only at h
      split at h
      · cases h
        exact List.forall_mem_singleton.2 ⟨⟨key, rfl⟩, ih.value _ _ _ hx⟩
      · obtain ⟨⟨fs, r''⟩, hfs, h⟩ := bind_eq_ok.1 h
        cases h
        exact List.forall_mem_cons.2 ⟨⟨⟨key, rfl⟩, ih.value _ _ _ hx⟩, ih.entries _ _ _ hfs⟩
      · cases h
    · cases h
  · cases h

theorem readsWith (fuel : Nat) : ReadsWith fuel := by
  induction fuel with
  | zero =>
    constructor
    · rintro cs v rest ⟨⟩
    · rintro cs xs rest ⟨⟩
    · rintro cs es rest ⟨⟩
  | succ fuel ih => exact ⟨fun _ _ _ => ih.value_succ, fun _ _ _ => ih.items_succ, fun _ _ _ => ih.entries_succ⟩

/-- **Whatever a text holds, what is read from it is as reading makes it.** -/
theorem read_isRead {s : String} {v : Value} (h : read s = .ok v) : v.Read := by
  obtain ⟨⟨w, rest⟩, hw, h⟩ := bind_eq_ok.1 h
  dsimp only at h
  split at h
  · cases h
    exact (readsWith _).value _ _ _ hw
  · cases h

end Json

namespace Definition

/-- **What input from JSON is parsed to has a text in JSON**, if the types of the definition are built-in ones and its
defaults have texts. -/
theorem printable_of_read {d : Definition}
    (ht : ∀ c, Within c d → ∀ a ∈ c.attributes, ∀ t, a.shape = .scalar t → t.IsBuiltin)
    (hdefaults : ∀ c, Within c d → ∀ a ∈ c.attributes, a.DefaultsTo Value.HasJson) {raw : Value} (hraw : raw.Read)
    {here : Place} {p : Instance} (hp : d.read .builtin here raw = .ok (.ok p)) : (Value.parsed p).Printable := by
  have leaf {v : Value} (hv : v.Short) (hmap : ∀ readOnly es, v ≠ .map readOnly es) : v.HasJson :=
    ⟨hv, fun readOnly es h => absurd h (hmap readOnly es)⟩
  refine throughout_of_read (Q := Value.IsRead) trivial (leaf trivial (by simp)) (fun xs => leaf trivial (by simp))
    (fun c hc a ha => ⟨fun _ v hv => Value.Read.printable hv, fun t hshape v w hv hw there => ?_⟩)
    (fun c hc a ha => (hdefaults c hc a ha).copiesTo Value.hasJson_copiedAt)
    (fun c _ _ raw' q _ => leaf trivial (by simp)) hraw hp
  have hbuiltin := ht c hc a ha t hshape
  rw [(Registry.makesNone_of_builtin hbuiltin).placedAt_eq_self hw]
  exact Value.Read.printable_of_cast hbuiltin hv hw

end Definition

end Intake
