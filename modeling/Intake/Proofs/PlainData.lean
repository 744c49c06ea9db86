/-
Plain data: what JSON and a document can both hold. Nothing, booleans, integers that can be written, finite
binary numbers, texts, and lists and mappings of these, the mappings under distinct texts (`Value.Plain`).

The plain form of plain data is that data (`Value.Plain.canonical_eq`).
-/
import Intake.Value.Canonical
import Intake.Proofs.Fields
import Intake.Proofs.Outcome

namespace Intake.Value

open Intake.Number

/-- data without anything of the program in it -/
inductive Plain : Value → Prop where
  | null : Plain .null
  | bool (b : Bool) : Plain (.bool b)
  | int {n : Int} (h : (intText? n).isSome) : Plain (.int n)
  | float {x : Binary64} (hf : x.isFinite = true) (hc : x.Canonical) : Plain (.float x)
  | text (s : String) : Plain (.text s)
  | list {xs : List Value} (h : ∀ x ∈ xs, Plain x) : Plain (.list xs)
  | map {fs : Fields} (hn : fs.names.Nodup) (h : ∀ f ∈ fs, Plain f.2) : Plain (.ofFields fs)

theorem Plain.fields {fs : Fields} (h : (ofFields fs).Plain) : fs.names.Nodup ∧ ∀ f ∈ fs, f.2.Plain := by
  generalize hv : ofFields fs = v at h
  cases h with
  | @map gs hn hall =>
    obtain rfl : fs = gs := Fields.entries_injective (Value.map.inj hv).2
    exact ⟨hn, hall⟩
  | _ => cases hv

@[simp] theorem plain_text (s : String) : (Value.text s).plain = .ok s := by
  simp [plain, plain?, written, calls, callLimit]

theorem canonicalAll_eq_of_forall {xs : List Value} (h : ∀ x ∈ xs, x.canonical = .ok x) : canonicalAll xs = .ok xs := by
  induction xs with
  | nil => rfl
  | cons x xs ih =>
    simp only [canonicalAll, h x List.mem_cons_self, ih fun y hy => h y (List.mem_cons_of_mem _ hy), Outcome.ok_bind]

/-- two values under one name, the second of which is the plain form of the first -/
def PlainForm (f g : String × Value) : Prop := g.1 = f.1 ∧ f.2.canonical = .ok g.2

theorem canonicalEntries_eq {fs gs : Fields} (h : List.Forall₂ PlainForm fs gs) :
    canonicalEntries fs.entries = .ok gs.entries := by
  induction h with
  | nil => rfl
  | @cons f g fs gs hfg _ ih =>
    obtain ⟨k, v⟩ := f
    obtain ⟨l, w⟩ := g
    obtain ⟨rfl, hv⟩ := hfg
    simp only [Fields.entries_cons, canonicalEntries, plain_text, hv, ih, Outcome.ok_bind]

theorem names_eq_of_plainForm {fs gs : Fields} (h : List.Forall₂ PlainForm fs gs) : gs.names = fs.names := by
  induction h with
  | nil => rfl
  | cons hfg _ ih => exact congrArg₂ List.cons hfg.1 ih

theorem canonical_ofFields {fs gs : Fields} (hn : fs.names.Nodup) (h : List.Forall₂ PlainForm fs gs) :
    (ofFields fs).canonical = .ok (ofFields gs) := by
  have hg : gs.names.Nodup := by rwa [names_eq_of_plainForm h]
  simp only [ofFields_eq, canonical, canonicalEntries_eq h, Outcome.ok_bind, ofEntries_entries hg]

theorem Plain.canonical_eq {v : Value} (h : v.Plain) : v.canonical = .ok v := by
  induction h with
  | null => rfl
  | bool b => rfl
  | int h => rfl
  | float hf hc => rfl
  | text s => rfl
  | list h ih => simp only [canonical, canonicalAll_eq_of_forall ih, Outcome.ok_bind]
  | map hn h ih => exact canonical_ofFields hn (List.forall₂_same.2 fun f hf => ⟨rfl, ih f hf⟩)

end Intake.Value
