/-
What a document can hold.

A document is written in plain data: its scalars are texts, numbers, dates and bytes, and its collections are lists,
sets and mappings of such data. Whatever a document holds, what is made of it is nothing else
(`Yaml.documentary_of_read`), and nothing in it can be called.

Induction is on the fuel: the parts of a collection are made with less.
-/
import Intake.Proofs.ValueParts
import Intake.Proofs.Outcome
import Intake.Yaml.Document

namespace Intake

open Intake.Outcome

namespace Value

def IsDocumentary : Value → Prop
  | .null | .bool _ | .int _ | .float _ | .text _ | .bytes _ _ | .date _ | .moment _ => True
  | .list _ | .tuple _ | .set _ _ | .map _ _ => True
  | _ => False

/-- data that a document can hold, at every depth -/
abbrev Documentary : Value → Prop := Throughout IsDocumentary

variable {v : Value}

theorem Documentary.not_callable (h : v.Documentary) : v.callable = false := by
  cases v with
  | type | answers | echoes => exact absurd h.here id
  | _ => rfl

end Value

namespace Yaml

/-! ## Parts -/

theorem of_both {α β : Type} {x : Make α} {y : Make β} {a : α} {b : β} (h : both x y = .ok (a, b)) :
    x = .ok a ∧ y = .ok b := by
  unfold both at h
  split at h <;> cases h
  exact ⟨rfl, rfl⟩

theorem mem_of_every {α : Type} {xs : List (Make α)} {ys : List α} (h : every xs = .ok ys) {y : α} (hy : y ∈ ys) :
    .ok y ∈ xs := by
  induction xs generalizing ys with
  | nil =>
    cases h
    cases hy
  | cons x xs ih =>
    obtain ⟨⟨a, as⟩, hboth, rfl⟩ := map_eq_ok.1 h
    obtain ⟨hx, hxs⟩ := of_both hboth
    rcases List.mem_cons.1 hy with rfl | hy
    · exact hx ▸ List.mem_cons_self
    · exact List.mem_cons_of_mem x (ih hxs hy)

/-! ## Scalars -/

theorem documentary_of_timestampValue {cs : List Char} {v : Value} (h : timestampValue cs = .ok v) : v.Documentary := by
  unfold timestampValue at h
  dsimp only at h
  split at h
  · cases h
  · obtain ⟨date, -, h⟩ := bind_eq_ok.1 h
    split at h
    · cases h
      exact .of_leaf trivial (by rintro x ⟨⟩)
    · obtain ⟨time, -, h⟩ := bind_eq_ok.1 h
      cases h
      exact .of_leaf trivial (by rintro x ⟨⟩)

theorem documentary_of_binaryValue {cs : List Char} {v : Value} (h : binaryValue cs = .ok v) : v.Documentary := by
  unfold binaryValue at h
  split at h
  · split at h
    · cases h
      exact .of_leaf trivial (by rintro x ⟨⟩)
    · cases h
  · cases h

theorem documentary_of_scalarValue {tag : Tag} {cs : List Char} {v : Value} (h : scalarValue tag cs = .ok v) :
    v.Documentary := by
  have of_made {x : Outcome Value} (hx : ∀ w, x = .ok w → w.Documentary) (h : made x = .ok v) : v.Documentary := by
    cases x with
    | error e => cases h
    | ok w => cases h; exact hx _ rfl
  unfold scalarValue at h
  split at h
  case h_5 => exact of_made (fun _ => documentary_of_timestampValue) h
  case h_6 => exact documentary_of_binaryValue h
  case h_8 => cases h
  case h_1 | h_7 =>
    cases h
    exact .of_leaf trivial (by rintro x ⟨⟩)
  all_goals
    refine of_made (fun w hw => ?_) h
    obtain ⟨y, -, rfl⟩ := map_eq_ok.1 hw
    exact .of_leaf trivial (by rintro x ⟨⟩)

/-! ## Collections -/

section Collections

variable {level : Nat} {makeNode : Node → Make Value} (hmade : ∀ n v, makeNode n = .ok v → v.Documentary)

include hmade

theorem documentary_of_makePair {e : Scan (Node × Node)} {v : Value} (h : makePair level makeNode e = .ok v) :
    v.Documentary := by
  unfold makePair at h
  split at h
  · cases h
  · obtain ⟨⟨a, b⟩, hboth, rfl⟩ := map_eq_ok.1 h
    obtain ⟨ha, hb⟩ := of_both hboth
    refine .intro trivial fun x hx => ?_
    cases hx with
    | place hx =>
      rcases List.mem_cons.1 hx with rfl | hx
      · exact hmade _ _ ha
      · rw [List.mem_singleton.1 hx]
        exact hmade _ _ hb

theorem documentary_of_makeEntry {e : Node × Node} {f : Value × Value} (h : makeEntry level makeNode e = .ok f) :
    f.1.Documentary ∧ f.2.Documentary := by
  unfold makeEntry at h
  split at h
  · cases h
  · obtain ⟨hkey, hvalue⟩ := of_both h
    exact ⟨hmade _ _ hkey, hmade _ _ hvalue⟩

theorem documentary_of_makeEntries {es : List (Node × Node)} {fs : List (Value × Value)}
    (h : makeEntries level makeNode es = .ok fs) : ∀ f ∈ fs, f.1.Documentary ∧ f.2.Documentary := by
  obtain ⟨es', -, h⟩ := bind_eq_ok.1 h
  obtain ⟨entries, hentries, h⟩ := bind_eq_ok.1 h
  cases h
  have hall : ∀ f ∈ entries, f.1.Documentary ∧ f.2.Documentary := by
    intro f hf
    obtain ⟨e, -, he⟩ := List.mem_map.1 (mem_of_every hentries hf)
    exact documentary_of_makeEntry hmade he
  intro f hf
  obtain ⟨⟨g, hg, hkey⟩, g', hg', hvalue⟩ := Value.of_ofEntries.1 f hf
  exact ⟨hkey ▸ (hall g hg).1, hvalue ▸ (hall g' hg').2⟩

end Collections

theorem documentary_of_every {xs : List (Make Value)} {ys : List Value} (h : every xs = .ok ys)
    (hxs : ∀ x ∈ xs, ∀ y, x = .ok y → y.Documentary) : (Value.list ys).Documentary :=
  Value.Throughout.list_iff.2 ⟨trivial, fun y hy => hxs _ (mem_of_every h hy) y rfl⟩

/-- whatever is made of a node is data that a document can hold -/
theorem documentary_of_make {fuel level : Nat} {n : Node} {v : Value} (h : make fuel level n = .ok v) :
    v.Documentary := by
  induction fuel generalizing level n v with
  | zero => cases h
  | succ fuel ih =>
    have hmade (level : Nat) : ∀ n v, make fuel level n = .ok v → v.Documentary := fun _ _ => ih
    unfold make at h
    dsimp only at h
    split at h
    · cases h
    · obtain ⟨ys, hys, rfl⟩ := map_eq_ok.1 h
      refine documentary_of_every hys fun x hx y hy => ?_
      obtain ⟨n, -, rfl⟩ := List.mem_map.1 hx
      exact ih hy
    · obtain ⟨ys, hys, rfl⟩ := map_eq_ok.1 h
      refine documentary_of_every hys fun x hx y hy => ?_
      obtain ⟨e, -, rfl⟩ := List.mem_map.1 hx
      exact documentary_of_makePair (hmade _) hy
    · obtain ⟨ys, hys, rfl⟩ := map_eq_ok.1 h
      refine documentary_of_every hys fun x hx y hy => ?_
      obtain ⟨e, -, rfl⟩ := List.mem_map.1 hx
      exact documentary_of_makePair (hmade _) hy
    · obtain ⟨fs, hfs, rfl⟩ := map_eq_ok.1 h
      exact Value.Throughout.map_iff.2 ⟨trivial, documentary_of_makeEntries (hmade _) hfs⟩
    · obtain ⟨fs, hfs, rfl⟩ := map_eq_ok.1 h
      refine .intro trivial fun x hx => ?_
      cases hx with
      | element hx =>
        obtain ⟨f, hf, rfl⟩ := List.mem_map.1 hx
        exact (documentary_of_makeEntries (hmade _) hfs f hf).1
    · split at h
      · cases h
      · split at h
        · next cs _ =>
          unfold met at h
          split at h
          · next hscalar =>
            cases h
            exact documentary_of_scalarValue hscalar
          · cases h
        · cases h

/-- **Whatever a document holds is such data.** -/
theorem documentary_of_read {text : String} {v : Value} (h : read text = .ok v) : v.Documentary := by
  obtain ⟨o, -, h⟩ := bind_eq_ok.1 h
  cases o with
  | none =>
    cases h
    exact .of_leaf trivial (by rintro x ⟨⟩)
  | some n =>
    dsimp only at h
    split at h
    · next hmake =>
      cases h
      exact documentary_of_make hmake
    · cases h

end Yaml

end Intake
