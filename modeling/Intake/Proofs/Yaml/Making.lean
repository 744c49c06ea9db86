/-
Values from their nodes.

A node makes a value with fuel of its height, at every level (`Makes`): a scalar the value of its text, a list the
values of its items, and a mapping under distinct texts those texts with the values of its entries. A mapping whose
keys are texts merges nothing.
-/
import Intake.Yaml.Document
import Intake.Proofs.PlainData

namespace Intake.Yaml

open Intake.Outcome

/-- **A node makes a value.** -/
def Makes (n : Node) (v : Value) : Prop := ∀ {fuel : Nat} (level : Nat), n.height ≤ fuel → make fuel level n = .ok v

/-- an entry under a text -/
structure MakesEntry (e : Node × Node) (f : String × Value) : Prop where
  key : e.1 = .scalar .text f.1.toList
  value : Makes e.2 f.2

variable {ns : List Node} {vs : List Value} {es : List (Node × Node)} {fs : Fields}

/-! ## Scalars -/

theorem makes_scalar {tag : Tag} {cs : List Char} {v : Value} (ht : tag.isCollection = false)
    (h : scalarValue tag cs = .ok v) : Makes (.scalar tag cs) v := by
  intro fuel level hf
  obtain ⟨fuel, rfl⟩ := Nat.exists_eq_add_of_le (show 1 ≤ fuel from hf)
  rw [Nat.add_comm]
  have hmet : met level (scalarValue tag cs) = .ok v := by
    rw [h]
    rfl
  cases tag with
  | list | hash | set | pairs | orderedPairs => cases ht
  | _ => exact hmet

/-! ## Lists -/

theorem every_eq {α β : Type} {f : α → Make β} {xs : List α} {ys : List β}
    (h : List.Forall₂ (fun x y => f x = .ok y) xs ys) :
    every (xs.map f) = .ok ys := by
  induction h with
  | nil => rfl
  | cons hxy _ ih =>
    rw [List.map_cons, every, hxy, ih]
    rfl

theorem height_le_of_mem {x : Node} (h : x ∈ ns) : x.height ≤ Node.heightOfAll ns := by
  induction ns with
  | nil => cases h
  | cons y ns ih =>
    rw [Node.heightOfAll]
    rcases List.mem_cons.1 h with rfl | h
    · exact Nat.le_max_left ..
    · exact Nat.le_trans (ih h) (Nat.le_max_right ..)

/-- **Items make a list.** -/
theorem makes_list (h : List.Forall₂ Makes ns vs) : Makes (.list .list ns) (.list vs) := by
  intro fuel level hf
  rw [Node.height] at hf
  obtain ⟨fuel, rfl⟩ := Nat.exists_eq_add_of_le (Nat.le_trans (Nat.succ_le_succ (Nat.zero_le _)) hf)
  have hitems : every (ns.map (make fuel (level + 1))) = .ok vs := by
    refine every_eq ?_
    have hheight : ∀ x ∈ ns, x.height ≤ fuel := fun x hx => by
      have := height_le_of_mem hx
      omega
    clear hf
    induction h with
    | nil => exact .nil
    | cons hxv _ ih =>
      obtain ⟨hx, hxs⟩ := List.forall_mem_cons.1 hheight
      exact .cons (hxv (level + 1) hx) (ih hxs)
  rw [Nat.add_comm]
  change (every (ns.map (make fuel (level + 1)))).map Value.list = _
  rw [hitems]
  rfl

/-! ## Mappings -/

theorem height_le_of_mem_entries {e : Node × Node} (h : e ∈ es) : e.1.height ≤ Node.heightOfEntries es ∧
    e.2.height ≤ Node.heightOfEntries es := by
  induction es with
  | nil => cases h
  | cons d es ih =>
    obtain ⟨k, v⟩ := d
    rw [Node.heightOfEntries]
    rcases List.mem_cons.1 h with rfl | h
    · exact ⟨Nat.le_trans (Nat.le_max_left ..) (Nat.le_max_left ..),
        Nat.le_trans (Nat.le_max_right ..) (Nat.le_max_left ..)⟩
    · have := ih h
      exact ⟨Nat.le_trans this.1 (Nat.le_max_right ..), Nat.le_trans this.2 (Nat.le_max_right ..)⟩

theorem allEntries_eq (h : List.Forall₂ MakesEntry es fs) : Node.allEntries es = .ok es := by
  have hflatten : Node.flatten es = .ok ([], es) := by
    induction h with
    | nil => rfl
    | @cons e f es fs hef _ ih =>
      obtain ⟨k, v⟩ := e
      obtain rfl : k = .scalar .text f.1.toList := hef.key
      rw [Node.flatten, ih]
      rfl
  rw [Node.allEntries, hflatten]
  rfl

/-- **Entries under texts make a mapping**, in which of those under one text the first gives the place and the last the
value. -/
theorem makes_entries (h : List.Forall₂ MakesEntry es fs) :
    Makes (.mapping .hash es) (.map false (Value.ofEntries fs.entries)) := by
  intro fuel level hf
  rw [Node.height] at hf
  obtain ⟨fuel, rfl⟩ := Nat.exists_eq_add_of_le (Nat.le_trans (Nat.succ_le_succ (Nat.zero_le _)) hf)
  have hentries : every (es.map (makeEntry (level + 1) (make fuel (level + 1)))) = .ok fs.entries := by
    refine every_eq ?_
    have hheight : ∀ e ∈ es, e.1.height ≤ fuel ∧ e.2.height ≤ fuel := fun e he => by
      have := height_le_of_mem_entries he
      omega
    clear hf
    induction h with
    | nil => exact .nil
    | @cons e f es fs hef _ ih =>
      obtain ⟨he, hes⟩ := List.forall_mem_cons.1 hheight
      refine .cons ?_ (ih hes)
      obtain ⟨k, v⟩ := e
      obtain rfl : k = .scalar .text f.1.toList := hef.key
      have hkey : make fuel (level + 1) (.scalar .text f.1.toList) = .ok (.text f.1) :=
        makes_scalar rfl (by simp [scalarValue]) (level + 1) he.1
      have hvalue := hef.value (level + 1) he.2
      change both (make fuel (level + 1) (.scalar .text f.1.toList)) (make fuel (level + 1) v) = _
      rw [hkey, hvalue]
      rfl
  rw [Nat.add_comm]
  change (makeEntries (level + 1) (make fuel (level + 1)) es).map (Value.map false) = _
  have hmade : makeEntries (level + 1) (make fuel (level + 1)) es = .ok (Value.ofEntries fs.entries) := by
    unfold makeEntries
    rw [allEntries_eq h]
    simp only [met, hentries, Except.bind, bind]
  rw [hmade]
  rfl

/-- under distinct texts these are all the entries of the mapping -/
theorem makes_mapping (h : List.Forall₂ MakesEntry es fs) (hn : fs.names.Nodup) :
    Makes (.mapping .hash es) (.ofFields fs) := by
  have hmade : Makes (.mapping .hash es) (.map false (Value.ofEntries fs.entries)) := makes_entries h
  rwa [Value.ofEntries_entries hn] at hmade

theorem read_of_makes {text : String} {n : Node} {v : Value} (ht : Node.ofText text.toList = .ok (some n))
    (h : Makes n v) :
    read text = .ok v := by
  simp only [read, ht, h 0 (Nat.le_refl _), bind, Except.bind]

end Intake.Yaml
