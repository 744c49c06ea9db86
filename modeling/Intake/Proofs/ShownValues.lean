/-
Values that have texts.

An integer may be too long to be written, and a value may be nested too deep. Where every integer inside a value is short
enough (`Value.Writable`) and the calls for its text do not go too deep, the value has both its texts, the one that tells
its kind and the one for readers (`Value.shown_ok`, `Value.plain_ok`).
-/
import Intake.Proofs.ValueParts
import Intake.Value.Show

namespace Intake

open Intake.Number

namespace Value

/-- the integers that stand here are short enough to be written -/
def Short : Value → Prop
  | .int n => (intText? n).isSome
  | .range a b s => (intText? a).isSome ∧ (intText? b).isSome ∧ (intText? s).isSome
  | _ => True

/-- every integer inside is short enough to be written -/
abbrev Writable : Value → Prop := Throughout Short

theorem shownAll?_isSome {xs : List Value} (h : ∀ x ∈ xs, x.shown?.isSome) : (shownAll? xs).isSome := by
  induction xs with
  | nil => rfl
  | cons x xs ih =>
    obtain ⟨t, ht⟩ := Option.isSome_iff_exists.1 (h x List.mem_cons_self)
    obtain ⟨ts, hts⟩ := Option.isSome_iff_exists.1 (ih fun y hy => h y (List.mem_cons_of_mem x hy))
    rw [shownAll?, ht, hts]
    rfl

theorem shownEntries?_isSome {es : List (Value × Value)} (h : ∀ e ∈ es, e.1.shown?.isSome ∧ e.2.shown?.isSome) :
    (shownEntries? es).isSome := by
  induction es with
  | nil => rfl
  | cons e es ih =>
    obtain ⟨hk, hv⟩ := h e List.mem_cons_self
    obtain ⟨k, hk⟩ := Option.isSome_iff_exists.1 hk
    obtain ⟨v, hv⟩ := Option.isSome_iff_exists.1 hv
    obtain ⟨ts, hts⟩ := Option.isSome_iff_exists.1 (ih fun f hf => h f (List.mem_cons_of_mem e hf))
    rw [shownEntries?, hk, hv, hts]
    rfl

theorem shownFields?_isSome (supplied : List String) {fs : List (String × Value)} (h : ∀ f ∈ fs, f.2.shown?.isSome) :
    (shownFields? supplied fs).isSome := by
  induction fs with
  | nil => rfl
  | cons f fs ih =>
    obtain ⟨v, hv⟩ := Option.isSome_iff_exists.1 (h f List.mem_cons_self)
    obtain ⟨ts, hts⟩ := Option.isSome_iff_exists.1 (ih fun g hg => h g (List.mem_cons_of_mem f hg))
    rw [shownFields?, hts]
    cases supplied.contains f.1 <;> simp [hv]

/-- a value whose integers can be written has a text that tells its kind -/
theorem shown?_isSome {v : Value} (h : v.Writable) : v.shown?.isSome := by
  induction h with
  | @intro v here _ ih =>
    cases v with
    | int n => exact here
    | member n x =>
      obtain ⟨t, ht⟩ := Option.isSome_iff_exists.1 (ih x .value)
      rw [shown?, ht]
      rfl
    | bytes m bs => cases m <;> rfl
    | list xs =>
      obtain ⟨ts, hts⟩ := Option.isSome_iff_exists.1 (shownAll?_isSome fun x hx => ih x (.item hx))
      rw [shown?, hts]
      rfl
    | tuple xs =>
      obtain ⟨ts, hts⟩ := Option.isSome_iff_exists.1 (shownAll?_isSome fun x hx => ih x (.place hx))
      rw [shown?, hts]
      rfl
    | set frozen xs =>
      obtain ⟨ts, hts⟩ := Option.isSome_iff_exists.1 (shownAll?_isSome fun x hx => ih x (.element hx))
      rw [shown?, hts]
      rfl
    | range a b s =>
      obtain ⟨ha, hb, hs⟩ := here
      obtain ⟨a', ha⟩ := Option.isSome_iff_exists.1 ha
      obtain ⟨b', hb⟩ := Option.isSome_iff_exists.1 hb
      obtain ⟨s', hs⟩ := Option.isSome_iff_exists.1 hs
      rw [shown?, ha, hb, hs]
      rfl
    | map readOnly es =>
      obtain ⟨ts, hts⟩ :=
        Option.isSome_iff_exists.1 (shownEntries?_isSome fun e he => ⟨ih e.1 (.key he), ih e.2 (.entry he)⟩)
      rw [shown?, hts]
      rfl
    | object c n xs =>
      obtain ⟨ts, hts⟩ := Option.isSome_iff_exists.1 (shownAll?_isSome fun x hx => ih x (.content hx))
      rw [shown?, hts]
      rfl
    | parsed p =>
      obtain ⟨heading, raw, values, supplied⟩ := p
      obtain ⟨ts, hts⟩ := Option.isSome_iff_exists.1
        (shownFields?_isSome supplied fun f hf => ih f.2 (.field hf))
      rw [shown?, hts]
      rfl
    | _ => rfl

/-- a value with a text that tells its kind has one for readers -/
theorem plain?_isSome_of_shown? {v : Value} (h : v.shown?.isSome) : v.plain?.isSome := by
  cases v <;> first | rfl | exact h

theorem shown_ok {v : Value} (h : v.shown?.isSome) (hcalls : v.calls < callLimit) : ∃ s, v.shown = .ok s := by
  obtain ⟨t, ht⟩ := Option.isSome_iff_exists.1 h
  exact ⟨_, by rw [shown, ht, written_some hcalls]⟩

theorem plain_ok {v : Value} (h : v.shown?.isSome) (hcalls : v.calls < callLimit) : ∃ s, v.plain = .ok s := by
  obtain ⟨t, ht⟩ := Option.isSome_iff_exists.1 (plain?_isSome_of_shown? h)
  exact ⟨_, by rw [plain, ht, written_some hcalls]⟩

/-! ## Calls -/

theorem calls_le_callsOfAll {x : Value} {xs : List Value} (h : x ∈ xs) : x.calls ≤ callsOfAll xs := by
  induction xs with
  | nil => cases h
  | cons y ys ih =>
    rw [callsOfAll]
    rcases List.mem_cons.1 h with rfl | h
    · exact Nat.le_max_left _ _
    · exact Nat.le_trans (ih h) (Nat.le_max_right _ _)

theorem callsOfAll_le {xs : List Value} {n : Nat} (h : ∀ x ∈ xs, x.calls ≤ n) : callsOfAll xs ≤ n := by
  induction xs with
  | nil => exact Nat.zero_le n
  | cons x xs ih =>
    rw [callsOfAll]
    exact Nat.max_le.2 ⟨h x List.mem_cons_self, ih fun y hy => h y (List.mem_cons_of_mem x hy)⟩

theorem calls_le_callsOfEntries {e : Value × Value} {es : List (Value × Value)} (h : e ∈ es) :
    e.1.calls ≤ callsOfEntries es ∧ e.2.calls ≤ callsOfEntries es := by
  induction es with
  | nil => cases h
  | cons f es ih =>
    obtain ⟨k, v⟩ := f
    rw [callsOfEntries]
    rcases List.mem_cons.1 h with rfl | h
    · exact ⟨Nat.le_trans (Nat.le_max_left _ _) (Nat.le_max_left _ _),
        Nat.le_trans (Nat.le_max_right _ _) (Nat.le_max_left _ _)⟩
    · have := ih h
      exact ⟨by omega, by omega⟩

theorem callsOfEntries_le {es : List (Value × Value)} {n : Nat} (h : ∀ e ∈ es, e.1.calls ≤ n ∧ e.2.calls ≤ n) :
    callsOfEntries es ≤ n := by
  induction es with
  | nil => exact Nat.zero_le n
  | cons e es ih =>
    obtain ⟨k, v⟩ := e
    obtain ⟨hk, hv⟩ := h _ List.mem_cons_self
    rw [callsOfEntries]
    exact Nat.max_le.2 ⟨Nat.max_le.2 ⟨hk, hv⟩, ih fun f hf => h f (List.mem_cons_of_mem _ hf)⟩

theorem calls_le_callsOfFields {f : String × Value} {fields : List (String × Value)} (h : f ∈ fields) :
    f.2.calls ≤ callsOfFields fields := by
  induction fields with
  | nil => cases h
  | cons g fields ih =>
    obtain ⟨name, v⟩ := g
    rw [callsOfFields]
    rcases List.mem_cons.1 h with rfl | h
    · exact Nat.le_max_left _ _
    · exact Nat.le_trans (ih h) (Nat.le_max_right _ _)

theorem callsOfFields_le {fields : List (String × Value)} {n : Nat} (h : ∀ f ∈ fields, f.2.calls ≤ n) :
    callsOfFields fields ≤ n := by
  induction fields with
  | nil => exact Nat.zero_le n
  | cons f fields ih =>
    obtain ⟨name, v⟩ := f
    rw [callsOfFields]
    exact Nat.max_le.2 ⟨h _ List.mem_cons_self, ih fun g hg => h g (List.mem_cons_of_mem _ hg)⟩

/-- what stands in a value takes fewer calls than the value -/
theorem Child.calls_lt {x v : Value} (h : Child x v) : x.calls < v.calls := by
  cases h with
  | item h => rw [calls]; exact Nat.lt_succ_of_le (calls_le_callsOfAll h)
  | place h => rw [calls]; exact Nat.lt_succ_of_le (calls_le_callsOfAll h)
  | element h => rw [calls]; have := calls_le_callsOfAll h; omega
  | @key e readOnly es h =>
    have := (calls_le_callsOfEntries h).1
    cases readOnly <;> rw [calls] <;> omega
  | @entry e readOnly es h =>
    have := (calls_le_callsOfEntries h).2
    cases readOnly <;> rw [calls] <;> omega
  | value => rw [calls]; omega
  | content h => rw [calls]; have := calls_le_callsOfAll h; omega
  | @field f p h =>
    obtain ⟨heading, raw, values, supplied⟩ := p
    have : f.2.calls ≤ callsOfFields values := calls_le_callsOfFields h
    rw [calls]
    omega

theorem calls_lt_of_items {x v : Value} {xs : List Value} (hxs : v.items? = some xs) (hx : x ∈ xs) :
    x.calls < v.calls := by
  cases v with
  | list ys => cases hxs; exact Child.calls_lt (.item hx)
  | tuple ys => cases hxs; exact Child.calls_lt (.place hx)
  | _ => cases hxs

/-- nested on few levels: whatever is called on behalf of the value stays far from the limit -/
abbrev Shallow (v : Value) : Prop := v.calls ≤ 100

/-- lists, each of which holds the next -/
def nested : Nat → Value
  | 0 => .int 1
  | n + 1 => .list [nested n]

theorem calls_nested (n : Nat) : (nested n).calls = n := by
  induction n with
  | zero => rfl
  | succ n ih => simp [nested, calls, callsOfAll, ih]

end Value

end Intake
