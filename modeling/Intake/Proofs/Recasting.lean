/-
Casting what a cast gave.

A value that a built-in type casts to is one of that type, and the type takes it as it is, strictly or not
(`Registry.cast_cast`). Unless the type is text it is no text (`Registry.text?_of_cast`), and what a cast puts
together from the parts of a value it leaves as it finds it (`Registry.throughout_of_cast`).
-/
import Intake.Proofs.Acceptance
import Intake.Proofs.ValueParts

namespace Intake

namespace Value

/-- a text, a number, a boolean, a date, a time or an identifier -/
def IsAtom : Value → Prop
  | .text _ | .textMember _ | .int _ | .float _ | .decimal _ | .bool _ | .date _ | .moment _ | .time _ | .uuid _ => True
  | _ => False

theorem IsAtom.throughout {P : Value → Prop} {v : Value} (h : v.IsAtom) (hv : P v) : Throughout P v := by
  refine .of_leaf hv fun x hx => ?_
  cases hx <;> exact h

end Value

namespace Cast

theorem text_of_toText {v w : Value} (h : toText v = .ok w) : w.text?.isSome ∧ w.IsAtom := by
  have of_plain {u : Value} (h : u.plain.map Value.text = .ok w) : w.text?.isSome ∧ w.IsAtom := by
    obtain ⟨s, -, rfl⟩ := Outcome.map_eq_ok.1 h
    exact ⟨rfl, trivial⟩
  cases v with
  | int n => exact of_plain (u := .int n) h
  | float x => exact of_plain (u := .float x) h
  | decimal d => exact of_plain (u := .decimal d) h
  | uuid n => exact of_plain (u := .uuid n) h
  | text s => cases h; exact ⟨rfl, trivial⟩
  | textMember s => cases h; exact ⟨rfl, trivial⟩
  | bool b => cases h; exact ⟨rfl, trivial⟩
  | date d => cases h; exact ⟨rfl, trivial⟩
  | moment m => cases h; exact ⟨rfl, trivial⟩
  | time t => cases h; exact ⟨rfl, trivial⟩
  | _ => cases h

theorem list_of_toList {v w : Value} (h : toList v = .ok w) : w = v ∨ ∃ xs, v = .tuple xs ∧ w = .list xs := by
  cases v with
  | list xs => cases h; exact .inl rfl
  | tuple xs => cases h; exact .inr ⟨xs, rfl, rfl⟩
  | _ => cases h

theorem hash_of_toHash {v w : Value} (h : toHash v = .ok w) : ∃ ro es, v = .map ro es ∧ w = .map false es := by
  cases v with
  | map ro es => cases h; exact ⟨ro, es, rfl, rfl⟩
  | _ => cases h

end Cast

/-- what a conversion has to do with the value that it is given: it gives an atom, the value itself, or a list or
hash of the same parts -/
inductive Recast (v : Value) : Value → Prop where
  | atom {w : Value} (h : w.IsAtom) : Recast v w
  | self : Recast v v
  | list {xs : List Value} (h : v = .tuple xs) : Recast v (.list xs)
  | hash {readOnly : Bool} {es : List (Value × Value)} (h : v = .map readOnly es) : Recast v (.map false es)

namespace Registry

open Cast

/-- a built-in converter takes what it gives as it is; what it gives is no text, unless its type is text -/
theorem convert_convert {t : ValueType} (ht : t.IsBuiltin) {v w : Value} (h : (builtin.casterOf t).convert v = .ok w) :
    (builtin.casterOf t).convert w = .ok w ∧ strictlyOf t w = true ∧ (t ≠ .text → w.text? = none) ∧ Recast v w := by
  cases t with
  | text =>
    obtain ⟨htext, hatom⟩ := text_of_toText h
    refine ⟨?_, ?_, fun hne => absurd rfl hne, .atom hatom⟩
    · cases w <;> first | rfl | cases htext
    · cases w <;> first | rfl | cases htext
  | integer => obtain ⟨n, rfl⟩ := integer_of_toInteger h; exact ⟨rfl, rfl, fun _ => rfl, .atom trivial⟩
  | float => obtain ⟨x, rfl, hx⟩ := finite_of_toFloat h; exact ⟨if_pos hx, rfl, fun _ => rfl, .atom trivial⟩
  | decimal => obtain ⟨d, rfl, hd⟩ := finite_of_toDecimal h; exact ⟨if_pos hd, rfl, fun _ => rfl, .atom trivial⟩
  | boolean => obtain ⟨b, rfl⟩ := boolean_of_toBoolean h; exact ⟨rfl, rfl, fun _ => rfl, .atom trivial⟩
  | date => obtain ⟨d, rfl⟩ := date_of_toDate h; exact ⟨rfl, rfl, fun _ => rfl, .atom trivial⟩
  | moment => obtain ⟨m, rfl⟩ := moment_of_toMoment h; exact ⟨rfl, rfl, fun _ => rfl, .atom trivial⟩
  | time => obtain ⟨t, rfl⟩ := time_of_toTime h; exact ⟨rfl, rfl, fun _ => rfl, .atom trivial⟩
  | uuid => obtain ⟨u, rfl⟩ := uuid_of_toUuid h; exact ⟨rfl, rfl, fun _ => rfl, .atom trivial⟩
  | array =>
    rcases list_of_toList h with rfl | ⟨xs, rfl, rfl⟩
    · cases w with
      | list xs => exact ⟨rfl, rfl, fun _ => rfl, .self⟩
      | tuple xs => cases h
      | _ => cases h
    · exact ⟨rfl, rfl, fun _ => rfl, .list rfl⟩
  | hash =>
    obtain ⟨ro, es, rfl, rfl⟩ := hash_of_toHash h
    exact ⟨rfl, rfl, fun _ => rfl, .hash rfl⟩
  | custom c => exact absurd rfl (ht c)

theorem casterOf?_of_builtin {t : ValueType} (ht : t.IsBuiltin) : (builtin.casterOf? t).isSome := by
  cases t with
  | custom c => exact absurd rfl (ht c)
  | _ => rfl

theorem convertWith_eq_ok {c : Caster} {v w : Value} : convertWith c v = .ok (.ok w) ↔ c.convert v = .ok w := by
  unfold convertWith
  cases c.convert v with
  | ok x => simp
  | error f => cases hf : f.isCastFault <;> simp [hf]

/-- a cast either runs the converter or, under strict types, takes the value as it is -/
theorem cast_eq_ok {t : ValueType} (ht : t.IsBuiltin) {strict : Bool} {v w : Value} :
    builtin.cast t strict v = .ok (.ok w) ↔
      (strict = true → strictlyOf t v = true) ∧
      if strict = true ∧ t ≠ .float ∧ t ≠ .decimal then w = v else (builtin.casterOf t).convert v = .ok w := by
  have hcaster := casterOf?_of_builtin ht
  unfold cast
  cases strict with
  | false =>
    have hnone : (builtin.casterOf? t).isNone = false := by simpa using hcaster
    simp [hnone, convertWith_eq_ok]
  | true =>
    cases hs : strictlyOf t v with
    | false => simp
    | true =>
      by_cases hn : t = .float ∨ t = .decimal
      · have hb : (t == .float || t == .decimal) = true := by simpa using hn
        have hc : ¬ (t ≠ .float ∧ t ≠ .decimal) := by tauto
        simp [hb, hc, convertWith_eq_ok]
      · have hb : (t == .float || t == .decimal) = false := by simpa using hn
        have hc : t ≠ .float ∧ t ≠ .decimal := by tauto
        simp [hb, hc, eq_comm]

/-- **A built-in type casts what it cast to that value itself**, strictly or not. -/
theorem cast_cast {t : ValueType} (ht : t.IsBuiltin) {strict : Bool} {v w : Value}
    (h : builtin.cast t strict v = .ok (.ok w)) : builtin.cast t strict w = .ok (.ok w) := by
  obtain ⟨hs, hw⟩ := (cast_eq_ok ht).1 h
  split at hw
  · rw [hw] at h ⊢
    exact h
  · rename_i hc
    obtain ⟨hconvert, hstrict, -, -⟩ := convert_convert ht hw
    exact (cast_eq_ok ht).2 ⟨fun _ => hstrict, by rw [if_neg hc]; exact hconvert⟩

theorem text?_of_cast {t : ValueType} (ht : t.IsBuiltin) (hne : t ≠ .text) {strict : Bool} {v w : Value}
    (h : builtin.cast t strict v = .ok (.ok w)) : w.text? = none := by
  obtain ⟨hs, hw⟩ := (cast_eq_ok ht).1 h
  split at hw
  · rename_i hc
    have hof := hs hc.1
    rw [hw]
    cases v with
    | text s => simp [strictlyOf, Value.hasType, hne] at hof
    | textMember s => simp [strictlyOf, Value.hasType, hne] at hof
    | _ => rfl
  · exact (convert_convert ht hw).2.2.1 hne

theorem recast_of_cast {t : ValueType} (ht : t.IsBuiltin) {strict : Bool} {v w : Value}
    (h : builtin.cast t strict v = .ok (.ok w)) : Recast v w := by
  obtain ⟨-, hw⟩ := (cast_eq_ok ht).1 h
  split at hw
  · rw [hw]; exact .self
  · exact (convert_convert ht hw).2.2.2

/-- what holds throughout a value holds throughout what it is cast to, if it holds of that where it is an atom and does
not tell lists from tuples and hashes from other mappings -/
theorem throughout_of_cast {P : Value → Prop} {t : ValueType} (ht : t.IsBuiltin) {strict : Bool} {v w : Value}
    (hatom : w.IsAtom → P w) (hlist : ∀ xs, P (.tuple xs) → P (.list xs))
    (hhash : ∀ ro es, P (.map ro es) → P (.map false es)) (hv : v.Throughout P)
    (h : builtin.cast t strict v = .ok (.ok w)) : w.Throughout P := by
  cases recast_of_cast ht h with
  | atom ha => exact ha.throughout (hatom ha)
  | self => exact hv
  | list hxs =>
    subst hxs
    refine .intro (hlist _ hv.here) fun x hx => ?_
    cases hx with
    | item hx => exact hv.child (.place hx)
  | hash hes =>
    subst hes
    refine .intro (hhash _ _ hv.here) fun x hx => ?_
    cases hx with
    | key he => exact hv.child (.key he)
    | entry he => exact hv.child (.entry he)

theorem withoutInstances_of_cast {t : ValueType} (ht : t.IsBuiltin) {strict : Bool} {v w : Value}
    (hv : v.WithoutInstances) (h : builtin.cast t strict v = .ok (.ok w)) : w.WithoutInstances :=
  throughout_of_cast ht (fun hw hp => by cases w <;> first | exact hw | exact hp) (fun _ => id) (fun _ _ => id) hv h

theorem wellKeyed_of_cast {t : ValueType} (ht : t.IsBuiltin) {strict : Bool} {v w : Value}
    (hv : v.WellKeyed) (h : builtin.cast t strict v = .ok (.ok w)) : w.WellKeyed :=
  throughout_of_cast ht (fun hw => by cases w <;> first | exact trivial | exact absurd hw id) (fun _ => id)
  (fun _ _ => id) hv h

end Registry

end Intake
