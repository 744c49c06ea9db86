/-
What casting to a built-in type promises.

A cast has an end: the value cast, or a failure that hands the value back as it was given. Only the lax cast to a boolean
can be broken off, since it quotes a value that is none: by a value nested so deep that its text cannot be written
(`Registry.deep_list_breaks_off`). What comes out is of the type, and finite where the type is a number with a point.
Cast again it is the same value, strictly or not, and strict types never give another value than lax ones. All of it is
kept while other types are registered: a cast looks at no entry of the registry but that of its own type
(`Registry.cast_congr`).

Result: `Registry.castsWell` has the promises as the fields of one structure.
-/
import Intake.Proofs.Completion
import Intake.Proofs.Strictness

namespace Intake.Registry

variable {r : Registry} {t : ValueType} {v w : Value} {strict : Bool}

/-! ## One entry of the registry -/

/-- a cast depends on the registry by the entry of its type only -/
theorem cast_congr {r' : Registry} (h : r.casterOf? t = r'.casterOf? t) : r.cast t strict v = r'.cast t strict v := by
  have hcaster : r.casterOf t = r'.casterOf t := by
    unfold casterOf
    rw [h]
  unfold cast
  rw [h, hcaster]

theorem typeName_congr {r' : Registry} (h : r.casterOf? t = r'.casterOf? t) : r.typeName t = r'.typeName t := by
  unfold typeName
  rw [h]

/-- registering a type leaves the entries of the others -/
theorem casterOf?_register_ne {r r' : Registry} {u : ValueType} {convert : Value → Outcome Value}
    {name message : Option String}
    (h : r.register (.type u) convert name message = .ok r') (hne : t ≠ u) : r'.casterOf? t = r.casterOf? t := by
  cases h
  exact find_put_ne hne _ _

/-- the failure message of a built-in type tells its name -/
theorem caster_message (ht : t.IsBuiltin) : (builtin.casterOf t).message = defaultMessage (builtin.typeName t) := by
  cases t with
  | custom c => exact absurd rfl (ht c)
  | _ => rfl

theorem caster_name (ht : t.IsBuiltin) : (builtin.casterOf t).name = builtin.typeName t := by
  cases t with
  | custom c => exact absurd rfl (ht c)
  | _ => rfl

/-! ## Failures and successes -/

theorem convertWith_eq_error {c : Caster} {f : CastFailure} (h : convertWith c v = .ok (.error f)) :
    f = ⟨c.message, v, c.name⟩ := by
  unfold convertWith at h
  cases hc : c.convert v with
  | ok w =>
    rw [hc] at h
    cases h
  | error fault =>
    simp only [hc] at h
    split at h
    · cases h
      rfl
    · cases h

/-- a value that cannot be cast comes back as it was, with the message and the name of the type -/
theorem failure_of_cast {f : CastFailure} (h : r.cast t strict v = .ok (.error f)) :
    f = ⟨(r.casterOf t).message, v, (r.casterOf t).name⟩ := by
  unfold cast at h
  dsimp only at h
  split at h
  · split at h
    · cases h
      rfl
    · split at h
      · exact convertWith_eq_error h
      · cases h
  · split at h
    · cases h
    · exact convertWith_eq_error h

/-- a cast has an end, or it was to quote a value that is nested too deep -/
theorem ends_or_too_deep (t : ValueType) (strict : Bool) (v : Value) : (∃ o, builtin.cast t strict v = .ok o) ∨
    (strict = false ∧ t = .boolean ∧ Value.callLimit ≤ v.calls ∧ builtin.cast t strict v = .error .tooDeep) := by
  by_cases hdeep : strict = false ∧ t = .boolean ∧ Value.callLimit ≤ v.calls
  · obtain ⟨rfl, rfl, hv⟩ := hdeep
    exact .inr ⟨rfl, rfl, hv, boolean_too_deep hv⟩
  · exact .inl (builtin_cast_ok fun hs ht => Nat.lt_of_not_le fun hv => hdeep ⟨hs, ht, hv⟩)

theorem typed_of_cast (ht : t.IsBuiltin) (h : builtin.cast t strict v = .ok (.ok w)) : strictlyOf t w = true := by
  obtain ⟨hof, hw⟩ := (cast_eq_ok ht).1 h
  split at hw
  · rename_i hc
    rw [hw]
    exact hof hc.1
  · exact (convert_convert ht hw).2.1

/-- under either strictness a number with a point is made by the converter -/
theorem convert_of_cast (ht : t = .float ∨ t = .decimal) (h : builtin.cast t strict v = .ok (.ok w)) :
    (builtin.casterOf t).convert v = .ok w := by
  have hbuiltin : t.IsBuiltin := by
    rintro c rfl
    rcases ht with ht | ht <;> cases ht
  obtain ⟨-, hw⟩ := (cast_eq_ok hbuiltin).1 h
  rwa [if_neg (by tauto)] at hw

/-- what is cast is a value of the type for strict casts and lax ones alike -/
theorem cast_again (ht : t.IsBuiltin) (h : builtin.cast t strict v = .ok (.ok w)) (again : Bool) :
    builtin.cast t again w = .ok (.ok w) := by
  have hself : builtin.cast t strict w = .ok (.ok w) := cast_cast ht h
  have hlax : builtin.cast t false w = .ok (.ok w) := by
    cases strict with
    | true => exact lax_of_strict ht hself
    | false => exact hself
  cases again with
  | false => exact hlax
  | true =>
    obtain ⟨-, hconvert⟩ := (cast_eq_ok ht).1 hlax
    rw [if_neg (by simp)] at hconvert
    refine (cast_eq_ok ht).2 ⟨fun _ => typed_of_cast ht h, ?_⟩
    split
    · rfl
    · exact hconvert

/-! ## The promises -/

/-- what casting a value to a type promises -/
structure CastsWell (r : Registry) (t : ValueType) (v : Value) : Prop where
  /-- no fault breaks off a cast, but that of a value nested too deep for the text a lax boolean asks for -/
  ends (strict : Bool) : (∃ o, r.cast t strict v = .ok o) ∨
    (strict = false ∧ t = .boolean ∧ ¬ v.Shallow ∧ r.cast t strict v = .error .tooDeep)
  /-- what cannot be cast comes back as it was, with the type's own message -/
  fails {strict : Bool} {f : CastFailure} : r.cast t strict v = .ok (.error f) →
    f.value = v ∧ f.message = "is not a valid " ++ r.typeName t ∧ f.expected = r.typeName t
  /-- what is cast is of the type, in the sense of strict types -/
  typed {strict : Bool} {w : Value} : r.cast t strict v = .ok (.ok w) → strictlyOf t w = true
  /-- a number with a point is finite -/
  finite {strict : Bool} {w : Value} : r.cast t strict v = .ok (.ok w) →
    (t = .float → ∃ x, w = .float x ∧ x.isFinite = true) ∧ (t = .decimal → ∃ d, w = .decimal d ∧ d.isFinite = true)
  /-- a cast of what was cast changes nothing, strictly or not -/
  idempotent {strict : Bool} {w : Value} : r.cast t strict v = .ok (.ok w) → ∀ again, r.cast t again w = .ok (.ok w)
  /-- lax types take what strict ones take, as the same value -/
  relaxes {w : Value} : r.cast t true v = .ok (.ok w) → r.cast t false v = .ok (.ok w)

theorem castsWell_builtin (ht : t.IsBuiltin) (v : Value) : builtin.CastsWell t v := by
  constructor
  case ends =>
    intro strict
    refine (ends_or_too_deep t strict v).imp_right (And.imp_right (And.imp_right (And.imp_left fun hdeep => ?_)))
    unfold Value.Shallow Value.callLimit at *
    omega
  case fails =>
    intro strict f hf
    rw [failure_of_cast hf, caster_message ht, caster_name ht]
    exact ⟨rfl, rfl, rfl⟩
  case typed =>
    intro strict w hw
    exact typed_of_cast ht hw
  case finite =>
    intro strict w hw
    constructor
    · rintro rfl
      exact Cast.finite_of_toFloat (convert_of_cast (.inl rfl) hw)
    · rintro rfl
      exact Cast.finite_of_toDecimal (convert_of_cast (.inr rfl) hw)
  case idempotent =>
    intro strict w hw again
    exact cast_again ht hw again
  case relaxes =>
    intro w hw
    exact lax_of_strict ht hw

/-- **Casting to a built-in type is typed and idempotent, and total but for the one quotation**; strict casts give what
lax ones give, as long as the type has its built-in converter. -/
theorem castsWell (ht : t.IsBuiltin) (hr : r.casterOf? t = builtin.casterOf? t) (v : Value) : r.CastsWell t v := by
  have hcast (strict : Bool) (v : Value) : r.cast t strict v = builtin.cast t strict v := cast_congr hr
  have hname : r.typeName t = builtin.typeName t := typeName_congr hr
  have h := castsWell_builtin ht v
  constructor
  case ends =>
    intro strict
    rw [hcast]
    exact h.ends strict
  case fails =>
    intro strict f hf
    rw [hcast] at hf
    rw [hname]
    exact h.fails hf
  case typed =>
    intro strict w hw
    rw [hcast] at hw
    exact h.typed hw
  case finite =>
    intro strict w hw
    rw [hcast] at hw
    exact h.finite hw
  case idempotent =>
    intro strict w hw again
    rw [hcast] at hw ⊢
    exact h.idempotent hw again
  case relaxes =>
    intro w hw
    rw [hcast] at hw ⊢
    exact h.relaxes hw

/-- a list nested deep enough is no boolean, and cannot be quoted as none -/
theorem deep_list_breaks_off : builtin.cast .boolean false (.nested 1100) = .error .tooDeep :=
  boolean_too_deep (by rw [Value.calls_nested]; decide)

def coupon : HostClass := ⟨"Coupon", .keepsTruthy, true⟩

/-- the built-in types, and the class of the caller -/
def withCoupons : Registry where
  casters := put (.custom coupon) ⟨"coupon", Cast.construct coupon, defaultMessage "coupon"⟩ builtin.casters
  names := put "coupon" (.custom coupon) builtin.names

/-- integers widen to decimals under strict types, also beside a class of the caller -/
theorem decimal_castsWell_withCoupons :
    builtin.register (.type (.custom coupon)) (Cast.construct coupon) none none = .ok withCoupons ∧
      withCoupons.CastsWell .decimal (.int 3) ∧
      withCoupons.cast .decimal true (.int 3) = .ok (.ok (.decimal (.finite false 3 0))) := by
  have hregister : builtin.register (.type (.custom coupon)) (Cast.construct coupon) none none = .ok withCoupons := rfl
  have hr : withCoupons.casterOf? .decimal = builtin.casterOf? .decimal := casterOf?_register_ne hregister nofun
  exact ⟨hregister, castsWell (by rintro c ⟨⟩) hr (.int 3), rfl⟩

end Intake.Registry
