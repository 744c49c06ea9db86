/-
What casts to an integer, and to which.

A text denotes an integer by a grammar of its own (`IntegerText`): a sign or none, decimal digits of any script, at
most as many as an integer's text may have, and perhaps a point that only zeros follow. The reader of integers takes
this grammar apart where it was put together (`integerText?_eq_some`). A decimal or binary number denotes an integer if
it is finite and equal to one, and a decimal only if its leading digit stands below the bound (`wholeDecimal_iff`,
`wholeBinary_iff`).

Result: `Registry.cast_integer_iff`. Casting to integers under lax types gives the integer that a value denotes, and
where it denotes none, a failure with the value as it was given.
-/
import Mathlib.Data.List.TakeWhile
import Mathlib.Data.Nat.Digits.Defs
import Intake.Proofs.BinaryRounding
import Intake.Proofs.Casting

namespace Intake

open Intake.Text Intake.Number

/-! ## Integers in text -/

/-- nothing, or a point and zeros -/
inductive ZeroPlaces : List Char → Prop where
  | whole : ZeroPlaces []
  | point (k : Nat) : ZeroPlaces ('.' :: List.replicate k '0')

def digitValues (cs : List Char) : List Nat := (cs.map fun c => (digitValue? c).getD 0).reverse

/-- a text denotes an integer -/
inductive IntegerText : List Char → Int → Prop where
  | mk {sign ds places : List Char} {negative : Bool} (hsign : SignText sign negative) (nonempty : ds ≠ [])
    (digits : ∀ c ∈ ds, isDecimalDigit c = true) (short : ds.length ≤ 4300) (hplaces : ZeroPlaces places) :
    IntegerText (sign ++ (ds ++ places)) (signed negative (Nat.ofDigits 10 (digitValues ds)))

theorem ofDigits_eq_ofDigits (cs : List Char) : Number.ofDigits cs = Nat.ofDigits 10 (digitValues cs) := by
  have hfold : ∀ n : Nat, cs.foldl (fun n c => 10 * n + (digitValue? c).getD 0) n =
      Nat.ofDigits 10 (digitValues cs) + 10 ^ cs.length * n := by
    induction cs with
    | nil => intro n; simp [digitValues]
    | cons c cs ih =>
      intro n
      rw [List.foldl_cons, ih]
      simp only [digitValues, List.map_cons, List.reverse_cons, Nat.ofDigits_append, List.length_reverse, List.length_map,
        Nat.ofDigits_singleton, List.length_cons]
      ring
  rw [Number.ofDigits, hfold, Nat.mul_zero, Nat.add_zero]

theorem ne_sign_of_isDecimalDigit {c : Char} (h : isDecimalDigit c = true) : c ≠ '-' ∧ c ≠ '+' := by
  constructor
  · rintro rfl
    exact absurd h (by decide)
  · rintro rfl
    exact absurd h (by decide)

theorem ZeroPlaces.stops {places : List Char} (h : ZeroPlaces places) : Stops isDecimalDigit places := by
  cases h with
  | whole => exact stops_nil
  | point k => exact stops_cons (by decide)

/-- the sign and what follows it are taken apart where they meet -/
theorem Number.SignText.takeSign {sign : List Char} {negative : Bool} (h : SignText sign negative) {c : Char}
    (cs : List Char)
    (hc : isDecimalDigit c = true) : Number.takeSign (sign ++ c :: cs) = (negative, c :: cs) := by
  obtain ⟨hminus, hplus⟩ := ne_sign_of_isDecimalDigit hc
  cases h with
  | unsigned => exact takeSign_of_ne hminus hplus
  | plus => rfl
  | minus => rfl

theorem zeroPlaces_of_all {cs : List Char} (h : cs.all (· == '0') = true) : ZeroPlaces ('.' :: cs) := by
  obtain ⟨k, rfl⟩ : ∃ k, cs = List.replicate k '0' := by
    refine ⟨cs.length, List.eq_replicate_of_mem fun c hc => ?_⟩
    simpa using List.all_eq_true.1 h c hc
  exact .point k

theorem integerText_of_read {cs : List Char} {n : Int} (h : Cast.integerText? cs = some n) : IntegerText cs n := by
  obtain ⟨sign, hsign, hcs⟩ := exists_signText cs
  have hbody := List.takeWhile_append_dropWhile (p := isDecimalDigit) (l := (takeSign cs).2)
  have hdigits : ∀ c ∈ (takeSign cs).2.takeWhile isDecimalDigit, isDecimalDigit c = true :=
    fun c hc => List.mem_takeWhile_imp hc
  unfold Cast.integerText? at h
  dsimp only at h
  generalize (takeSign cs).2.takeWhile isDecimalDigit = ds at h hbody hdigits
  generalize (takeSign cs).2.dropWhile isDecimalDigit = places at h hbody
  rw [← hbody] at hcs
  subst hcs
  have hplaces :
      ds ≠ [] ∧ ZeroPlaces places ∧ (ofDigits? ds).map (signed (takeSign (sign ++ (ds ++ places))).1) = some n := by
    cases places with
    | nil =>
      cases ds with
      | nil => cases h
      | cons d ds => exact ⟨List.cons_ne_nil d ds, .whole, h⟩
    | cons c zeros =>
      dsimp only at h
      split at h
      case isFalse => cases h
      case isTrue hform =>
        simp only [Bool.and_eq_true, Bool.not_eq_true', List.isEmpty_eq_false_iff, beq_iff_eq] at hform
        obtain ⟨hne, rfl, hzeros⟩ := hform
        exact ⟨hne, zeroPlaces_of_all hzeros, h⟩
  obtain ⟨hne, hplaces, hread⟩ := hplaces
  obtain ⟨m, hm, rfl⟩ := Option.map_eq_some_iff.1 hread
  unfold ofDigits? at hm
  split at hm
  case isFalse => cases hm
  case isTrue hshort =>
    cases hm
    rw [ofDigits_eq_ofDigits]
    exact .mk hsign hne hdigits hshort hplaces

theorem IntegerText.read {cs : List Char} {n : Int} (h : IntegerText cs n) : Cast.integerText? cs = some n := by
  obtain ⟨hsign, hne, hdigits, hshort, hplaces⟩ := h
  rename_i sign ds places negative
  obtain ⟨d, rest, rfl⟩ := List.exists_cons_of_ne_nil hne
  have hsigned : takeSign (sign ++ (d :: rest ++ places)) = (negative, d :: rest ++ places) :=
    hsign.takeSign (rest ++ places) (hdigits d List.mem_cons_self)
  have htake : (d :: rest ++ places).takeWhile isDecimalDigit = d :: rest :=
    takeWhile_append_of_stops hdigits hplaces.stops
  have hdrop : (d :: rest ++ places).dropWhile isDecimalDigit = places :=
    dropWhile_append_of_stops hdigits hplaces.stops
  have hread : ofDigits? (d :: rest) = some (Nat.ofDigits 10 (digitValues (d :: rest))) := by
    rw [ofDigits?, if_pos (show (d :: rest).length ≤ maxDigits from hshort), ofDigits_eq_ofDigits]
  unfold Cast.integerText?
  rw [hsigned]
  simp only [htake, hdrop, hread]
  cases hplaces with
  | whole => simp
  | point k => simp

/-- **The reader of integers reads its grammar**, and nothing else. -/
theorem integerText?_eq_some {cs : List Char} {n : Int} : Cast.integerText? cs = some n ↔ IntegerText cs n :=
  ⟨integerText_of_read, IntegerText.read⟩

/-! ## Whole numbers -/

/-- a fraction is an integer exactly if nothing remains of the division -/
theorem signed_div_eq_int {negative : Bool} {num den : Nat} (hd : den ≠ 0) {n : Int} :
    ((signed negative num : Int) : ℚ) / den = n ↔ num % den = 0 ∧ signed negative (num / den) = n := by
  have hden : (den : ℚ) ≠ 0 := Nat.cast_ne_zero.2 hd
  rw [div_eq_iff hden]
  constructor
  · intro h
    have hint : signed negative num = n * den := by exact_mod_cast h
    have habs : num = n.natAbs * den := by
      have := congrArg Int.natAbs hint
      rwa [natAbs_signed, Int.natAbs_mul, Int.natAbs_natCast] at this
    have hquotient : num / den = n.natAbs := by
      rw [habs]
      exact Nat.mul_div_cancel _ (Nat.pos_of_ne_zero hd)
    refine ⟨by rw [habs]; exact Nat.mul_mod_left _ _, ?_⟩
    refine mul_right_cancel₀ (Int.natCast_ne_zero.2 hd) ?_
    rw [← hint, hquotient]
    conv => rhs; rw [habs]
    cases negative <;> simp [signed]
  · rintro ⟨hmod, rfl⟩
    have hnum : num = num / den * den := (Nat.div_mul_cancel (Nat.dvd_of_mod_eq_zero hmod)).symm
    conv => lhs; rw [hnum]
    cases negative <;> simp [signed]

theorem cast_signed (negative : Bool) (n : Nat) : ((signed negative n : Int) : ℚ) = (if negative then -1 else 1) * n := by
  cases negative <;> simp [signed]

/-- a binary number is whole, with its whole part an integer, exactly if it is that integer -/
theorem wholeBinary_iff {negative : Bool} {m : Nat} {e n : Int} :
    (Binary64.finite negative m e).isWhole = true ∧ (Binary64.finite negative m e).truncate? = some n ↔
      ((signed negative m : Int) : ℚ) * 2 ^ e = n := by
  obtain ⟨hd, hratio⟩ := Binary64.ratio_spec m e
  have hvalue : ((signed negative m : Int) : ℚ) * 2 ^ e =
      ((signed negative (Binary64.ratio m e).1 : Int) : ℚ) / (Binary64.ratio m e).2 := by
    rw [cast_signed, cast_signed, mul_assoc, ← hratio, mul_div_assoc]
  rw [hvalue, signed_div_eq_int hd]
  simp [Binary64.isWhole, Binary64.truncate?]

/-- a decimal is whole, with its whole part an integer, exactly if it is that integer -/
theorem wholeDecimal_iff {negative : Bool} {c : Nat} {e n : Int} :
    (Decimal.finite negative c e).isWhole = true ∧ (Decimal.finite negative c e).truncate? = some n ↔
      ((signed negative c : Int) : ℚ) * 10 ^ e = n := by
  by_cases hc : c = 0
  · subst hc
    simp only [Decimal.isWhole, Decimal.truncate?, cast_signed, if_true, or_true, true_and, Option.some.injEq,
      Nat.cast_zero,
      mul_zero, zero_mul]
    exact_mod_cast Iff.rfl
  rcases Int.le_total 0 e with he | he
  · obtain ⟨k, rfl⟩ := Int.eq_ofNat_of_zero_le he
    have hvalue : ((signed negative c : Int) : ℚ) * 10 ^ (k : Int) = (signed negative (c * 10 ^ k) : Int) := by
      rw [cast_signed, cast_signed]
      push_cast
      rw [zpow_natCast, mul_assoc]
    rw [hvalue, Int.cast_inj]
    simp [Decimal.isWhole, Decimal.truncate?, hc]
  · obtain ⟨k, rfl⟩ : ∃ k : Nat, e = -k := ⟨e.natAbs, by omega⟩
    have hvalue :
        ((signed negative c : Int) : ℚ) * 10 ^ (-(k : Int)) = ((signed negative c : Int) : ℚ) / (10 ^ k : Nat) := by
      push_cast
      rw [zpow_neg, zpow_natCast, div_eq_mul_inv]
    rw [hvalue, signed_div_eq_int (by positivity)]
    by_cases hk : k = 0
    · subst hk
      simp [Decimal.isWhole, Decimal.truncate?, hc, Nat.mod_one]
    by_cases hdigits : digitCount c ≤ k
    · -- the leading digit stands after the point, so that all of the number is what remains
      have hlt : c < 10 ^ k := Nat.lt_of_lt_of_le (lt_pow_digitCount c) (Nat.pow_le_pow_right (by decide) hdigits)
      simp [Decimal.isWhole, hk, hc, hdigits, Nat.mod_eq_of_lt hlt]
    · simp [Decimal.isWhole, Decimal.truncate?, hk, hc, hdigits]

/-! ## Casting -/

/-- a value denotes an integer: an integer itself, a text by its grammar without the blanks around it, a decimal whose
leading digit stands below the bound and a binary number by being equal to it -/
inductive DenotesInteger : Value → Int → Prop where
  | int (n : Int) : DenotesInteger (.int n) n
  | text {s : String} {n : Int} (h : IntegerText (strip s.toList) n) : DenotesInteger (.text s) n
  | textMember {s : String} {n : Int} (h : IntegerText (strip s.toList) n) : DenotesInteger (.textMember s) n
  | decimal {negative : Bool} {c : Nat} {e n : Int} (bounded : Decimal.adjustedOf c e < 4300)
    (h : ((signed negative c : Int) : ℚ) * 10 ^ e = n) : DenotesInteger (.decimal (.finite negative c e)) n
  | float {negative : Bool} {m : Nat} {e n : Int} (h : ((signed negative m : Int) : ℚ) * 2 ^ e = n) :
    DenotesInteger (.float (.finite negative m e)) n

namespace Cast

theorem orBad_map_int {o : Option Int} {n : Int} : orBad (o.map Value.int) = .ok (.int n) ↔ o = some n := by
  rw [orBad_map_eq_ok]
  simp

theorem toInteger_eq_ok {v : Value} {n : Int} : toInteger v = .ok (.int n) ↔ DenotesInteger v n := by
  constructor
  · intro h
    cases v with
    | int m =>
      cases h
      exact .int n
    | text s => exact .text (integerText?_eq_some.1 (orBad_map_int.1 h))
    | textMember s => exact .textMember (integerText?_eq_some.1 (orBad_map_int.1 h))
    | decimal d =>
      cases d with
      | finite negative c e =>
        simp only [toInteger] at h
        split at h
        case isTrue => cases h
        case isFalse hbound =>
          split at h
          case isFalse => cases h
          case isTrue hwhole => exact .decimal (Int.not_le.1 hbound) (wholeDecimal_iff.1 ⟨hwhole, orBad_map_int.1 h⟩)
      | _ => cases h
    | float x =>
      cases x with
      | finite negative m e =>
        simp only [toInteger] at h
        split at h
        case isFalse => cases h
        case isTrue hwhole => exact .float (wholeBinary_iff.1 ⟨hwhole, orBad_map_int.1 h⟩)
      | _ => cases h
    | _ => cases h
  · intro h
    cases h with
    | int => rfl
    | text h => exact orBad_map_int.2 (integerText?_eq_some.2 h)
    | textMember h => exact orBad_map_int.2 (integerText?_eq_some.2 h)
    | decimal hbound h =>
      obtain ⟨hwhole, htruncate⟩ := wholeDecimal_iff.2 h
      have hbound : ¬ (maxDigits : Int) ≤ _ := Int.not_le.2 hbound
      simp only [toInteger]
      rw [if_neg hbound, if_pos hwhole]
      exact orBad_map_int.2 htruncate
    | float h =>
      obtain ⟨hwhole, htruncate⟩ := wholeBinary_iff.2 h
      simp only [toInteger]
      rw [if_pos hwhole]
      exact orBad_map_int.2 htruncate

end Cast

namespace Registry

/-- **Casting to integers gives the integer that a value denotes, and no other value**; what denotes none comes back as
it was, with the failure of integers. -/
theorem cast_integer_iff (v : Value) :
    (∀ w, builtin.cast .integer false v = .ok (.ok w) ↔ ∃ n, w = .int n ∧ DenotesInteger v n) ∧
      ((∃ w, builtin.cast .integer false v = .ok (.ok w)) ∨
        builtin.cast .integer false v = .ok (.error ⟨"is not a valid integer", v, "integer"⟩)) := by
  have ht : ValueType.integer.IsBuiltin := by rintro c ⟨⟩
  constructor
  · intro w
    rw [cast_eq_ok ht]
    constructor
    · rintro ⟨-, h⟩
      rw [if_neg (by simp)] at h
      obtain ⟨n, rfl⟩ := Cast.integer_of_toInteger h
      exact ⟨n, rfl, Cast.toInteger_eq_ok.1 h⟩
    · rintro ⟨n, rfl, hn⟩
      refine ⟨nofun, ?_⟩
      rw [if_neg (by simp)]
      exact Cast.toInteger_eq_ok.2 hn
  · obtain ⟨o, ho⟩ := (builtin_cast_ok (by rintro - ⟨⟩) : ∃ o, builtin.cast .integer false v = .ok o)
    cases o with
    | ok w => exact .inl ⟨w, ho⟩
    | error f =>
      refine .inr ?_
      rw [ho, failure_of_cast ho]
      rfl

end Registry

end Intake
