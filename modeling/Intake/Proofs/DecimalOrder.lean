/-
The order of decimals is the order of the numbers that they denote.

A finite decimal denotes a fraction (`Decimal.fraction`, `Decimal.value?`). Two are compared by their signs, then by
the places of their leading digits, and only where these agree by their coefficients, brought to one exponent; so an
exponent may be as large as it likes. The outcome is the order of the fractions (`Decimal.compare?_compares`), and a
decimal is found whole exactly if its fraction is an integer (`Decimal.isWhole_iff`).
-/
import Mathlib.Order.Compare
import Intake.Proofs.IntegerCasting

namespace Intake.Number.Decimal

open Intake.Number.Binary64 (numeral_spec)

/-- the number that a sign, a coefficient and a power of ten denote -/
def fraction (negative : Bool) (c : Nat) (e : Int) : ℚ := ((signed negative c : Int) : ℚ) * 10 ^ e

theorem fraction_positive (c : Nat) (e : Int) : fraction false c e = c * 10 ^ e := by simp [fraction, signed]

theorem fraction_negative (c : Nat) (e : Int) : fraction true c e = -(c * 10 ^ e) := by simp [fraction, signed]

theorem fraction_zero (s : Bool) (e : Int) : fraction s 0 e = 0 := by cases s <;> simp [fraction, signed]

theorem fraction_ofInt (n : Int) : fraction (decide (n < 0)) n.natAbs 0 = n := by
  rw [fraction, signed_natAbs, zpow_zero, mul_one]

/-! ## Order -/

/-- numbers of one unit are in the order of their counts -/
theorem compares_scaled (m n : Nat) {unit : ℚ} (h : 0 < unit) : (compare m n).Compares (m * unit) (n * unit) := by
  rcases Nat.lt_trichotomy m n with hlt | rfl | hgt
  · rw [Nat.compare_eq_lt.2 hlt]
    exact mul_lt_mul_of_pos_right (Nat.cast_lt.2 hlt) h
  · rw [Nat.compare_eq_eq.2 rfl]
    rfl
  · rw [Nat.compare_eq_gt.2 hgt]
    exact mul_lt_mul_of_pos_right (Nat.cast_lt.2 hgt) h

/-- a magnitude whose leading digit stands lower is less -/
theorem lt_of_adjusted_lt {c d : Nat} (hc : c ≠ 0) (hd : d ≠ 0) {e f : Int} (h : adjustedOf c e < adjustedOf d f) :
    (c * 10 ^ e : ℚ) < d * 10 ^ f := by
  unfold adjustedOf at h
  calc (c * 10 ^ e : ℚ) < 10 ^ (e + digitCount c) := (numeral_spec hc e).2
    _ ≤ 10 ^ (f + digitCount d - 1) := zpow_le_zpow_right₀ (by norm_num) (by omega)
    _ ≤ d * 10 ^ f := (numeral_spec hd f).1

theorem lowered (c : Nat) {e f : Int} (h : f ≤ e) :
    (c * 10 ^ e : ℚ) = (c * Nat.pow 10 (e - f).natAbs : Nat) * 10 ^ f := by
  have hsplit : e = ((e - f).natAbs : Int) + f := by omega
  conv => lhs; rw [hsplit]
  rw [zpow_add₀ (by norm_num), zpow_natCast, Nat.pow_eq]
  push_cast
  ring

theorem compareMagnitude_compares {c d : Nat} (hc : c ≠ 0) (hd : d ≠ 0) (e f : Int) :
    (compareMagnitude c e d f).Compares (c * 10 ^ e : ℚ) (d * 10 ^ f) := by
  unfold compareMagnitude
  cases ho : compare (adjustedOf c e) (adjustedOf d f) with
  | lt => exact lt_of_adjusted_lt hc hd (Int.compare_eq_lt.1 ho)
  | gt => exact lt_of_adjusted_lt hd hc (Int.compare_eq_gt.1 ho)
  | eq =>
    dsimp only
    split
    · next hle =>
      rw [lowered d hle]
      exact compares_scaled c _ (by positivity)
    · next hle =>
      rw [lowered c (Int.le_of_not_le hle)]
      exact compares_scaled _ d (by positivity)

/-- **Finite decimals are in the order of their fractions.** -/
theorem compareFinite_compares (s : Bool) (c : Nat) (e : Int) (t : Bool) (d : Nat) (f : Int) :
    (compareFinite s c e t d f).Compares (fraction s c e) (fraction t d f) := by
  have magnitude {n : Nat} (hn : n ≠ 0) (k : Int) : (0 : ℚ) < n * 10 ^ k := by
    have := Nat.pos_of_ne_zero hn
    positivity
  unfold compareFinite
  by_cases hc : c = 0
  · subst hc
    rw [if_pos rfl, fraction_zero]
    by_cases hd : d = 0
    · subst hd
      rw [if_pos rfl, fraction_zero]
      rfl
    · rw [if_neg hd]
      cases t with
      | false => rw [fraction_positive]; exact magnitude hd f
      | true => rw [fraction_negative]; exact neg_lt_zero.2 (magnitude hd f)
  · rw [if_neg hc]
    by_cases hd : d = 0
    · subst hd
      rw [if_pos rfl, fraction_zero]
      cases s with
      | false => rw [fraction_positive]; exact magnitude hc e
      | true => rw [fraction_negative]; exact neg_lt_zero.2 (magnitude hc e)
    · rw [if_neg hd]
      have hpc := magnitude hc e
      have hpd := magnitude hd f
      cases s <;> cases t
      · rw [fraction_positive, fraction_positive]
        exact compareMagnitude_compares hc hd e f
      · rw [fraction_positive, fraction_negative]
        exact (neg_lt_zero.2 hpd).trans hpc
      · rw [fraction_negative, fraction_positive]
        exact (neg_lt_zero.2 hpc).trans hpd
      · rw [fraction_negative, fraction_negative]
        have hflipped := compareMagnitude_compares hd hc f e
        cases ho : compareMagnitude d f c e <;> rw [ho] at hflipped
        · exact neg_lt_neg hflipped
        · exact congrArg Neg.neg (Eq.symm hflipped)
        · exact neg_lt_neg hflipped

/-- the number that a decimal denotes, if it is finite -/
def value? : Decimal → Option ℚ
  | .finite s c e => some (fraction s c e)
  | _ => none

theorem value?_ofInt (n : Int) : (ofInt n).value? = some (n : ℚ) := congrArg some (fraction_ofInt n)

theorem isFinite_iff {d : Decimal} : d.isFinite = true ↔ ∃ q, d.value? = some q := by
  cases d <;> simp [isFinite, value?]

/-- decimals that denote numbers are in the order of the numbers -/
theorem compare?_compares {x y : Decimal} {p q : ℚ} (hx : x.value? = some p) (hy : y.value? = some q) :
    ∃ o, x.compare? y = some o ∧ o.Compares p q := by
  cases x with
  | finite s c e =>
    cases y with
    | finite t d f =>
      cases hx
      cases hy
      exact ⟨_, rfl, compareFinite_compares s c e t d f⟩
    | infinite t => cases hy
    | nan s g k n => cases hy
  | infinite t => cases hx
  | nan s g k n => cases hx

/-- the order of a decimal that denotes a number and an integer -/
theorem compare?_ofInt {d : Decimal} {q : ℚ} (hd : d.value? = some q) (n : Int) :
    (d.compare? (ofInt n) = some .lt ↔ q < n) ∧ (d.compare? (ofInt n) = some .eq ↔ q = n) ∧
      (d.compare? (ofInt n) = some .gt ↔ n < q) := by
  obtain ⟨o, ho, hcompares⟩ := compare?_compares hd (value?_ofInt n)
  simp only [ho, Option.some.injEq]
  exact ⟨hcompares.eq_lt, hcompares.eq_eq, hcompares.eq_gt⟩

/-! ## Whole numbers -/

/-- a decimal that denotes a number is whole exactly if the number is an integer, which is then its whole part -/
theorem isWhole_iff {d : Decimal} {q : ℚ} (hd : d.value? = some q) :
    d.isWhole = true ↔ ∃ n : Int, q = n := by
  cases d with
  | finite s c e =>
    cases hd
    have htruncate : ∃ n, (finite s c e).truncate? = some n := by
      unfold truncate?
      dsimp only
      split_ifs <;> exact ⟨_, rfl⟩
    constructor
    · intro h
      obtain ⟨n, hn⟩ := htruncate
      exact ⟨n, wholeDecimal_iff.1 ⟨h, hn⟩⟩
    · rintro ⟨n, hvalue⟩
      exact (wholeDecimal_iff.2 hvalue).1
  | infinite t => cases hd
  | nan s g k n => cases hd

theorem whole_part_iff {d : Decimal} {n : Int} :
    d.isWhole = true ∧ d.truncate? = some n ↔ d.value? = some (n : ℚ) := by
  cases d with
  | finite s c e => exact wholeDecimal_iff.trans (by simp [value?, fraction])
  | infinite t => simp [isWhole, value?]
  | nan s g k n => simp [isWhole, value?]

/-- a decimal equals an integer as a number exactly if it denotes it -/
theorem numEq_ofInt_iff {d : Decimal} {n : Int} : d.numEq (ofInt n) = true ↔ d.value? = some (n : ℚ) := by
  cases hd : d.value? with
  | none =>
    have : d.compare? (ofInt n) ≠ some .eq := by
      cases d with
      | finite s c e => cases hd
      | infinite t => cases t <;> simp [compare?, ofInt]
      | nan s g k m => simp [compare?]
    simp [numEq, this]
  | some q =>
    rw [numEq, beq_iff_eq, (compare?_ofInt hd n).2.1, Option.some.injEq]

end Intake.Number.Decimal
