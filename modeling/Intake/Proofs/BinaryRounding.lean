/-
Binary numbers read back from their shortest text.

A fraction that is nearer to a datum than a part in `2 ^ 54` of it is rounded to that datum, at the power of two that its
size tells (`Binary64.ofRatio_of_near`), and so is a numeral of such a value (`Binary64.ofScientific_of_near`). Digits
on a grid are off by half of the grid at most (`Binary64.nearer_spec`), and with seventeen of them that is nearer than
a part in `2 ^ 54`, so the search for the shortest digits that read back finds some (`Binary64.shortest_reads`).

Rounding depends on the value of a fraction or of a numeral alone (`Binary64.ofRatio_congr`,
`Binary64.ofScientific_congr`), so the text may write the digits with zeros after them.
-/
import Mathlib.Algebra.Order.Field.Power
import Mathlib.Data.Rat.Cast.Order
import Mathlib.Tactic.FieldSimp
import Mathlib.Tactic.Linarith
import Mathlib.Tactic.NormNum
import Mathlib.Tactic.Positivity
import Intake.Proofs.BinaryText

namespace Intake.Number

open Intake.Text

/-! ## Rounding to a whole number -/

/-- a fraction that is nearer to a number than a half is rounded to it -/
theorem roundDiv_of_near {n d m : Nat} (hd : 0 < d) (h : |(n : ℚ) / d - m| < 1 / 2) : roundDiv n d = m := by
  have hd' : (0 : ℚ) < d := Nat.cast_pos.2 hd
  obtain ⟨hlow, hhigh⟩ := abs_lt.1 h
  have hbelow : 2 * m * d < 2 * n + d := by
    have : (m - 1 / 2) * d < (n : ℚ) := (lt_div_iff₀ hd').1 (by linarith)
    exact_mod_cast (by linarith : (2 * m * d : ℚ) < 2 * n + d)
  have habove : 2 * n < 2 * m * d + d := by
    have : (n : ℚ) < (m + 1 / 2) * d := (div_lt_iff₀ hd').1 (by linarith)
    exact_mod_cast (by linarith : (2 * n : ℚ) < 2 * m * d + d)
  have hdivision := Nat.div_add_mod n d
  have hrest := Nat.mod_lt n hd
  unfold roundDiv
  dsimp only
  generalize n / d = q at *
  generalize n % d = r at *
  -- the quotient is the number itself, or the one before it
  have hq : q ≤ m := by
    by_contra hlt
    have : d * (m + 1) ≤ d * q := Nat.mul_le_mul_left d (by omega)
    have : 2 * (d * (m + 1)) = 2 * m * d + 2 * d := by ring
    omega
  have hq' : m ≤ q + 1 := by
    by_contra hlt
    have : d * (q + 2) ≤ d * m := Nat.mul_le_mul_left d (by omega)
    have : 2 * (d * (q + 2)) = 2 * (d * q) + 4 * d := by ring
    have : 2 * m * d = 2 * (d * m) := by ring
    omega
  have hm : 2 * m * d = 2 * (d * m) := by ring
  rcases Nat.lt_or_ge q m with hlt | hge
  · obtain rfl : m = q + 1 := by omega
    have : d * (q + 1) = d * q + d := by ring
    rw [if_neg (by omega), if_neg (by omega)]
  · obtain rfl : m = q := by omega
    rw [if_pos (by omega)]

theorem roundDiv_mul_right (n d : Nat) {t : Nat} (ht : 0 < t) : roundDiv (n * t) (d * t) = roundDiv n d := by
  have hdouble : 2 * (n % d * t) = 2 * (n % d) * t := (Nat.mul_assoc ..).symm
  unfold roundDiv
  simp only [Nat.mul_div_mul_right n d ht, Nat.mul_mod_mul_right, hdouble, Nat.mul_lt_mul_right ht,
    Nat.mul_left_inj (Nat.pos_iff_ne_zero.1 ht)]

theorem roundDiv_congr {n d n' d' : Nat} (hd : 0 < d) (hd' : 0 < d') (h : n * d' = n' * d) :
    roundDiv n d = roundDiv n' d' :=
  calc roundDiv n d = roundDiv (n * d') (d * d') := (roundDiv_mul_right n d hd').symm
    _ = roundDiv (n' * d) (d' * d) := by rw [h, Nat.mul_comm d d']
    _ = roundDiv n' d' := roundDiv_mul_right n' d' hd

namespace Binary64

/-! ## Powers of two -/

theorem scale_pos (num : Nat) {den : Nat} (hd : den ≠ 0) (e : Int) : 0 < (scale num den e).2 := by
  unfold scale
  split
  · exact Nat.pos_of_ne_zero hd
  · exact Nat.mul_pos (Nat.pos_of_ne_zero hd) (Nat.pow_pos (by decide))

theorem scale_eq (num den : Nat) (e : Int) :
    ((scale num den e).1 : ℚ) / (scale num den e).2 = num / den / 2 ^ e := by
  unfold scale
  split
  · next h =>
    obtain ⟨k, rfl⟩ : ∃ k : Nat, e = -k := ⟨e.natAbs, by omega⟩
    simp only [Int.natAbs_neg, Int.natAbs_natCast, Nat.pow_eq, Nat.cast_mul, Nat.cast_pow, Nat.cast_ofNat, zpow_neg,
      zpow_natCast, div_inv_eq_mul]
    ring
  · next h =>
    obtain ⟨k, rfl⟩ : ∃ k : Nat, e = k := ⟨e.natAbs, by omega⟩
    simp only [Int.natAbs_natCast, Nat.pow_eq, Nat.cast_mul, Nat.cast_pow, Nat.cast_ofNat, zpow_natCast]
    rw [div_mul_eq_div_div]

theorem floorLog2_spec {num den : Nat} (hn : num ≠ 0) (hd : den ≠ 0) :
    (2 : ℚ) ^ floorLog2 num den ≤ num / den ∧ (num / den : ℚ) < 2 ^ (floorLog2 num den + 1) := by
  have hden : (0 : ℚ) < den := Nat.cast_pos.2 (Nat.pos_of_ne_zero hd)
  have hnumLow : (2 : ℚ) ^ num.log2 ≤ num := by exact_mod_cast Nat.log2_self_le hn
  have hnumHigh : (num : ℚ) < 2 ^ (num.log2 + 1) := by exact_mod_cast (Nat.lt_log2_self (n := num))
  have hdenLow : (2 : ℚ) ^ den.log2 ≤ den := by exact_mod_cast Nat.log2_self_le hd
  have hdenHigh : (den : ℚ) < 2 ^ (den.log2 + 1) := by exact_mod_cast (Nat.lt_log2_self (n := den))
  generalize hq : (num / den : ℚ) = q
  have hnumq : (num : ℚ) = q * den := by rw [← hq]; field_simp
  have hqpos : 0 < q := by
    rw [← hq]
    exact div_pos (Nat.cast_pos.2 (Nat.pos_of_ne_zero hn)) hden
  -- the bits of the two parts tell the power but for one
  have hlow : (2 : ℚ) ^ ((num.log2 : Int) - den.log2 - 1) < q := by
    rw [zpow_sub₀ two_ne_zero, zpow_sub₀ two_ne_zero, zpow_natCast, zpow_natCast, zpow_one, div_div, ← pow_succ,
      div_lt_iff₀ (by positivity)]
    calc (2 : ℚ) ^ num.log2 ≤ q * den := hnumq ▸ hnumLow
      _ < q * 2 ^ (den.log2 + 1) := mul_lt_mul_of_pos_left hdenHigh hqpos
  have hhigh : q < (2 : ℚ) ^ ((num.log2 : Int) - den.log2 + 1) := by
    rw [sub_add_eq_add_sub, zpow_sub₀ two_ne_zero, zpow_natCast, lt_div_iff₀ (by positivity)]
    calc q * 2 ^ den.log2 ≤ q * den := mul_le_mul_of_nonneg_left hdenLow hqpos.le
      _ = num := hnumq.symm
      _ < 2 ^ (num.log2 + 1) := hnumHigh
      _ = 2 ^ ((num.log2 : Int) + 1) := by norm_cast
  have hscale := scale_eq num den ((num.log2 : Int) - den.log2)
  have hpos := scale_pos num hd ((num.log2 : Int) - den.log2)
  unfold floorLog2
  dsimp only
  generalize (num.log2 : Int) - den.log2 = e at *
  generalize scale num den e = r at *
  rw [hq] at hscale
  have hr : (0 : ℚ) < r.2 := Nat.cast_pos.2 hpos
  have he : (0 : ℚ) < 2 ^ e := by positivity
  split
  · next h =>
    have : (1 : ℚ) ≤ q / 2 ^ e := by
      rw [← hscale, one_le_div hr]
      exact_mod_cast h
    exact ⟨(one_le_div he).1 this, hhigh⟩
  · next h =>
    have : q / 2 ^ e < 1 := by
      rw [← hscale, div_lt_one hr]
      exact_mod_cast Nat.lt_of_not_le h
    exact ⟨hlow.le, by rw [sub_add_cancel]; exact (div_lt_one he).1 this⟩

theorem floorLog2_eq {num den : Nat} (hn : num ≠ 0) (hd : den ≠ 0) {r : Int} (hlow : (2 : ℚ) ^ r ≤ num / den)
    (hhigh : (num / den : ℚ) < 2 ^ (r + 1)) : floorLog2 num den = r := by
  obtain ⟨hl, hh⟩ := floorLog2_spec hn hd
  have h1 : floorLog2 num den < r + 1 := (zpow_lt_zpow_iff_right₀ one_lt_two).1 (hl.trans_lt hhigh)
  have h2 : r < floorLog2 num den + 1 := (zpow_lt_zpow_iff_right₀ one_lt_two).1 (hlow.trans_lt hh)
  omega

/-- the datum of a fraction depends on the fraction alone -/
theorem ofRatio_congr (s : Bool) {num den num' den' : Nat} (hd : den ≠ 0) (hd' : den' ≠ 0) (h : num * den' = num' * den) :
    ofRatio s num den = ofRatio s num' den' := by
  have hq : (num / den : ℚ) = num' / den' := by
    rw [div_eq_div_iff (Nat.cast_ne_zero.2 hd) (Nat.cast_ne_zero.2 hd')]
    exact_mod_cast h
  have hzero : num = 0 ↔ num' = 0 := by
    constructor <;> rintro rfl <;> simpa [hd, hd'] using h
  unfold ofRatio
  by_cases hn : num = 0
  · rw [if_pos hn, if_pos (hzero.1 hn)]
  · have hn' : num' ≠ 0 := fun h => hn (hzero.2 h)
    have hlog : floorLog2 num den = floorLog2 num' den' := by
      obtain ⟨hl, hh⟩ := floorLog2_spec hn' hd'
      exact floorLog2_eq hn hd (hq ▸ hl) (hq ▸ hh)
    have hround (e : Int) : roundDiv (scale num den e).1 (scale num den e).2 =
        roundDiv (scale num' den' e).1 (scale num' den' e).2 := by
      refine roundDiv_congr (scale_pos num hd e) (scale_pos num' hd' e) ?_
      have heq : ((scale num den e).1 : ℚ) / (scale num den e).2 = (scale num' den' e).1 / (scale num' den' e).2 := by
        rw [scale_eq, scale_eq, hq]
      rw [div_eq_div_iff (Nat.cast_ne_zero.2 (scale_pos num hd e).ne')
        (Nat.cast_ne_zero.2 (scale_pos num' hd' e).ne')] at heq
      exact_mod_cast heq
    rw [if_neg hn, if_neg hn', hlog]
    simp only [hround]

/-! ## Rounding to a datum -/

/-- a fraction is rounded at the power of two that its size tells, or at the least one -/
theorem ofRatio_eq (s : Bool) {num den m : Nat} {e : Int} (hn : num ≠ 0)
    (he : max (floorLog2 num den - 52) minExponent = e)
    (hm : roundDiv (scale num den e).1 (scale num den e).2 = m) :
    ofRatio s num den = if m = 2 ^ 53 then (if maxExponent < e + 1 then .infinite s else .finite s (2 ^ 52) (e + 1))
      else if maxExponent < e then .infinite s else .finite s m e := by
  have he' : max (floorLog2 num den - ((precision : Int) - 1)) minExponent = e := he
  unfold ofRatio
  rw [if_neg hn]
  dsimp only
  rw [he', hm]
  by_cases hfull : m = Nat.pow 2 precision
  · rw [if_pos hfull, if_pos (show m = 2 ^ 53 from hfull)]
    rfl
  · rw [if_neg hfull, if_neg (show m ≠ 2 ^ 53 from hfull)]

/-- at a power of two a fraction that is nearer than a half of it is rounded to the mantissa -/
theorem round_of_near {num den m : Nat} (hd : den ≠ 0) {e : Int} (h : |(num / den : ℚ) - m * 2 ^ e| < 2 ^ e / 2) :
    roundDiv (scale num den e).1 (scale num den e).2 = m := by
  have hu : (0 : ℚ) < 2 ^ e := by positivity
  refine roundDiv_of_near (scale_pos num hd e) ?_
  have hdistance : (num / den : ℚ) / 2 ^ e - m = (num / den - m * 2 ^ e) / 2 ^ e := by
    rw [sub_div, mul_div_assoc, div_self hu.ne', mul_one]
  rw [scale_eq, hdistance, abs_div, abs_of_pos hu, div_lt_iff₀ hu]
  linarith

/-- just below a full mantissa a fraction is rounded up to it -/
theorem ofRatio_below (s : Bool) {e : Int} (hleast : minExponent < e) (hmost : e ≤ maxExponent) {num den : Nat}
    (hn : num ≠ 0) (hd : den ≠ 0) (hr : floorLog2 num den = e + 51)
    (h : |(num / den : ℚ) - ((2 ^ 52 : Nat) : ℚ) * 2 ^ e| < 2 ^ e / 4) : ofRatio s num den = .finite s (2 ^ 52) e := by
  have hhalf : (2 : ℚ) ^ e = 2 ^ (e - 1) * 2 := by rw [zpow_sub₀ two_ne_zero, zpow_one, div_mul_cancel₀ _ two_ne_zero]
  have hround : roundDiv (scale num den (e - 1)).1 (scale num den (e - 1)).2 = 2 ^ 53 := by
    refine round_of_near hd ?_
    have hmantissa : ((2 ^ 53 : Nat) : ℚ) = 2 * ((2 ^ 52 : Nat) : ℚ) := by push_cast; norm_num
    calc |(num / den : ℚ) - ((2 ^ 53 : Nat) : ℚ) * 2 ^ (e - 1)| = |(num / den : ℚ) - ((2 ^ 52 : Nat) : ℚ) * 2 ^ e| := by
          rw [hmantissa, hhalf]; ring_nf
      _ < 2 ^ e / 4 := h
      _ = 2 ^ (e - 1) / 2 := by rw [hhalf]; ring
  rw [ofRatio_eq s hn (by omega) hround, if_pos rfl, sub_add_cancel, if_neg (by omega)]

/-- **A fraction that is nearer to a datum than a part in `2 ^ 54` of it is rounded to it.** -/
theorem ofRatio_of_near (s : Bool) {m : Nat} {e : Int} (hc : (finite s m e).Canonical) (hm : m ≠ 0) {num den : Nat}
    (hd : den ≠ 0) (h : |(num / den : ℚ) - m * 2 ^ e| < m * 2 ^ e / 2 ^ 54) : ofRatio s num den = .finite s m e := by
  obtain ⟨hfits, hleast, hmost, hfull⟩ := hc
  change m < 2 ^ 53 at hfits
  change 2 ^ 52 ≤ m ∨ e = minExponent at hfull
  have hu : (0 : ℚ) < 2 ^ e := by positivity
  have hmq : (m : ℚ) + 1 ≤ 2 ^ 53 := by exact_mod_cast hfits
  have hn : num ≠ 0 := by
    rintro rfl
    have hx : (0 : ℚ) < m * 2 ^ e := mul_pos (Nat.cast_pos.2 (Nat.pos_of_ne_zero hm)) hu
    rw [Nat.cast_zero, zero_div, zero_sub, abs_neg, abs_of_pos hx] at h
    linarith
  have hhalf : |(num / den : ℚ) - m * 2 ^ e| < 2 ^ e / 2 := by
    refine h.trans_le ?_
    rw [div_le_iff₀ (by positivity)]
    nlinarith
  obtain ⟨hlow, hhigh⟩ := floorLog2_spec hn hd
  obtain ⟨hbelow, habove⟩ := abs_lt.1 hhalf
  -- the size of the fraction is not beyond that of the datum
  have hsize : floorLog2 num den ≤ e + 52 := by
    have hlt : (2 : ℚ) ^ floorLog2 num den < 2 ^ (e + 53) := by
      rw [zpow_add₀ two_ne_zero]
      calc (2 : ℚ) ^ floorLog2 num den ≤ num / den := hlow
        _ < m * 2 ^ e + 2 ^ e / 2 := by linarith
        _ ≤ 2 ^ e * 2 ^ 53 := by nlinarith
    have := (zpow_lt_zpow_iff_right₀ (one_lt_two (α := ℚ))).1 hlt
    omega
  by_cases he : max (floorLog2 num den - 52) minExponent = e
  · rw [ofRatio_eq s hn he (round_of_near hd hhalf), if_neg (by omega), if_neg (by omega)]
  · have hbig : 2 ^ 52 ≤ m := hfull.resolve_right (by omega)
    have hsmall : (num / den : ℚ) < 2 ^ 52 * 2 ^ e := by
      calc (num / den : ℚ) < 2 ^ (floorLog2 num den + 1) := hhigh
        _ ≤ 2 ^ (52 + e) := zpow_le_zpow_right₀ one_le_two (by omega)
        _ = 2 ^ 52 * 2 ^ e := by rw [zpow_add₀ two_ne_zero]; rfl
    have hexact : m = 2 ^ 52 := by
      refine Nat.le_antisymm (Nat.le_of_not_lt fun hlt => ?_) hbig
      have hsucc : ((2 ^ 52 + 1 : Nat) : ℚ) ≤ m := Nat.cast_le.2 hlt
      rw [Nat.cast_add, Nat.cast_pow, Nat.cast_ofNat, Nat.cast_one] at hsucc
      nlinarith
    have hquarter : |(num / den : ℚ) - ((2 ^ 52 : Nat) : ℚ) * 2 ^ e| < 2 ^ e / 4 := by
      rw [hexact] at h
      refine h.trans_eq ?_
      rw [Nat.cast_pow, Nat.cast_ofNat]
      ring
    have hr : floorLog2 num den = e + 51 := by
      have hlt : (2 : ℚ) ^ (e + 51) < 2 ^ (floorLog2 num den + 1) := by
        refine lt_trans ?_ hhigh
        rw [zpow_add₀ two_ne_zero]
        have := (abs_lt.1 hquarter).1
        rw [Nat.cast_pow, Nat.cast_ofNat] at this
        calc (2 : ℚ) ^ e * 2 ^ (51 : Int) ≤ 2 ^ 52 * 2 ^ e - 2 ^ e / 4 := by linarith
          _ < (num / den : ℚ) := by linarith
      have := (zpow_lt_zpow_iff_right₀ (one_lt_two (α := ℚ))).1 hlt
      omega
    rw [hexact]
    exact ofRatio_below s (by omega) hmost hn hd hr hquarter

/-! ## Numerals -/

theorem pow_le_of_digitCount {c : Nat} (hc : c ≠ 0) : 10 ^ (digitCount c - 1) ≤ c := by
  refine Nat.le_of_not_lt fun hlt => ?_
  rcases Nat.eq_zero_or_pos (digitCount c - 1) with hzero | hpos
  · rw [hzero] at hlt
    exact hc (Nat.lt_one_iff.1 hlt)
  · have := digitCount_le hpos hlt
    omega

/-- the digits of a numeral and its power of ten tell its size -/
theorem numeral_spec {c : Nat} (hc : c ≠ 0) (k : Int) :
    (10 : ℚ) ^ (k + digitCount c - 1) ≤ c * 10 ^ k ∧ (c * 10 ^ k : ℚ) < 10 ^ (k + digitCount c) := by
  have hk : (0 : ℚ) < 10 ^ k := by positivity
  have hlow : (10 : ℚ) ^ (digitCount c - 1) ≤ c := by exact_mod_cast pow_le_of_digitCount hc
  have hhigh : (c : ℚ) < 10 ^ digitCount c := by exact_mod_cast lt_pow_digitCount c
  have hcount := digitCount_pos c
  constructor
  · have hsplit : k + digitCount c - 1 = ((digitCount c - 1 : Nat) : Int) + k := by omega
    rw [hsplit, zpow_add₀ (by norm_num), zpow_natCast]
    exact mul_le_mul_of_nonneg_right hlow hk.le
  · rw [add_comm, zpow_add₀ (by norm_num), zpow_natCast]
    exact mul_lt_mul_of_pos_right hhigh hk

/-- a numeral is rounded as a fraction, unless its size is far outside the range -/
theorem ofScientific_eq (s : Bool) {c : Nat} (hc : c ≠ 0) (k : Int) :
    ∃ num den : Nat, den ≠ 0 ∧ (num / den : ℚ) = c * 10 ^ k ∧ ofScientific s c k =
      if 310 < k + digitCount c - 1 then .infinite s else if k + digitCount c - 1 < -330 then zero s
          else ofRatio s num den := by
  by_cases hk : k < 0
  · obtain ⟨j, rfl⟩ : ∃ j : Nat, k = -j := ⟨k.natAbs, by omega⟩
    refine ⟨c, 10 ^ j, (Nat.pow_pos (by decide)).ne', ?_, ?_⟩
    · rw [zpow_neg, zpow_natCast, Nat.cast_pow, Nat.cast_ofNat, div_eq_mul_inv]
    · simp only [ofScientific, if_neg hc, if_pos hk, Int.natAbs_neg, Int.natAbs_natCast]
      rfl
  · obtain ⟨j, rfl⟩ : ∃ j : Nat, k = j := ⟨k.natAbs, by omega⟩
    refine ⟨c * 10 ^ j, 1, Nat.one_ne_zero, ?_, ?_⟩
    · rw [zpow_natCast, Nat.cast_mul, Nat.cast_pow, Nat.cast_ofNat, Nat.cast_one, div_one]
    · simp only [ofScientific, if_neg hc, if_neg hk, Int.natAbs_natCast]
      rfl

theorem ofScientific_congr (s : Bool) {c c' : Nat} {k k' : Int} (h : (c * 10 ^ k : ℚ) = c' * 10 ^ k') :
    ofScientific s c k = ofScientific s c' k' := by
  have hk : (10 : ℚ) ^ k ≠ 0 := by positivity
  have hk' : (10 : ℚ) ^ k' ≠ 0 := by positivity
  have hzero : c = 0 ↔ c' = 0 := by
    constructor <;> rintro rfl <;> simpa [hk, hk'] using h
  by_cases hc : c = 0
  · rw [ofScientific, if_pos hc, ofScientific, if_pos (hzero.1 hc)]
  · have hc' : c' ≠ 0 := fun h => hc (hzero.2 h)
    obtain ⟨hlow, hhigh⟩ := numeral_spec hc k
    obtain ⟨hlow', hhigh'⟩ := numeral_spec hc' k'
    have hsize : k + digitCount c = k' + digitCount c' := by
      have h1 := (zpow_lt_zpow_iff_right₀ (by norm_num : (1 : ℚ) < 10)).1 (hlow.trans_lt (h ▸ hhigh'))
      have h2 := (zpow_lt_zpow_iff_right₀ (by norm_num : (1 : ℚ) < 10)).1 (hlow'.trans_lt (h ▸ hhigh))
      omega
    obtain ⟨num, den, hd, hq, heq⟩ := ofScientific_eq s hc k
    obtain ⟨num', den', hd', hq', heq'⟩ := ofScientific_eq s hc' k'
    have hratio : ofRatio s num den = ofRatio s num' den' := by
      refine ofRatio_congr s hd hd' ?_
      have hsame : (num / den : ℚ) = num' / den' := by rw [hq, hq', h]
      rw [div_eq_div_iff (Nat.cast_ne_zero.2 hd) (Nat.cast_ne_zero.2 hd')] at hsame
      exact_mod_cast hsame
    rw [heq, heq', hsize, hratio]

/-- every datum is within the powers of ten up to which a numeral is rounded -/
theorem datum_within {s : Bool} {m : Nat} {e : Int} (hc : (finite s m e).Canonical) (hm : m ≠ 0) :
    (10 : ℚ) ^ (-324 : Int) < m * 2 ^ e / 2 ∧ (m * 2 ^ e * 2 : ℚ) < 10 ^ (309 : Int) := by
  obtain ⟨hfits, hleast, hmost, -⟩ := hc
  change m < 2 ^ 53 at hfits
  have hlow : (2 : ℚ) ^ (-1074 : Int) ≤ m * 2 ^ e := by
    calc (2 : ℚ) ^ (-1074 : Int) ≤ 2 ^ e := zpow_le_zpow_right₀ one_le_two hleast
      _ ≤ m * 2 ^ e := le_mul_of_one_le_left (by positivity) (by exact_mod_cast Nat.pos_of_ne_zero hm)
  have hhigh : (m * 2 ^ e : ℚ) < 2 ^ (1024 : Int) := by
    have hmq : (m : ℚ) < 2 ^ (53 : Int) := by exact_mod_cast hfits
    calc (m * 2 ^ e : ℚ) < 2 ^ (53 : Int) * 2 ^ e := mul_lt_mul_of_pos_right hmq (by positivity)
      _ ≤ 2 ^ (53 : Int) * 2 ^ (971 : Int) :=
        mul_le_mul_of_nonneg_left (zpow_le_zpow_right₀ one_le_two hmost) (by positivity)
      _ = 2 ^ (1024 : Int) := by rw [← zpow_add₀ two_ne_zero]; rfl
  constructor
  · have hpowers : (10 : ℚ) ^ (-324 : Int) < 2 ^ (-1075 : Int) := by
      rw [zpow_neg, zpow_neg, inv_lt_inv₀ (by positivity) (by positivity)]
      exact_mod_cast (by decide +kernel : 2 ^ 1075 < 10 ^ 324)
    calc (10 : ℚ) ^ (-324 : Int) < 2 ^ (-1075 : Int) := hpowers
      _ = 2 ^ (-1074 : Int) / 2 := by rw [show (-1075 : Int) = -1074 - 1 by norm_num, zpow_sub₀ two_ne_zero, zpow_one]
      _ ≤ m * 2 ^ e / 2 := by linarith
  · have hpowers : (2 : ℚ) ^ (1025 : Int) < 10 ^ (309 : Int) := by
      exact_mod_cast (by decide +kernel : 2 ^ 1025 < 10 ^ 309)
    calc (m * 2 ^ e * 2 : ℚ) < 2 ^ (1024 : Int) * 2 := by linarith
      _ = 2 ^ (1025 : Int) := by rw [show (1025 : Int) = 1024 + 1 by norm_num, zpow_add₀ two_ne_zero, zpow_one]
      _ < 10 ^ (309 : Int) := hpowers

/-- **A numeral that is nearer to a datum than a part in `2 ^ 54` of it is read as it.** -/
theorem ofScientific_of_near {s : Bool} {m : Nat} {e : Int} (hcan : (finite s m e).Canonical) (hm : m ≠ 0)
    {c : Nat} {k : Int}
    (h : |(c * 10 ^ k : ℚ) - m * 2 ^ e| < m * 2 ^ e / 2 ^ 54) : ofScientific s c k = .finite s m e := by
  have hx : (0 : ℚ) < m * 2 ^ e := mul_pos (Nat.cast_pos.2 (Nat.pos_of_ne_zero hm)) (by positivity)
  have hc : c ≠ 0 := by
    rintro rfl
    rw [Nat.cast_zero, zero_mul, zero_sub, abs_neg, abs_of_pos hx] at h
    linarith
  obtain ⟨hbelow, habove⟩ := abs_lt.1 h
  obtain ⟨hlow, hhigh⟩ := numeral_spec hc k
  obtain ⟨hleast, hmost⟩ := datum_within hcan hm
  have htwice : (c * 10 ^ k : ℚ) < m * 2 ^ e * 2 := by linarith
  have hhalf : (m * 2 ^ e / 2 : ℚ) < c * 10 ^ k := by linarith
  have htop := (zpow_lt_zpow_iff_right₀ (by norm_num : (1 : ℚ) < 10)).1 ((hlow.trans_lt htwice).trans hmost)
  have hbottom := (zpow_lt_zpow_iff_right₀ (by norm_num : (1 : ℚ) < 10)).1 ((hleast.trans hhalf).trans hhigh)
  obtain ⟨num, den, hd, hq, heq⟩ := ofScientific_eq s hc k
  rw [heq, if_neg (by omega), if_neg (by omega)]
  exact ofRatio_of_near s hcan hm hd (by rwa [hq])

/-! ## The shortest digits -/

theorem ratio_spec (m : Nat) (e : Int) : (ratio m e).2 ≠ 0 ∧ ((ratio m e).1 : ℚ) / (ratio m e).2 = m * 2 ^ e := by
  unfold ratio
  split
  · next h =>
    obtain ⟨j, rfl⟩ : ∃ j : Nat, e = -j := ⟨e.natAbs, by omega⟩
    refine ⟨(Nat.pow_pos (by decide)).ne', ?_⟩
    simp only [Int.natAbs_neg, Int.natAbs_natCast, Nat.pow_eq, Nat.cast_pow, Nat.cast_ofNat, zpow_neg, zpow_natCast,
      div_eq_mul_inv]
  · next h =>
    obtain ⟨j, rfl⟩ : ∃ j : Nat, e = j := ⟨e.natAbs, by omega⟩
    refine ⟨Nat.one_ne_zero, ?_⟩
    simp only [Int.natAbs_natCast, Nat.pow_eq, Nat.cast_mul, Nat.cast_pow, Nat.cast_ofNat, zpow_natCast, Nat.cast_one,
      div_one]

theorem floorLog10_le {num den : Nat} (hn : num ≠ 0) (hd : den ≠ 0) : (10 : ℚ) ^ floorLog10 num den ≤ num / den := by
  have hden : (0 : ℚ) < den := Nat.cast_pos.2 (Nat.pos_of_ne_zero hd)
  have hnumLow : (10 : ℚ) ^ (digitCount num - 1) ≤ num := by exact_mod_cast pow_le_of_digitCount hn
  have hdenHigh : (den : ℚ) < 10 ^ digitCount den := by exact_mod_cast lt_pow_digitCount den
  have hcount := digitCount_pos num
  unfold floorLog10
  dsimp only
  generalize hk : (digitCount num : Int) - digitCount den = k
  have hbefore : (10 : ℚ) ^ (k - 1) ≤ num / den := by
    have hsplit : k - 1 = ((digitCount num - 1 : Nat) : Int) - (digitCount den : Nat) := by omega
    rw [hsplit, zpow_sub₀ (by norm_num), zpow_natCast, zpow_natCast, div_le_div_iff₀ (by positivity) hden]
    calc (10 : ℚ) ^ (digitCount num - 1) * den ≤ num * den := mul_le_mul_of_nonneg_right hnumLow hden.le
      _ ≤ num * 10 ^ digitCount den := mul_le_mul_of_nonneg_left hdenHigh.le (Nat.cast_nonneg _)
  by_cases hneg : k < 0
  · simp only [if_pos hneg]
    split
    · next h =>
      obtain ⟨j, rfl⟩ : ∃ j : Nat, k = -j := ⟨k.natAbs, by omega⟩
      rw [Int.natAbs_neg, Int.natAbs_natCast] at h
      rw [le_div_iff₀ hden, zpow_neg, zpow_natCast, inv_mul_le_iff₀ (by positivity), mul_comm]
      exact_mod_cast h
    · exact hbefore
  · simp only [if_neg hneg]
    split
    · next h =>
      obtain ⟨j, rfl⟩ : ∃ j : Nat, k = j := ⟨k.natAbs, by omega⟩
      rw [Int.natAbs_natCast] at h
      rw [le_div_iff₀ hden, zpow_natCast, mul_comm]
      exact_mod_cast h
    · exact hbefore

def nearer (num den : Nat) (k : Int) : Nat :=
  match (onGrid num den k).2 with
  | .lt => (onGrid num den k).1
  | .gt => (onGrid num den k).1 + 1
  | .eq => (onGrid num den k).1 + (onGrid num den k).1 % 2

theorem nearer_spec (num : Nat) {den : Nat} (hd : den ≠ 0) (k : Int) :
    |(nearer num den k : ℚ) * 10 ^ k - num / den| ≤ 10 ^ k / 2 := by
  -- the fraction in units of the grid
  obtain ⟨n, d, hpos, hgrid, hunits⟩ : ∃ n d : Nat, 0 < d ∧ onGrid num den k = (n / d, compare (2 * (n % d)) d) ∧
      (num / den : ℚ) = n / d * 10 ^ k := by
    unfold onGrid
    by_cases hk : k < 0
    · obtain ⟨j, rfl⟩ : ∃ j : Nat, k = -j := ⟨k.natAbs, by omega⟩
      refine ⟨num * 10 ^ j, den, Nat.pos_of_ne_zero hd, ?_, ?_⟩
      · rw [if_pos hk, Int.natAbs_neg, Int.natAbs_natCast]
        rfl
      · rw [zpow_neg, zpow_natCast, Nat.cast_mul, Nat.cast_pow, Nat.cast_ofNat]
        field_simp
    · obtain ⟨j, rfl⟩ : ∃ j : Nat, k = j := ⟨k.natAbs, by omega⟩
      refine ⟨num, den * 10 ^ j, Nat.mul_pos (Nat.pos_of_ne_zero hd) (Nat.pow_pos (by decide)), ?_, ?_⟩
      · rw [if_neg hk, Int.natAbs_natCast]
        rfl
      · rw [zpow_natCast, Nat.cast_mul, Nat.cast_pow, Nat.cast_ofNat]
        field_simp
  have hnear : |((nearer num den k : Nat) : ℚ) - n / d| ≤ 1 / 2 := by
    have hdivision : (n : ℚ) = d * (n / d : Nat) + (n % d : Nat) := by exact_mod_cast (Nat.div_add_mod n d).symm
    have hd' : (0 : ℚ) < d := Nat.cast_pos.2 hpos
    have hrest : ((n % d : Nat) : ℚ) < d := Nat.cast_lt.2 (Nat.mod_lt n hpos)
    have hrest' : (0 : ℚ) ≤ (n % d : Nat) := Nat.cast_nonneg _
    have hvalue : (n / d : ℚ) = (n / d : Nat) + (n % d : Nat) / d := by
      rw [div_eq_iff hd'.ne', add_mul, div_mul_cancel₀ _ hd'.ne', mul_comm]
      exact hdivision
    unfold nearer
    rw [hgrid, hvalue]
    dsimp only
    generalize n / d = q at *
    generalize n % d = r at *
    have hhalf : (2 * r : ℚ) / d = 2 * (r / d) := mul_div_assoc ..
    have hbelow : (r / d : ℚ) < 1 := (div_lt_one hd').2 hrest
    have habove : (0 : ℚ) ≤ r / d := div_nonneg hrest' hd'.le
    cases hside : compare (2 * r) d with
    | lt =>
      have hlt : (2 * r : ℚ) < d := by exact_mod_cast compare_lt_iff_lt.1 hside
      have := (div_lt_one hd').2 hlt
      exact abs_le.2 ⟨by linarith, by linarith⟩
    | gt =>
      have hgt : (d : ℚ) < 2 * r := by exact_mod_cast compare_gt_iff_gt.1 hside
      have := (one_lt_div hd').2 hgt
      push_cast
      exact abs_le.2 ⟨by linarith, by linarith⟩
    | eq =>
      have heq : (2 * r : ℚ) = d := by exact_mod_cast compare_eq_iff_eq.1 hside
      have := (div_eq_one_iff_eq hd'.ne').2 heq
      rcases Nat.mod_two_eq_zero_or_one q with hq | hq <;> rw [hq] <;> push_cast <;>
        exact abs_le.2 ⟨by linarith, by linarith⟩
  calc |(nearer num den k : ℚ) * 10 ^ k - num / den| = |(nearer num den k : ℚ) - n / d| * 10 ^ k := by
        rw [hunits, ← sub_mul, abs_mul, abs_of_pos (by positivity : (0 : ℚ) < 10 ^ k)]
    _ ≤ 1 / 2 * 10 ^ k := mul_le_mul_of_nonneg_right hnear (by positivity)
    _ = 10 ^ k / 2 := by ring

/-- one step of the search: the nearest neighbour, the other one, or one digit more -/
theorem shortestFrom_succ (m : Nat) (e : Int) (num den : Nat) (top : Int) (fuel count : Nat) :
    ∃ other : Nat, shortestFrom m e num den top (fuel + 1) count =
      if decide (ofScientific false (nearer num den (top - count + 1)) (top - count + 1) = .finite false m e) then
        (nearer num den (top - count + 1), top - count + 1)
      else if decide (ofScientific false other (top - count + 1) = .finite false m e) then (other, top - count + 1)
      else shortestFrom m e num den top fuel (count + 1) :=
  ⟨if nearer num den (top - count + 1) = (onGrid num den (top - count + 1)).1 then
    (onGrid num den (top - count + 1)).1 + 1 else (onGrid num den (top - count + 1)).1, rfl⟩

/-- the search for the shortest digits ends with digits that read back, if the nearest of seventeen do -/
theorem shortestFrom_reads {m : Nat} {e : Int} {num den : Nat} {top : Int}
    (h : ofScientific false (nearer num den (top - 16)) (top - 16) = .finite false m e) (fuel count : Nat)
    (hc : count ≤ 17)
    (hf : 17 < count + fuel) :
    ofScientific false (shortestFrom m e num den top fuel count).1 (shortestFrom m e num den top fuel count).2 =
      .finite false m e := by
  induction fuel generalizing count with
  | zero => omega
  | succ fuel ih =>
    obtain ⟨other, heq⟩ := shortestFrom_succ m e num den top fuel count
    rw [heq]
    split
    · next hnearer => exact of_decide_eq_true hnearer
    · next hnearer =>
      split
      · next hother => exact of_decide_eq_true hother
      · refine ih (count + 1) (Nat.lt_of_le_of_ne hc ?_) (by omega)
        rintro rfl
        exact hnearer (decide_eq_true (by rw [show top - ((17 : Nat) : Int) + 1 = top - 16 by omega]; exact h))

/-- **The shortest digits of a datum are read as it.** -/
theorem shortest_reads {m : Nat} {e : Int} (hc : (finite false m e).Canonical) (hm : m ≠ 0) :
    ofScientific false (shortest m e).1 (shortest m e).2 = .finite false m e := by
  obtain ⟨hden, hvalue⟩ := ratio_spec m e
  have hx : (0 : ℚ) < m * 2 ^ e := mul_pos (Nat.cast_pos.2 (Nat.pos_of_ne_zero hm)) (by positivity)
  have hnum : (ratio m e).1 ≠ 0 := by
    intro hzero
    rw [hzero, Nat.cast_zero, zero_div] at hvalue
    exact hx.ne hvalue
  -- seventeen digits are nearer than a part in `2 ^ 54`
  have hseventeen : ofScientific false (nearer (ratio m e).1 (ratio m e).2 (floorLog10 (ratio m e).1 (ratio m e).2 - 16))
      (floorLog10 (ratio m e).1 (ratio m e).2 - 16) = .finite false m e := by
    have htop := floorLog10_le hnum hden
    rw [hvalue] at htop
    have hnear := nearer_spec (ratio m e).1 hden (floorLog10 (ratio m e).1 (ratio m e).2 - 16)
    rw [hvalue] at hnear
    refine ofScientific_of_near hc hm (hnear.trans_lt ?_)
    generalize floorLog10 (ratio m e).1 (ratio m e).2 = top at htop
    rw [zpow_sub₀ (by norm_num : (10 : ℚ) ≠ 0)]
    generalize (10 : ℚ) ^ top = t at htop
    norm_num
    linarith
  have hreads := shortestFrom_reads hseventeen 17 1 (by decide) (by decide)
  unfold shortest
  dsimp only
  generalize shortestFrom m e _ _ _ 17 1 = d at hreads
  split
  · next hten =>
    rw [hten] at hreads
    rw [← hreads]
    refine ofScientific_congr false ?_
    rw [zpow_add₀ (by norm_num)]
    norm_num
    ring
  · exact hreads

/-! ## The text of a datum -/

/-- the text of a datum without a sign is a numeral that is read as the datum -/
theorem exists_written {m : Nat} {e : Int} (hc : (finite false m e).Canonical) :
    ∃ c k, Written c k (finite false m e).text ∧ ofScientific false c k = .finite false m e := by
  by_cases hm : m = 0
  · subst hm
    obtain ⟨-, -, -, hfull⟩ := hc
    obtain rfl : e = minExponent := hfull.resolve_left (by decide)
    exact ⟨0, -1, .pointed (z := 0) (zeros_all 1) (by simp) (zeros_all 1) (by simp) .none rfl rfl (by decide), rfl⟩
  · refine ⟨_, _, ?_, shortest_reads hc hm⟩
    have htext : (finite false m e).text = positiveText m e := if_neg hm
    rw [htext]
    exact written_positiveText m e

/-- zeros after the digits do not change what a numeral is rounded to, if the power of ten makes up for them -/
theorem ofScientific_zeros (s : Bool) (c : Nat) (k : Int) (z : Nat) :
    ofScientific s (c * 10 ^ z) (k - z) = ofScientific s c k := by
  refine ofScientific_congr s ?_
  rw [zpow_sub₀ (by norm_num), zpow_natCast, Nat.cast_mul, Nat.cast_pow, Nat.cast_ofNat]
  field_simp

/-! ## Signs -/

theorem neg_ofRatio (num den : Nat) : (ofRatio false num den).neg = ofRatio true num den := by
  unfold ofRatio
  dsimp only
  split
  · rfl
  · split <;> split <;> rfl

theorem neg_ofScientific (c : Nat) (k : Int) : (ofScientific false c k).neg = ofScientific true c k := by
  unfold ofScientific
  dsimp only
  split
  · rfl
  · split
    · rfl
    · split
      · rfl
      · split <;> exact neg_ofRatio _ _

/-! ## Numerals as they are read -/

/-- a numeral that opens with a digit is read as the datum nearest to it -/
theorem ofText?_of_scientific {c : Nat} {k : Int} {cs : List Char} (h : Decimal.Opens cs)
    (hs : scientific? cs = some (c, k)) :
    ofText? cs = some (ofScientific false c k) := by
  obtain ⟨hmark, d, rest, rfl, hd⟩ := h
  have hvis : ∀ x ∈ d :: rest, isVisible x = true := fun x hx => Decimal.visible_of_isMark (hmark x hx)
  have hlow : (d :: rest).contains '_' = false := by
    refine Bool.eq_false_iff.2 fun hmem => ?_
    exact absurd (hmark _ (List.contains_iff_mem.1 hmem)) (by decide)
  simp only [ofText?, strip_of_visible hvis, mapM_asciiNumeral?_of_visible hvis, Option.bind_eq_bind,
    Option.bind_some, hlow,
    Bool.false_eq_true, if_false, takeSign_of_isDigit hd, hs]

theorem ofText?_of_written {c : Nat} {k : Int} {cs : List Char} (h : Written c k cs) :
    ofText? cs = some (ofScientific false c k) := by
  obtain ⟨zeros, -, hread⟩ := h.scientific?
  rw [ofText?_of_scientific h.opens hread, ofScientific_zeros]

end Binary64

end Intake.Number
