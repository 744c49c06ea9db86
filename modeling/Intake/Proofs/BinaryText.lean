/-
The text of a binary number as a decimal numeral.

A rule about numbers takes a binary number for the decimal that its shortest text denotes. Every finite datum that
is made here has a mantissa and an exponent within bounds (`Binary64.Bounded`), so the digits of its text are few and
the power of ten in it is small, and the text is the numeral of a finite decimal. For the same reason its whole part is
short enough to be written (`Binary64.truncate?_short`).

Results:
- `Binary64.bounded_ofRatio`: what is rounded is within the bounds;
- `Binary64.written_positiveText`: the text of a positive datum is a numeral of its shortest digits;
- `Binary64.decimal_of_text`: the text of a finite datum is read as a finite decimal.
-/
import Mathlib.Tactic.Ring
import Intake.Proofs.DecimalText

namespace Intake.Number

open Intake.Text

/-! ## Numbers of digits -/

theorem digitCount_le {n k : Nat} (hk : 0 < k) (h : n < 10 ^ k) : digitCount n ≤ k :=
  (Nat.length_toDigits_le_iff (by decide) hk).2 h

theorem lt_pow_digitCount (n : Nat) : n < 10 ^ digitCount n :=
  (Nat.length_toDigits_le_iff (by decide) (digitCount_pos n)).1 (Nat.le_refl _)

theorem digitCount_le_of_le_two_pow {n k : Nat} (h : n ≤ 2 ^ k) : digitCount n ≤ k + 1 := by
  refine digitCount_le (Nat.succ_pos k) (Nat.lt_of_le_of_lt h ?_)
  calc 2 ^ k ≤ 10 ^ k := Nat.pow_le_pow_left (by decide) k
    _ < 10 ^ (k + 1) := Nat.pow_lt_pow_right (by decide) (Nat.lt_succ_self k)

theorem digitCount_mul_pow_le (n k : Nat) : digitCount (n * 10 ^ k) ≤ digitCount n + k := by
  refine digitCount_le (Nat.add_pos_left (digitCount_pos n) k) ?_
  rw [Nat.pow_add]
  exact Nat.mul_lt_mul_of_pos_right (lt_pow_digitCount n) (Nat.pow_pos (by decide))

theorem digitCount_mono {m n : Nat} (h : m ≤ n) : digitCount m ≤ digitCount n :=
  digitCount_le (digitCount_pos n) (Nat.lt_of_le_of_lt h (lt_pow_digitCount n))

theorem digitCount_succ_le (n : Nat) : digitCount (n + 1) ≤ digitCount n + 1 := by
  refine digitCount_le (Nat.succ_pos _) (Nat.lt_of_le_of_lt (lt_pow_digitCount n) ?_)
  exact Nat.pow_lt_pow_right (by decide) (Nat.lt_succ_self _)

theorem digitValue_lt (c : Char) : (digitValue? c).getD 0 < 10 := by
  unfold digitValue?
  split
  · next h =>
    simp only [Char.isDigit, Bool.and_eq_true, decide_eq_true_eq, ge_iff_le, UInt32.le_iff_toNat_le] at h
    have hc : c.toNat ≤ 57 := h.2
    show c.toNat - 48 < 10
    omega
  · split
    · exact Nat.succ_pos 9
    · cases hz : digitZeros.find? fun z => decide (z ≤ c.toNat ∧ c.toNat < z + 10) with
      | none => exact Nat.succ_pos 9
      | some z =>
        have hrange := List.find?_some hz
        simp only [decide_eq_true_eq] at hrange
        show c.toNat - z < 10
        omega

/-- digits of any script denote a number of no more digits -/
theorem ofDigits_lt (cs : List Char) : ofDigits cs < 10 ^ cs.length := by
  have from_left (n : Nat) : cs.foldl (fun n c => 10 * n + (digitValue? c).getD 0) n < (n + 1) * 10 ^ cs.length := by
    induction cs generalizing n with
    | nil => simp
    | cons c cs ih =>
      have hc := digitValue_lt c
      calc (c :: cs).foldl (fun n c => 10 * n + (digitValue? c).getD 0) n
          < (10 * n + (digitValue? c).getD 0 + 1) * 10 ^ cs.length := ih _
        _ ≤ (10 * (n + 1)) * 10 ^ cs.length := Nat.mul_le_mul_right _ (by omega)
        _ = (n + 1) * 10 ^ (c :: cs).length := by rw [List.length_cons, Nat.pow_succ]; ring
  simpa [ofDigits] using from_left 0

/-- no numeral of more than one digit opens with a zero -/
theorem digits_eq_zero_cons {n : Nat} {ds : List Char} (h : digits n = '0' :: ds) : ds = [] := by
  by_contra hne
  have hall : ∀ c ∈ ds, c.isDigit = true := fun c hc => digits_all n c (by rw [h]; exact List.mem_cons_of_mem _ hc)
  have hvalue : ofDigits ds = n := by
    have := ofDigits_digits n
    rwa [h, show '0' :: ds = List.replicate 1 '0' ++ ds from rfl, ofDigits_zeros hall] at this
  have hcount := digitCount_le (List.length_pos_iff.2 hne) (ofDigits_lt ds)
  rw [hvalue, digitCount, h, List.length_cons] at hcount
  omega

/-- digits of which the first is a zero only if there are no others -/
structure WholeDigits (ds : List Char) : Prop where
  digits : ∀ c ∈ ds, c.isDigit = true
  nonempty : ds ≠ []
  lead : ∀ cs, ds = '0' :: cs → cs = []

theorem wholeDigits_digits (n : Nat) : WholeDigits (digits n) :=
  ⟨digits_all n, digits_nonempty n, fun _ h => digits_eq_zero_cons h⟩

namespace Binary64

/-! ## Bounds -/

/-- the mantissa and the exponent that a finite datum can have, the mantissa with a bit to spare -/
def Bounded : Binary64 → Prop
  | .finite _ m e => m ≤ 2 ^ 54 ∧ minExponent ≤ e ∧ e ≤ maxExponent
  | _ => True

theorem Canonical.bounded {x : Binary64} (h : x.Canonical) : x.Bounded := by
  cases x with
  | finite s m e =>
    obtain ⟨hm, hlow, hhigh, -⟩ := h
    exact ⟨Nat.le_trans (Nat.le_of_lt hm) (Nat.pow_le_pow_right (by decide) (by decide)), hlow, hhigh⟩
  | _ => trivial

theorem bounded_zero (s : Bool) : (zero s).Bounded := ⟨Nat.zero_le _, by decide, by decide⟩

theorem roundDiv_le (n d : Nat) : roundDiv n d ≤ n / d + 1 := by
  unfold roundDiv
  dsimp only
  split
  · omega
  · split
    · omega
    · omega

theorem floorLog2_ge (num den : Nat) : (num.log2 : Int) - den.log2 - 1 ≤ floorLog2 num den := by
  unfold floorLog2
  dsimp only
  split <;> omega

/-- a fraction scaled to its own size is no more than a mantissa -/
theorem scale_lt {num den : Nat} (hd : den ≠ 0) {e : Int} (he : floorLog2 num den - 52 ≤ e) :
    (scale num den e).1 < (scale num den e).2 * 2 ^ 54 := by
  have hlog := floorLog2_ge num den
  have hnum : num < 2 ^ (num.log2 + 1) := Nat.lt_log2_self
  have hden : 2 ^ den.log2 ≤ den := Nat.log2_self_le hd
  generalize num.log2 = a at hlog hnum
  generalize den.log2 = b at hlog hden
  have hcross : num * 2 ^ b < den * 2 ^ (a + 1) :=
    calc num * 2 ^ b < 2 ^ (a + 1) * 2 ^ b := Nat.mul_lt_mul_of_pos_right hnum (Nat.pow_pos (by decide))
      _ ≤ 2 ^ (a + 1) * den := Nat.mul_le_mul_left _ hden
      _ = den * 2 ^ (a + 1) := Nat.mul_comm _ _
  have hb : 0 < 2 ^ b := Nat.pow_pos (by decide)
  unfold scale
  split
  · next hneg =>
    refine Nat.lt_of_mul_lt_mul_right (a := 2 ^ b) ?_
    show num * 2 ^ e.natAbs * 2 ^ b < den * 2 ^ 54 * 2 ^ b
    calc num * 2 ^ e.natAbs * 2 ^ b = num * 2 ^ b * 2 ^ e.natAbs := by ring
      _ < den * 2 ^ (a + 1) * 2 ^ e.natAbs := Nat.mul_lt_mul_of_pos_right hcross (Nat.pow_pos (by decide))
      _ = den * 2 ^ (a + 1 + e.natAbs) := by rw [Nat.mul_assoc, ← Nat.pow_add]
      _ ≤ den * 2 ^ (b + 54) := Nat.mul_le_mul_left _ (Nat.pow_le_pow_right (by decide) (by omega))
      _ = den * 2 ^ 54 * 2 ^ b := by rw [Nat.pow_add]; ring
  · next hpos =>
    refine Nat.lt_of_mul_lt_mul_right (a := 2 ^ b) ?_
    show num * 2 ^ b < den * 2 ^ e.natAbs * 2 ^ 54 * 2 ^ b
    calc num * 2 ^ b < den * 2 ^ (a + 1) := hcross
      _ ≤ den * 2 ^ (e.natAbs + 54 + b) := Nat.mul_le_mul_left _ (Nat.pow_le_pow_right (by decide) (by omega))
      _ = den * 2 ^ e.natAbs * 2 ^ 54 * 2 ^ b := by rw [Nat.pow_add, Nat.pow_add]; ring

/-- **What is rounded is within the bounds.** -/
theorem bounded_ofRatio (s : Bool) (num : Nat) {den : Nat} (hd : den ≠ 0) : (ofRatio s num den).Bounded := by
  unfold ofRatio
  split
  · exact bounded_zero s
  · dsimp only
    have hprecision : (precision : Int) = 53 := rfl
    have hlt : (scale num den (max (floorLog2 num den - (precision - 1)) minExponent)).1 <
        (scale num den (max (floorLog2 num den - (precision - 1)) minExponent)).2 * 2 ^ 54 :=
      scale_lt hd (by omega)
    have hlow : minExponent ≤ max (floorLog2 num den - (precision - 1)) minExponent := Int.le_max_right _ _
    generalize max (floorLog2 num den - (precision - 1)) minExponent = e at hlt hlow
    generalize scale num den e = r at hlt
    have hm : roundDiv r.1 r.2 ≤ 2 ^ 54 := by
      have hdiv : r.1 / r.2 < 2 ^ 54 := Nat.div_lt_of_lt_mul hlt
      have := roundDiv_le r.1 r.2
      omega
    by_cases hfull : roundDiv r.1 r.2 = Nat.pow 2 precision
    · simp only [hfull, if_true]
      split
      · trivial
      · next hmax => exact ⟨by decide, by omega, by omega⟩
    · simp only [hfull, if_false]
      split
      · trivial
      · next hmax => exact ⟨hm, hlow, by omega⟩

theorem bounded_ofScientific (s : Bool) (c : Nat) (e : Int) : (ofScientific s c e).Bounded := by
  unfold ofScientific
  dsimp only
  split
  · exact bounded_zero s
  · split
    · trivial
    · split
      · exact bounded_zero s
      · split
        · exact bounded_ofRatio s c (Nat.pos_iff_ne_zero.1 (Nat.pow_pos (by decide)))
        · exact bounded_ofRatio s _ Nat.one_ne_zero

theorem bounded_ofInt (n : Int) : (ofInt n).Bounded := bounded_ofRatio _ _ Nat.one_ne_zero

theorem bounded_of_ofName? {negative : Bool} {cs : List Char} {x : Binary64} (h : ofName? negative cs = some x) :
    x.Bounded := by
  unfold ofName? at h
  dsimp only at h
  split at h
  · cases h; trivial
  · split at h <;> cases h
    trivial

theorem bounded_of_ofText? {cs : List Char} {x : Binary64} (h : ofText? cs = some x) : x.Bounded := by
  obtain ⟨plain, -, h⟩ := Option.bind_eq_some_iff.1 h
  dsimp only at h
  split at h
  · obtain ⟨joined, -, h⟩ := Option.bind_eq_some_iff.1 h
    split at h
    · cases h
      exact bounded_ofScientific _ _ _
    · exact bounded_of_ofName? h
  · rw [Option.bind_eq_bind, Option.bind_some] at h
    split at h
    · cases h
      exact bounded_ofScientific _ _ _
    · exact bounded_of_ofName? h

/-- the fraction of a datum within the bounds has few digits -/
theorem digitCount_ratio {s : Bool} {m : Nat} {e : Int} (h : (finite s m e).Bounded) :
    digitCount (ratio m e).1 ≤ 1026 ∧ digitCount (ratio m e).2 ≤ 1075 := by
  obtain ⟨hm, hlow, hhigh⟩ := h
  have hmin : minExponent = -1074 := rfl
  have hmax : maxExponent = 971 := rfl
  have hmantissa : digitCount m ≤ 55 := digitCount_le_of_le_two_pow hm
  unfold ratio
  split
  · have hden : digitCount (Nat.pow 2 e.natAbs) ≤ e.natAbs + 1 := digitCount_le_of_le_two_pow (Nat.le_refl _)
    exact ⟨by dsimp only; omega, by dsimp only; omega⟩
  · have hnum : digitCount (m * Nat.pow 2 e.natAbs) ≤ 54 + e.natAbs + 1 := by
      refine digitCount_le_of_le_two_pow ?_
      rw [Nat.pow_add]
      exact Nat.mul_le_mul_right _ hm
    have hone : digitCount 1 = 1 := rfl
    exact ⟨by dsimp only; omega, by dsimp only; omega⟩

/-- the whole part of a datum is short enough to be written -/
theorem truncate?_short {x : Binary64} (h : x.Bounded) {n : Int} (hn : x.truncate? = some n) : (intText? n).isSome := by
  cases x with
  | finite s m e =>
    obtain rfl := Option.some.inj hn
    have hcount : digitCount (signed s ((ratio m e).1 / (ratio m e).2)).natAbs ≤ maxDigits := by
      rw [natAbs_signed]
      calc digitCount ((ratio m e).1 / (ratio m e).2) ≤ digitCount (ratio m e).1 := digitCount_mono (Nat.div_le_self _ _)
        _ ≤ 1026 := (digitCount_ratio h).1
        _ ≤ maxDigits := by decide
    show (intText? (signed s ((ratio m e).1 / (ratio m e).2))).isSome
    rw [intText?, if_pos hcount]
    rfl
  | nan p => cases hn
  | infinite s => cases hn

/-! ## The shortest digits -/

theorem floorLog10_within (num den : Nat) :
    -(digitCount den : Int) - 1 ≤ floorLog10 num den ∧ floorLog10 num den ≤ digitCount num := by
  unfold floorLog10
  dsimp only
  split <;> constructor <;> split <;> omega

theorem onGrid_le (num den : Nat) (k : Int) : (onGrid num den k).1 ≤ num * 10 ^ k.natAbs := by
  unfold onGrid
  dsimp only
  split
  · exact Nat.div_le_self _ _
  · exact Nat.le_trans (Nat.div_le_self _ _) (Nat.le_mul_of_pos_right num (Nat.pow_pos (by decide)))

/-- the digits that are tried stand on the grid of their power of ten, or next to it -/
theorem shortestFrom_within (m : Nat) (e : Int) (num den : Nat) (top : Int) (fuel count : Nat) :
    (shortestFrom m e num den top fuel count).1 ≤ (onGrid num den (shortestFrom m e num den top fuel count).2).1 + 1 ∧
      top - count - fuel + 1 ≤ (shortestFrom m e num den top fuel count).2 ∧
      (shortestFrom m e num den top fuel count).2 ≤ top - count + 1 := by
  induction fuel generalizing count with
  | zero => exact ⟨Nat.le_succ _, by simp [shortestFrom], by simp [shortestFrom]⟩
  | succ fuel ih =>
    let Fits (r : Nat × Int) : Prop := r.1 ≤ (onGrid num den r.2).1 + 1 ∧
      top - count - ((fuel + 1 : Nat) : Int) + 1 ≤ r.2 ∧ r.2 ≤ top - count + 1
    have hlater : Fits (shortestFrom m e num den top fuel (count + 1)) := by
      obtain ⟨hgrid, hlow, hhigh⟩ := ih (count + 1)
      exact ⟨hgrid, by push_cast at hlow ⊢; omega, by push_cast at hhigh; omega⟩
    have hhere {c : Nat} (hc : c ≤ (onGrid num den (top - count + 1)).1 + 1) : Fits (c, top - count + 1) :=
      ⟨hc, by push_cast; omega, Int.le_refl _⟩
    have htried (readsBack : Nat → Bool) {nearer other : Nat} (hn : nearer ≤ (onGrid num den (top - count + 1)).1 + 1)
        (ho : other ≤ (onGrid num den (top - count + 1)).1 + 1) : Fits (if readsBack nearer then (nearer, top - count + 1)
          else if readsBack other then (other, top - count + 1) else shortestFrom m e num den top fuel (count + 1)) := by
      split
      · exact hhere hn
      · split
        · exact hhere ho
        · exact hlater
    show Fits (shortestFrom m e num den top (fuel + 1) count)
    unfold shortestFrom
    dsimp only
    -- whichever neighbour is nearer, the two that are tried are the lower one and the one above it
    refine htried (fun c => decide (ofScientific false c (top - count + 1) = .finite false m e)) ?_ ?_
    · split <;> omega
    · split <;> split <;> omega

/-- the digits of a datum within the bounds are few, and so is the power of ten -/
theorem shortest_within {s : Bool} {m : Nat} {e : Int} (h : (finite s m e).Bounded) :
    -1200 ≤ (shortest m e).2 ∧ (shortest m e).2 ≤ 1200 ∧ digitCount (shortest m e).1 ≤ 2400 := by
  obtain ⟨hnum, hden⟩ := digitCount_ratio h
  unfold shortest
  dsimp only
  generalize ratio m e = r at hnum hden
  obtain ⟨num, den⟩ := r
  dsimp only at hnum hden ⊢
  obtain ⟨hlow, hhigh⟩ := floorLog10_within num den
  obtain ⟨hgrid, hleast, hmost⟩ := shortestFrom_within m e num den (floorLog10 num den) 17 1
  generalize shortestFrom m e num den (floorLog10 num den) 17 1 = d at hgrid hleast hmost
  obtain ⟨c, k⟩ := d
  dsimp only at hgrid hleast hmost ⊢
  have hk : k.natAbs ≤ 1199 := by omega
  have hc : digitCount c ≤ 2400 :=
    calc digitCount c ≤ digitCount (num * 10 ^ k.natAbs + 1) := by
          exact digitCount_mono (Nat.le_trans hgrid (Nat.succ_le_succ (onGrid_le num den k)))
      _ ≤ digitCount num + k.natAbs + 1 :=
          Nat.le_trans (digitCount_succ_le _) (Nat.succ_le_succ (digitCount_mul_pow_le num _))
      _ ≤ 2400 := by omega
  split
  · have hone : digitCount 1 = 1 := rfl
    exact ⟨by dsimp only; omega, by dsimp only; omega, by dsimp only; omega⟩
  · exact ⟨by omega, by omega, hc⟩

/-! ## The text of a positive datum -/

theorem exponentText_eq (e : Int) : ∃ ds, exponentText e = (if e < 0 then '-' else '+') :: ds ∧ ds ≠ [] ∧
    (∀ c ∈ ds, c.isDigit = true) ∧ ofDigits ds = e.natAbs := by
  unfold exponentText
  dsimp only
  by_cases hlen : (digits e.natAbs).length < 2
  · rw [if_pos hlen]
    exact ⟨_, rfl, List.cons_ne_nil _ _, append_all (zeros_all 1) (digits_all e.natAbs),
      (ofDigits_zeros (digits_all e.natAbs) 1).trans (ofDigits_digits _)⟩
  · rw [if_neg hlen]
    exact ⟨_, rfl, digits_nonempty _, digits_all _, ofDigits_digits _⟩

theorem exponent?_exponentText (e : Int) : exponent? ('e' :: exponentText e) = some e := by
  obtain ⟨ds, htext, hn, hd, hv⟩ := exponentText_eq e
  have h := exponent?_signed (Or.inl rfl) (decide (e < 0)) hn hd
  rw [hv, signed_natAbs] at h
  simpa [htext] using h

/-- what may follow the digits of a numeral: nothing, or an exponent -/
inductive Tail : Int → List Char → Prop where
  | none : Tail 0 []
  | exponent (p : Int) : Tail p ('e' :: exponentText p)

theorem Tail.exponent? {p : Int} {tail : List Char} (h : Tail p tail) : exponent? tail = some p := by
  cases h with
  | none => exact Decimal.exponent?_nil
  | exponent => exact exponent?_exponentText p

/-- how a numeral of a coefficient and a power of ten is written: with a point among its digits, perhaps behind zeros or
before some, or as one digit with an exponent -/
inductive Written (c : Nat) (k : Int) : List Char → Prop where
  | pointed {whole places tail : List Char} {p : Int} {z : Nat} (hw : ∀ x ∈ whole, x.isDigit = true) (hn : whole ≠ [])
    (hp : ∀ x ∈ places, x.isDigit = true) (hl : places ≠ []) (ht : Tail p tail)
    (hv : ofDigits (whole ++ places) = c * 10 ^ z)
    (hk : p - places.length = k - z) (hz : z ≤ 17) : Written c k (whole ++ '.' :: (places ++ tail))
  | bare {d : Char} (hd : d.isDigit = true) (hv : ofDigits [d] = c) : Written c k (d :: 'e' :: exponentText k)

theorem Tail.stops {p : Int} {tail : List Char} (h : Tail p tail) : Stops Char.isDigit tail := by
  cases h with
  | none => exact stops_nil
  | exponent => exact stops_cons (by decide)

theorem Written.scientific? {c : Nat} {k : Int} {cs : List Char} (h : Written c k cs) :
    ∃ zeros : Nat, zeros ≤ 17 ∧ scientific? cs = some (c * 10 ^ zeros, k - zeros) := by
  cases h with
  | pointed hw hn hp hl ht hv hk hz =>
    refine ⟨_, hz, ?_⟩
    rw [scientific?_point hw hn hp ht.stops ht.exponent?, hv, hk]
  | @bare d hd hv =>
    have hw : ∀ x ∈ [d], x.isDigit = true := List.forall_mem_singleton.2 hd
    have hread := scientific?_whole hw (by simp) (stops_cons (by decide)) (exponent?_exponentText k)
    refine ⟨0, by decide, ?_⟩
    rw [← List.singleton_append, hread, hv, Nat.pow_zero, Nat.mul_one, Int.natCast_zero, Int.sub_zero]

/-- **The text of a positive datum is a numeral of its shortest digits.** -/
theorem written_positiveText (m : Nat) (e : Int) : Written (shortest m e).1 (shortest m e).2 (positiveText m e) := by
  unfold positiveText
  dsimp only
  generalize shortest m e = d
  obtain ⟨c, k⟩ := d
  dsimp only
  have hall := digits_all c
  have hnil := digits_nonempty c
  have hval := ofDigits_digits c
  have hpos : 0 < (digits c).length := List.length_pos_iff.2 hnil
  split
  · split
    · -- all digits stand after the point
      have hp := append_all (zeros_all (((digits c).length : Int) + k).natAbs) hall
      have hw := Written.pointed (c := c) (k := k) (zeros_all 1) (by simp) hp (by simp [hnil]) .none (z := 0)
        (by rw [ofDigits_zeros hp, ofDigits_zeros hall, hval, Nat.pow_zero, Nat.mul_one])
        (by simp only [List.length_append, List.length_replicate]; omega) (by decide)
      rwa [List.append_nil] at hw
    · split
      · -- all digits stand before the point
        have hw := append_all hall (zeros_all ((((digits c).length : Int) + k).natAbs - (digits c).length))
        have hzeros :
          ofDigits ((digits c ++ List.replicate ((((digits c).length : Int) + k).natAbs - (digits c).length) '0') ++
            List.replicate 1 '0') = c * 10 ^ ((((digits c).length : Int) + k).natAbs - (digits c).length + 1) := by
          rw [ofDigits_append_zeros hw, ofDigits_append_zeros hall, hval, Nat.mul_assoc, Nat.pow_succ]
          rfl
        exact .pointed hw (by simp [hnil]) (zeros_all 1) (by simp) .none hzeros
          (by simp only [List.length_replicate]; omega) (by omega)
      · -- the point stands among the digits
        have hw : ∀ x ∈ (digits c).take (((digits c).length : Int) + k).natAbs, x.isDigit = true :=
          fun x hx => hall x (List.mem_of_mem_take hx)
        have hp : ∀ x ∈ (digits c).drop (((digits c).length : Int) + k).natAbs, x.isDigit = true :=
          fun x hx => hall x (List.mem_of_mem_drop hx)
        have hn : (digits c).take (((digits c).length : Int) + k).natAbs ≠ [] := by
          intro hnone
          have := congrArg List.length hnone
          simp only [List.length_take, List.length_nil] at this
          omega
        have hl : (digits c).drop (((digits c).length : Int) + k).natAbs ≠ [] := by
          intro hnone
          have := congrArg List.length hnone
          simp only [List.length_drop, List.length_nil] at this
          omega
        have hw := Written.pointed (c := c) (k := k) hw hn hp hl .none (z := 0)
          (by rw [List.take_append_drop, hval, Nat.pow_zero, Nat.mul_one]) (by simp only [List.length_drop]; omega)
          (by decide)
        rwa [List.append_nil] at hw
  · generalize digits c = ds at *
    match ds with
    | [] => exact absurd rfl hnil
    | [d] =>
      have hk : (([d].length : Nat) : Int) + k - 1 = k := by
        simp only [List.length_singleton]
        omega
      rw [hk]
      exact .bare (hall d List.mem_cons_self) hval
    | d :: d' :: ds =>
      have hw : ∀ x ∈ [d], x.isDigit = true := List.forall_mem_singleton.2 (hall d List.mem_cons_self)
      have hp : ∀ x ∈ d' :: ds, x.isDigit = true := fun x hx => hall x (List.mem_cons_of_mem d hx)
      exact .pointed (z := 0) hw (by simp) hp (List.cons_ne_nil _ _) (.exponent _)
        (by rw [Nat.pow_zero, Nat.mul_one]; exact hval)
        (by simp only [List.length_cons]; omega) (by decide)

/-- a numeral that is read as a coefficient of few digits and a small power of ten -/
def Moderate (cs : List Char) : Prop :=
  ∃ c k, Number.scientific? cs = some (c, k) ∧ -3000 ≤ k ∧ k ≤ 3000 ∧ digitCount c ≤ 3000

theorem moderate_positiveText {s : Bool} {m : Nat} {e : Int} (h : (finite s m e).Bounded) :
    Moderate (positiveText m e) := by
  obtain ⟨hlow, hhigh, hcount⟩ := shortest_within h
  obtain ⟨zeros, hz, hread⟩ := (written_positiveText m e).scientific?
  have := digitCount_mul_pow_le (shortest m e).1 zeros
  exact ⟨_, _, hread, by omega, by omega, by omega⟩

/-! ## The text as a whole -/

theorem exponentText_marks (e : Int) : ∀ x ∈ 'e' :: exponentText e, Decimal.isMark x = true := by
  have hall := digits_all e.natAbs
  intro x hx
  unfold exponentText at hx
  simp only [List.mem_cons] at hx
  rcases hx with rfl | rfl | hx
  · decide
  · split <;> decide
  · split at hx
    · rcases List.mem_cons.1 hx with rfl | hx
      · decide
      · exact Decimal.isMark_of_isDigit (hall x hx)
    · exact Decimal.isMark_of_isDigit (hall x hx)

/-- a numeral consists of digits, a point and an exponent, and opens with a digit -/
theorem Written.opens {c : Nat} {k : Int} {cs : List Char} (h : Written c k cs) : Decimal.Opens cs := by
  cases h with
  | pointed hw hn hp _ ht _ _ _ =>
    refine Decimal.opens_append (Decimal.opens_digits hw hn) ?_
    rw [← List.cons_append]
    refine append_all (Decimal.point_marks hp) ?_
    cases ht with
    | none => exact fun x hx => absurd hx List.not_mem_nil
    | exponent => exact exponentText_marks _
  | bare hd _ => exact Decimal.opens_cons hd (exponentText_marks k)

theorem opens_positiveText (m : Nat) (e : Int) : Decimal.Opens (positiveText m e) := (written_positiveText m e).opens

theorem ofNumeral_of_moderate (s : Bool) {cs : List Char} (h : Moderate cs) :
    ∃ c k, Decimal.ofNumeral s cs = some (.finite s c k) := by
  obtain ⟨c, k, hread, hlow, hhigh, hcount⟩ := h
  have hmin : Decimal.minExponent = -1999999999999999997 := rfl
  have hmax : Decimal.maxAdjusted = 999999999999999999 := rfl
  refine ⟨c, k, ?_⟩
  simp only [Decimal.ofNumeral, hread, Option.bind_eq_bind, Option.bind_some]
  refine if_pos ⟨by omega, ?_⟩
  split
  · omega
  · unfold Decimal.adjustedOf
    omega

/-- **The text of a finite binary number is the numeral of a finite decimal.** -/
theorem decimal_of_text {x : Binary64} (h : x.Bounded) (hx : x.isFinite = true) :
    ∃ d, Decimal.ofText? x.text = some d ∧ d.isFinite = true := by
  cases x with
  | finite s m e =>
    have hbody : Decimal.Opens (if m = 0 then "0.0".toList else positiveText m e) ∧
        Moderate (if m = 0 then "0.0".toList else positiveText m e) := by
      split
      · exact ⟨Decimal.opens_cons (by decide) (Decimal.point_marks (zeros_all 1)), 0, -1, rfl, by decide, by decide,
          by decide⟩
      · exact ⟨opens_positiveText m e, moderate_positiveText h⟩
    have htext :
        (finite s m e).text = (if s then ['-'] else []) ++ (if m = 0 then "0.0".toList else positiveText m e) := by
      cases s <;> rfl
    obtain ⟨c, k, hnumeral⟩ := ofNumeral_of_moderate s hbody.2
    exact ⟨_, by rw [htext, Decimal.ofText?_of_opens s hbody.1, hnumeral, Option.some_or], rfl⟩
  | nan p => cases hx
  | infinite s => cases hx

end Binary64

end Intake.Number
