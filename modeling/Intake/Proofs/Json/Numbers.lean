/-
Numbers in JSON text.

What a fraction is rounded to is in canonical form (`Binary64.canonical_ofRatio`), so every binary number that is read is.
A number that is written stands with a point or an exponent if it is binary, and without either if it is an integer,
and it opens with a zero only if it has no other digit before the point. So reading takes it as it is, up to the end:
what follows must not go on with a numeral (`Json.Apart`).

Results:
- `Binary64.canonical_ofScientific`: a numeral is rounded to a datum in canonical form;
- `Json.magnitude_digits`, `Json.magnitude_text`: what is written for a number is read as it.
-/
import Intake.Json.Reader
import Intake.Proofs.BinaryRounding
import Intake.Proofs.Yaml.Spelling

namespace Intake

open Intake.Text Intake.Number

/-! ## Rounding -/

namespace Number

theorem div_le_roundDiv (n d : Nat) : n / d ≤ roundDiv n d := by
  unfold roundDiv
  dsimp only
  split
  · exact Nat.le_refl _
  · split
    · exact Nat.le_add_right _ _
    · exact Nat.le_succ _

namespace Binary64

/-- a fraction scaled to its own size has the bits of a mantissa -/
theorem roundDiv_scale {num den : Nat} (hn : num ≠ 0) (hd : den ≠ 0) {e : Int} (he : floorLog2 num den - 52 ≤ e) :
    roundDiv (scale num den e).1 (scale num den e).2 ≤ 2 ^ 53 ∧
      (e = floorLog2 num den - 52 → 2 ^ 52 ≤ roundDiv (scale num den e).1 (scale num den e).2) := by
  obtain ⟨hlow, hhigh⟩ := floorLog2_spec hn hd
  have hscale := scale_eq num den e
  have hpos := scale_pos num hd e
  generalize floorLog2 num den = top at he hlow hhigh
  generalize scale num den e = r at hscale hpos
  have hr : (0 : ℚ) < r.2 := Nat.cast_pos.2 hpos
  have hunit : (0 : ℚ) < 2 ^ e := by positivity
  constructor
  · have hbelow : (r.1 : ℚ) / r.2 < 2 ^ (53 : Nat) := by
      rw [hscale, div_lt_iff₀ hunit]
      calc (num / den : ℚ) < 2 ^ (top + 1) := hhigh
        _ ≤ 2 ^ ((53 : Nat) + e) := zpow_le_zpow_right₀ one_le_two (by omega)
        _ = 2 ^ (53 : Nat) * 2 ^ e := by rw [zpow_add₀ two_ne_zero, zpow_natCast]
    have hdiv : r.1 / r.2 < 2 ^ 53 := by
      rw [div_lt_iff₀ hr] at hbelow
      refine Nat.div_lt_of_lt_mul ?_
      rw [Nat.mul_comm]
      exact_mod_cast hbelow
    have := roundDiv_le r.1 r.2
    omega
  · rintro rfl
    have habove : (2 : ℚ) ^ (52 : Nat) ≤ r.1 / r.2 := by
      rw [hscale, le_div_iff₀ hunit]
      calc (2 : ℚ) ^ (52 : Nat) * 2 ^ (top - 52)
        _ = 2 ^ ((52 : Nat) + (top - 52)) := by rw [zpow_add₀ two_ne_zero, zpow_natCast]
        _ = 2 ^ top := by congr 1; omega
        _ ≤ num / den := hlow
    have hdiv : 2 ^ 52 ≤ r.1 / r.2 := by
      rw [le_div_iff₀ hr] at habove
      refine (Nat.le_div_iff_mul_le hpos).2 ?_
      exact_mod_cast habove
    exact hdiv.trans (div_le_roundDiv r.1 r.2)

theorem canonical_zero (s : Bool) : (zero s).Canonical := ⟨by decide, by decide, by decide, .inr rfl⟩

/-- **What a fraction is rounded to is canonical.** -/
theorem canonical_ofRatio (s : Bool) (num : Nat) {den : Nat} (hd : den ≠ 0) : (ofRatio s num den).Canonical := by
  by_cases hn : num = 0
  · rw [ofRatio, if_pos hn]
    exact canonical_zero s
  · rw [ofRatio_eq s hn rfl rfl]
    have hsize := roundDiv_scale hn hd (e := max (floorLog2 num den - 52) minExponent) (Int.le_max_left _ _)
    have hleast : minExponent ≤ max (floorLog2 num den - 52) minExponent := Int.le_max_right _ _
    have hexact : max (floorLog2 num den - 52) minExponent = floorLog2 num den - 52 ∨
        max (floorLog2 num den - 52) minExponent = minExponent := by omega
    generalize max (floorLog2 num den - 52) minExponent = e at hsize hleast hexact
    generalize roundDiv (scale num den e).1 (scale num den e).2 = m at hsize
    obtain ⟨hmost, hfull⟩ := hsize
    split
    · split
      · trivial
      · next hrange =>
        exact ⟨by decide, by omega, by omega, .inl (Nat.le_refl _)⟩
    · next hm =>
      split
      · trivial
      · next hrange =>
        refine ⟨?_, hleast, by omega, hexact.imp_left hfull⟩
        show m < 2 ^ 53
        omega

/-- **What a numeral is rounded to is canonical.** -/
theorem canonical_ofScientific (s : Bool) (c : Nat) (e : Int) : (ofScientific s c e).Canonical := by
  unfold ofScientific
  dsimp only
  split
  · exact canonical_zero s
  · split
    · trivial
    · split
      · exact canonical_zero s
      · split
        · exact canonical_ofRatio s c (Nat.pos_iff_ne_zero.1 (Nat.pow_pos (by decide)))
        · exact canonical_ofRatio s _ Nat.one_ne_zero

/-- what is read of a text is canonical: a numeral is rounded, and a name stands for a datum that has one form only -/
theorem canonical_of_ofText? {s : List Char} {x : Binary64} (h : ofText? s = some x) : x.Canonical := by
  have of_name {negative : Bool} {cs : List Char} (h : ofName? negative cs = some x) : x.Canonical := by
    unfold ofName? at h
    dsimp only at h
    split_ifs at h <;> cases h <;> trivial
  obtain ⟨plain, -, h⟩ := Option.bind_eq_some_iff.1 h
  dsimp only at h
  split at h
  all_goals
    obtain ⟨numeral, -, h⟩ := Option.bind_eq_some_iff.1 h
    split at h
    · cases h
      exact canonical_ofScientific _ _ _
    · exact of_name h

/-- the sign of a numeral is no matter to its magnitude -/
theorem ofScientific_sign {c m : Nat} {k e : Int} (h : ofScientific false c k = .finite false m e) (s : Bool) :
    ofScientific s c k = .finite s m e := by
  cases s with
  | false => exact h
  | true =>
    rw [← neg_ofScientific, h]
    rfl

theorem ofRatio_ne_nan (s : Bool) (num den p : Nat) : ofRatio s num den ≠ .nan p := by
  unfold ofRatio
  dsimp only
  split
  · exact Binary64.noConfusion
  · split <;> split <;> exact Binary64.noConfusion

theorem ofScientific_ne_nan (s : Bool) (c : Nat) (e : Int) (p : Nat) : ofScientific s c e ≠ .nan p := by
  unfold ofScientific
  dsimp only
  split
  · nofun
  · split
    · nofun
    · split
      · nofun
      · split <;> exact ofRatio_ne_nan _ _ _ p

end Binary64

end Number

namespace Json

/-! ## Where a numeral ends -/

def goesOn (c : Char) : Bool := c.isDigit || c == '.' || c == 'e' || c == 'E'

/-- what follows a numeral does not go on with it -/
abbrev Apart (rest : List Char) : Prop := Stops goesOn rest

variable {rest : List Char}

theorem Apart.stops (h : Apart rest) : Stops Char.isDigit rest := by
  intro c hc
  have := h c hc
  simp only [goesOn, Bool.or_eq_false_iff] at this
  exact this.1.1.1

theorem places_of_apart (h : Apart rest) : places rest = ([], rest) := by
  unfold places
  split
  · exact absurd (h _ rfl) (by decide)
  · rfl

theorem power_of_apart (h : Apart rest) : power rest = (none, rest) := by
  unfold power
  split
  · next e tail =>
    refine if_neg ?_
    rintro (rfl | rfl) <;> exact absurd (h _ rfl) (by decide)
  · rfl

/-! ## The parts of a numeral -/

/-- digits before a point are taken up to it, unless they open with a zero and go on -/
theorem whole_append {ds : List Char} (h : WholeDigits ds) (hs : Stops Char.isDigit rest) :
    whole (ds ++ rest) = (ds, rest) := by
  match ds, h.nonempty with
  | c :: cs, _ =>
    by_cases hc : c = '0'
    · subst hc
      rw [h.lead cs rfl]
      rfl
    · have htake := takeWhile_append_of_stops h.digits hs
      have hdrop := dropWhile_append_of_stops h.digits hs
      rw [List.cons_append] at htake hdrop ⊢
      unfold whole
      split
      · next h => exact absurd (List.cons.inj h).1 hc
      · rw [htake, hdrop]

theorem head_isDigit {ds : List Char} (hd : ∀ c ∈ ds, c.isDigit = true) (hn : ds ≠ []) (cs : List Char) :
    ((ds ++ cs).head?.map Char.isDigit).getD false = true := by
  match ds, hn with
  | c :: ds, _ => exact hd c List.mem_cons_self

theorem places_append {ds : List Char} (hd : ∀ c ∈ ds, c.isDigit = true) (hn : ds ≠ []) (hs : Stops Char.isDigit rest) :
    places ('.' :: (ds ++ rest)) = (ds, rest) := by
  simp only [places, head_isDigit hd hn, if_true, takeWhile_append_of_stops hd hs, dropWhile_append_of_stops hd hs]

theorem power_append (k : Int) (h : Apart rest) : power ('e' :: (Binary64.exponentText k ++ rest)) = (some k, rest) := by
  obtain ⟨ds, htext, hn, hd, hv⟩ := Binary64.exponentText_eq k
  have hsign : takeSign (Binary64.exponentText k ++ rest) = (decide (k < 0), ds ++ rest) := by
    rw [htext]
    by_cases hk : k < 0
    · simp [hk, takeSign]
    · simp [hk, takeSign]
  simp only [power, true_or, if_true, hsign, head_isDigit hd hn, takeWhile_append_of_stops hd h.stops,
    dropWhile_append_of_stops hd h.stops, hv, signed_natAbs]

/-! ## Numerals -/

/-- **An integer is read back**, after its sign. -/
theorem magnitude_digits (negative : Bool) {n : Nat} (hn : digitCount n ≤ maxDigits) (h : Apart rest) :
    magnitude negative (digits n ++ rest) = .ok (.int (signed negative n), rest) := by
  have hwhole := whole_append (wholeDigits_digits n) h.stops
  have hnumber : ofDigits? (digits n) = some n := by
    rw [ofDigits?, if_pos (show (digits n).length ≤ maxDigits from hn), ofDigits_digits]
  simp only [magnitude, hwhole, places_of_apart h, power_of_apart h, List.isEmpty_eq_false_iff.2 (digits_nonempty n),
    Bool.false_eq_true, if_false, hnumber]

/-- a numeral with a point or an exponent is read as the number that it denotes -/
theorem magnitude_written (negative : Bool) {c : Nat} {k : Int} {cs : List Char} (hw : Binary64.Written c k cs)
    (hlead : ∀ ds, cs = '0' :: ds → Stops Char.isDigit ds) (h : Apart rest) :
    magnitude negative (cs ++ rest) = .ok (.float (.ofScientific negative c k), rest) := by
  cases hw with
  | @pointed whole places tail p z hd hn hp hl ht hv hk hz =>
    have hfirst :
        Json.whole (whole ++ '.' :: (places ++ (tail ++ rest))) = (whole, '.' :: (places ++ (tail ++ rest))) := by
      refine whole_append ⟨hd, hn, fun ds hds => ?_⟩ (stops_cons (by decide))
      subst hds
      cases ds with
      | nil => rfl
      | cons d ds => exact absurd (hd d (by simp)) (by rw [hlead _ rfl d rfl]; decide)
    have hsecond : Json.places ('.' :: (places ++ (tail ++ rest))) = (places, tail ++ rest) := by
      refine places_append hp hl ?_
      cases ht with
      | none => exact h.stops
      | exponent => exact stops_cons (by decide)
    have hthird : (power (tail ++ rest)).2 = rest ∧ ((power (tail ++ rest)).1).getD 0 = p := by
      cases ht with
      | none => rw [List.nil_append, power_of_apart h]; exact ⟨rfl, rfl⟩
      | exponent => rw [List.cons_append, power_append _ h]; exact ⟨rfl, rfl⟩
    have hvalue := Binary64.ofScientific_zeros negative c k z
    rw [← hv, ← hk] at hvalue
    simp only [magnitude, List.append_assoc, List.cons_append, hfirst, hsecond, List.isEmpty_eq_false_iff.2 hn,
      Bool.false_eq_true, if_false]
    generalize power (tail ++ rest) = e at hthird
    obtain ⟨e, after⟩ := e
    obtain ⟨rfl, rfl⟩ := hthird
    match places, hl with
    | d :: ds, _ => exact congrArg (fun x => Except.ok (Value.float x, after)) hvalue
  | @bare d hd hv =>
    have hfirst :
      Json.whole (d :: 'e' :: (Binary64.exponentText k ++ rest)) = ([d], 'e' :: (Binary64.exponentText k ++ rest)) :=
      whole_append ⟨List.forall_mem_singleton.2 hd, List.cons_ne_nil _ _, fun cs hcs => (List.cons.inj hcs).2.symm⟩
        (stops_cons (by decide))
    have hsecond :
      Json.places ('e' :: (Binary64.exponentText k ++ rest)) = ([], 'e' :: (Binary64.exponentText k ++ rest)) := rfl
    simp only [magnitude, List.cons_append, hfirst, hsecond, power_append k h]
    simp [hv]

/-- the text of a positive datum opens with a zero only if nothing else stands before the point -/
theorem lead_positiveText {m : Nat} {e : Int} (hc : (Binary64.shortest m e).1 ≠ 0) {ds : List Char}
    (h : Binary64.positiveText m e = '0' :: ds) : Stops Char.isDigit ds := by
  unfold Binary64.positiveText at h
  dsimp only at h
  generalize Binary64.shortest m e = d at h hc
  obtain ⟨c, k⟩ := d
  dsimp only at h hc
  have hzero (cs : List Char) : digits c ≠ '0' :: cs := by
    intro hd
    have hvalue := ofDigits_digits c
    rw [hd, digits_eq_zero_cons hd] at hvalue
    exact hc hvalue.symm
  obtain ⟨d, cs, hd⟩ := List.exists_cons_of_ne_nil (digits_nonempty c)
  have hlead : d ≠ '0' := fun heq => hzero cs (heq ▸ hd)
  rw [hd] at h
  split at h
  · split at h
    · obtain ⟨-, rfl⟩ := List.cons.inj h
      exact stops_cons (by decide)
    · split at h
      · exact absurd (List.cons.inj h).1 hlead
      · next hpoint _ =>
        obtain ⟨j, hj⟩ : ∃ j, (((d :: cs).length : Int) + k).natAbs = j + 1 := ⟨_, (Nat.succ_pred (by omega)).symm⟩
        rw [hj] at h
        exact absurd (List.cons.inj h).1 hlead
  · split at h
    · next hnil => cases hnil
    · next hone =>
      obtain ⟨rfl, -⟩ := List.cons.inj hone
      exact absurd (List.cons.inj h).1 hlead
    · next hmore =>
      obtain ⟨rfl, -⟩ := List.cons.inj hmore
      exact absurd (List.cons.inj h).1 hlead

/-- **A binary number is read back**, after its sign. -/
theorem magnitude_text (negative : Bool) {s : Bool} {m : Nat} {e : Int} (hc : (Binary64.finite s m e).Canonical)
    (h : Apart rest) :
    magnitude negative ((Binary64.finite false m e).text ++ rest) = .ok (.float (.finite negative m e), rest) := by
  have hc' : (Binary64.finite false m e).Canonical := hc
  obtain ⟨c, k, hw, hread⟩ := Binary64.exists_written hc'
  have hlead : ∀ ds, (Binary64.finite false m e).text = '0' :: ds → Stops Char.isDigit ds := by
    intro ds hds
    by_cases hm : m = 0
    · subst hm
      obtain ⟨-, rfl⟩ := List.cons.inj hds
      exact stops_cons (by decide)
    · have htext : (Binary64.finite false m e).text = Binary64.positiveText m e := if_neg hm
      refine lead_positiveText (fun hzero => hm ?_) (htext ▸ hds)
      have hshortest := Binary64.shortest_reads hc' hm
      rw [hzero] at hshortest
      injection hshortest with _ hm'
      exact hm'.symm
  rw [magnitude_written negative hw hlead h, Binary64.ofScientific_sign hread]

/-- an integer of more digits than a numeral may have is not read -/
theorem magnitude_tooLong (negative : Bool) {ds : List Char} (hd : ∀ c ∈ ds, c.isDigit = true)
    (hz : ∀ cs, ds = '0' :: cs → cs = [])
    (hl : maxDigits < ds.length) (h : Apart rest) : magnitude negative (ds ++ rest) = .error .tooLong := by
  have hn : ds ≠ [] := List.length_pos_iff.1 (Nat.zero_lt_of_lt hl)
  have hnumber : ofDigits? ds = none := if_neg (Nat.not_le.2 hl)
  simp only [magnitude, whole_append ⟨hd, hn, hz⟩ h.stops, places_of_apart h, power_of_apart h,
    List.isEmpty_eq_false_iff.2 hn,
    Bool.false_eq_true, if_false, hnumber]

/-! ## Values that are numbers -/

theorem ne_of_isDigit {c d : Char} (hc : c.isDigit = true) (hd : d.isDigit = false) : c ≠ d := by
  rintro rfl
  rw [hc] at hd
  cases hd

theorem named?_of_isDigit {c : Char} (hc : c.isDigit = true) (cs : List Char) : named? (c :: cs) = none := by
  have hne {d : Char} (hd : d.isDigit = false) : d ≠ c := (ne_of_isDigit hc hd).symm
  simp [named?, hne (show 'n'.isDigit = false by decide), hne (show 't'.isDigit = false by decide),
    hne (show 'f'.isDigit = false by decide), hne (show 'N'.isDigit = false by decide),
    hne (show 'I'.isDigit = false by decide), hne (show '-'.isDigit = false by decide)]

theorem named?_minus {c : Char} (hc : c.isDigit = true) (cs : List Char) : named? ('-' :: c :: cs) = none := by
  simp [named?, (ne_of_isDigit hc (show 'I'.isDigit = false by decide)).symm]

theorem value_of_isDigit (fuel : Nat) {c : Char} (hc : c.isDigit = true) (cs : List Char) :
    value (fuel + 1) (c :: cs) = magnitude false (c :: cs) := by
  unfold value
  split
  · next heq => exact absurd (List.cons.inj heq).1 (ne_of_isDigit hc (by decide))
  · next heq => exact absurd (List.cons.inj heq).1 (ne_of_isDigit hc (by decide))
  · next heq => exact absurd (List.cons.inj heq).1 (ne_of_isDigit hc (by decide))
  · unfold scalar
    rw [named?_of_isDigit hc]
    split
    · next heq => cases heq
    · split
      · next heq => exact absurd (List.cons.inj heq).1 (ne_of_isDigit hc (by decide))
      · rfl

/-- a value that opens with a minus before a digit is a negative number -/
theorem value_minus (fuel : Nat) {c : Char} (hc : c.isDigit = true) (cs : List Char) :
    value (fuel + 1) ('-' :: c :: cs) = magnitude true (c :: cs) := by
  unfold value scalar
  rw [named?_minus hc]
  rfl

end Json

end Intake
