/-
Decimals read back: the canonical text of a finite decimal denotes that decimal, with its sign, its coefficient
and its exponent (`Decimal.ofText?_text`), if these are within the bounds; and they are in whatever is read
(`Decimal.inRange_of_ofText?`).

The text is positional or scientific. In either form the digits written are those of the coefficient, perhaps
behind zeros, and the places after the point and the exponent add up to the decimal's exponent
(`Decimal.scientific?_finiteText`).
-/
import Intake.Proofs.Numerals

namespace Intake.Number.Decimal

open Intake.Text

/-- the exponents that a finite decimal can have: its last digit and its leading digit lie within the bounds -/
def InRange : Decimal → Prop
  | .finite _ c e => minExponent ≤ e ∧ (if c = 0 then e else adjustedOf c e) ≤ maxAdjusted
  | _ => False

instance (d : Decimal) : Decidable d.InRange := by
  cases d <;> unfold InRange <;> infer_instance

theorem exponent?_exponentText (e : Int) : exponent? (exponentText e) = some e := by
  have h := exponent?_signed (Or.inr rfl) (decide (e < 0)) (digits_nonempty e.natAbs) (digits_all e.natAbs)
  rw [ofDigits_digits, signed_natAbs] at h
  simpa [exponentText] using h

theorem exponent?_nil : exponent? [] = some 0 := rfl

theorem scientific?_mantissa (c : Nat) (a : Int) :
    scientific? ((match digits c with
      | d :: e :: rest => d :: '.' :: e :: rest
      | ds => ds) ++ exponentText a) = some (c, a - (digitCount c - 1)) := by
  have he := exponent?_exponentText a
  have hstop : Stops (fun c => c.isDigit || c == '.') (exponentText a) := stops_cons (by decide)
  have hdigit : Stops Char.isDigit (exponentText a) := stops_cons (by decide)
  have hall := digits_all c
  have hnil := digits_nonempty c
  have hval := ofDigits_digits c
  unfold digitCount
  rcases hds : digits c with _ | ⟨d, _ | ⟨d', ds⟩⟩
  · exact absurd hds hnil
  · rw [hds] at hall hval
    rw [scientific?_whole hall (by simp) hstop he, hval]
    simp
  · rw [hds] at hall hval
    have hp : ∀ x ∈ d' :: ds, x.isDigit = true := fun x hx => hall x (List.mem_cons_of_mem d hx)
    have hw : ∀ x ∈ [d], x.isDigit = true := by simpa using hall d List.mem_cons_self
    have := scientific?_point hw (by simp) hp hdigit he
    simp only [List.cons_append, List.nil_append] at this
    rw [hval] at this
    simp only [List.cons_append]
    rw [this]
    simp only [List.length_cons]
    congr 2
    push_cast
    omega

/-- the text of the magnitude gives the coefficient and the exponent -/
theorem scientific?_finiteText (c : Nat) (e : Int) : scientific? (finiteText c e) = some (c, e) := by
  have hall := digits_all c
  have hnil := digits_nonempty c
  unfold finiteText
  by_cases hpos : e ≤ 0 ∧ -6 ≤ adjustedOf c e
  · simp only [hpos, and_self, if_true]
    by_cases he : e = 0
    · have := scientific?_whole hall hnil stops_nil exponent?_nil
      rw [List.append_nil, ofDigits_digits] at this
      simp [he, this]
    · simp only [he, if_false]
      by_cases hlen : (digits c).length ≤ e.natAbs
      · -- all digits stand after the point
        have hp := append_all (zeros_all (e.natAbs - (digits c).length)) hall
        have hw : ∀ x ∈ ['0'], x.isDigit = true := zeros_all 1
        have := scientific?_point hw (by simp) hp stops_nil exponent?_nil
        rw [List.append_nil, show ['0'] = List.replicate 1 '0' from rfl, ofDigits_zeros hp, ofDigits_zeros hall,
          ofDigits_digits] at this
        simp only [hlen, if_true]
        rw [show '0' :: '.' :: (List.replicate (e.natAbs - (digits c).length) '0' ++ digits c) =
          List.replicate 1 '0' ++ '.' :: (List.replicate (e.natAbs - (digits c).length) '0' ++ digits c) from rfl, this]
        simp only [List.length_append, List.length_replicate]
        congr 2
        omega
      · -- the point stands among the digits
        have hw : ∀ x ∈ (digits c).take ((digits c).length - e.natAbs), x.isDigit = true :=
          fun x hx => hall x (List.mem_of_mem_take hx)
        have hp : ∀ x ∈ (digits c).drop ((digits c).length - e.natAbs), x.isDigit = true :=
          fun x hx => hall x (List.mem_of_mem_drop hx)
        have hn : (digits c).take ((digits c).length - e.natAbs) ≠ [] := by
          intro h
          have := congrArg List.length h
          simp only [List.length_take, List.length_nil] at this
          omega
        have := scientific?_point hw hn hp stops_nil exponent?_nil
        rw [List.append_nil, List.take_append_drop, ofDigits_digits] at this
        simp only [hlen, if_false, this, List.length_drop]
        congr 2
        omega
  · simp only [hpos, if_false]
    refine (scientific?_mantissa c (adjustedOf c e)).trans ?_
    congr 2
    have := digitCount_pos c
    simp only [adjustedOf]
    omega

/-! ## The text as a whole -/

def isMark (c : Char) : Bool := c.isDigit || c == '-' || c == '+' || c == '.' || c == 'E' || c == 'e'

theorem isMark_of_isDigit {c : Char} (h : c.isDigit = true) : isMark c = true := by simp [isMark, h]

theorem visible_of_isMark {c : Char} (h : isMark c = true) : isVisible c = true := by
  simp only [isMark, Bool.or_eq_true, beq_iff_eq] at h
  rcases h with ((((h | rfl) | rfl) | rfl) | rfl) | rfl
  · exact isVisible_of_isDigit h
  all_goals decide

theorem exponentText_marks (e : Int) : ∀ x ∈ exponentText e, isMark x = true := by
  intro x hx
  simp only [exponentText, List.mem_cons] at hx
  rcases hx with rfl | rfl | hx
  · decide
  · split <;> decide
  · exact isMark_of_isDigit (digits_all _ x hx)

/-- made of the characters of a decimal's text, and opening with a digit -/
def Opens (cs : List Char) : Prop := (∀ x ∈ cs, isMark x = true) ∧ ∃ d rest, cs = d :: rest ∧ d.isDigit = true

theorem opens_cons {d : Char} {cs : List Char} (hd : d.isDigit = true) (h : ∀ x ∈ cs, isMark x = true) :
    Opens (d :: cs) := by
  refine ⟨fun x hx => ?_, d, cs, rfl, hd⟩
  rcases List.mem_cons.1 hx with rfl | hx
  · exact isMark_of_isDigit hd
  · exact h x hx

theorem opens_append {cs ds : List Char} (h : Opens cs) (hd : ∀ x ∈ ds, isMark x = true) : Opens (cs ++ ds) := by
  obtain ⟨hall, d, rest, rfl, hdigit⟩ := h
  exact ⟨append_all hall hd, d, rest ++ ds, rfl, hdigit⟩

theorem opens_digits {cs : List Char} (h : ∀ c ∈ cs, c.isDigit = true) (hn : cs ≠ []) : Opens cs := by
  obtain ⟨d, ds, rfl⟩ := List.exists_cons_of_ne_nil hn
  exact opens_cons (h d List.mem_cons_self) fun x hx => isMark_of_isDigit (h x (List.mem_cons_of_mem d hx))

theorem point_marks {cs : List Char} (h : ∀ c ∈ cs, c.isDigit = true) : ∀ x ∈ '.' :: cs, isMark x = true := by
  intro x hx
  rcases List.mem_cons.1 hx with rfl | hx
  · decide
  · exact isMark_of_isDigit (h x hx)

theorem opens_mantissa (c : Nat) : Opens (match digits c with
    | d :: e :: rest => d :: '.' :: e :: rest
    | ds => ds) := by
  have hall := digits_all c
  rcases hds : digits c with _ | ⟨d, _ | ⟨e, ds⟩⟩ <;> rw [hds] at hall
  · exact absurd hds (digits_nonempty c)
  · exact opens_digits hall (by simp)
  · exact opens_cons (hall d List.mem_cons_self) (point_marks fun x hx => hall x (List.mem_cons_of_mem d hx))

/-- the text of the magnitude consists of digits, a point and an exponent, and opens with a digit -/
theorem opens_finiteText (c : Nat) (e : Int) : Opens (finiteText c e) := by
  have hall := digits_all c
  unfold finiteText
  dsimp only
  by_cases hpos : e ≤ 0 ∧ -6 ≤ adjustedOf c e
  · rw [if_pos hpos]
    split
    · exact opens_digits hall (digits_nonempty c)
    · split
      · exact opens_cons (by decide) (point_marks (append_all (zeros_all _) hall))
      · have hn : (digits c).take ((digits c).length - e.natAbs) ≠ [] := by
          intro h
          have := congrArg List.length h
          simp only [List.length_take, List.length_nil] at this
          omega
        exact opens_append (opens_digits (fun x hx => hall x (List.mem_of_mem_take hx)) hn)
          (point_marks fun x hx => hall x (List.mem_of_mem_drop hx))
  · rw [if_neg hpos]
    exact opens_append (opens_mantissa c) (exponentText_marks _)

/-- a sign before such a text is read as the sign of its number -/
theorem ofText?_of_opens (s : Bool) {cs : List Char} (h : Opens cs) :
    ofText? ((if s then ['-'] else []) ++ cs) = (ofNumeral s cs).or (ofName s cs) := by
  obtain ⟨hmark, x, rest, hx, hd⟩ := h
  have hall : ∀ y ∈ (if s then ['-'] else []) ++ cs, isMark y = true := by
    refine append_all ?_ hmark
    cases s <;> simp [isMark]
  have hvis : ∀ y ∈ (if s then ['-'] else []) ++ cs, isVisible y = true := fun y hy => visible_of_isMark (hall y hy)
  have hlow : ((if s then ['-'] else []) ++ cs).filter (· != '_') = (if s then ['-'] else []) ++ cs := by
    refine List.filter_eq_self.2 fun y hy => ?_
    have := hall y hy
    simp only [bne_iff_ne, ne_eq]
    rintro rfl
    exact absurd this (by decide)
  have hsign : takeSign ((if s then ['-'] else []) ++ cs) = (s, cs) := by
    rw [hx]
    exact takeSign_signed s hd
  simp only [ofText?, strip_of_visible hvis, mapM_asciiNumeral?_of_visible hvis, Option.bind_eq_bind, Option.bind_some,
    hlow, hsign]

/-- **The text of a decimal reads back.** -/
theorem ofText?_text {d : Decimal} (h : d.InRange) : ofText? d.text = some d := by
  obtain ⟨s, c, e⟩ | s | ⟨s, sig, note, serial⟩ := d
  · have hnum : ofNumeral s (finiteText c e) = some (finite s c e) := by
      simp only [ofNumeral, scientific?_finiteText, Option.bind_eq_bind, Option.bind_some]
      exact if_pos h
    rw [text, ofText?_of_opens s (opens_finiteText c e), hnum, Option.some_or]
  · exact absurd h id
  · exact absurd h id

theorem text_visible {d : Decimal} (h : d.InRange) : ∀ c ∈ d.text, isVisible c = true := by
  obtain ⟨s, c, e⟩ | s | ⟨s, sig, note, serial⟩ := d
  · refine append_all ?_ fun x hx => visible_of_isMark ((opens_finiteText c e).1 x hx)
    cases s <;> simp [isVisible]
  · exact absurd h id
  · exact absurd h id

/-! ## What is read -/

theorem not_finite_of_ofName {s : Bool} {cs : List Char} {d : Decimal} (h : ofName s cs = some d) :
    d.isFinite = false := by
  unfold ofName at h
  dsimp only at h
  split at h
  · cases h
    rfl
  · obtain ⟨-, h⟩ := Option.ite_none_right_eq_some.1 h
    cases h
    rfl

theorem inRange_of_ofText? {cs : List Char} {d : Decimal} (h : ofText? cs = some d) (hf : d.isFinite = true) :
    d.InRange := by
  obtain ⟨plain, -, h⟩ := Option.bind_eq_some_iff.1 h
  dsimp only at h
  rcases Option.or_eq_some_iff.1 h with h | ⟨-, h⟩
  · obtain ⟨⟨c, e⟩, -, h⟩ := Option.bind_eq_some_iff.1 h
    obtain ⟨hrange, h⟩ := Option.ite_none_right_eq_some.1 h
    cases h
    exact hrange
  · rw [not_finite_of_ofName h] at hf
    cases hf

theorem inRange_ofInt {n : Int} (h : (intText? n).isSome) : (ofInt n).InRange := by
  obtain ⟨cs, hcs⟩ := Option.isSome_iff_exists.1 h
  obtain ⟨hshort, -⟩ := Option.ite_none_right_eq_some.1 hcs
  refine ⟨by decide, ?_⟩
  simp only [maxDigits] at hshort
  simp only [adjustedOf, maxAdjusted]
  split <;> omega

end Intake.Number.Decimal
