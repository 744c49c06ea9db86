/-
Numerals read back.

The digits of a number denote it (`ofDigits_digits`), also behind zeros (`ofDigits_zeros`). A text of visible
ASCII characters has no blanks to lose and no other scripts to read (`strip_of_visible`,
`mapM_asciiNumeral?_of_visible`), so that a numeral is taken apart where it was put together
(`takeWhile_append_of_stops`).
-/
import Mathlib.Data.List.Basic
import Intake.Number.Decimal

namespace Intake

open Intake.Text

/-! ## Runs -/

section Runs

variable {α : Type} {p : α → Bool} {xs ys : List α}

/-- the first element is not of a kind, if there is one -/
def Stops (p : α → Bool) (ys : List α) : Prop := ∀ y, ys.head? = some y → p y = false

theorem stops_nil : Stops p [] := by rintro y ⟨⟩

theorem stops_cons {y : α} (h : p y = false) : Stops p (y :: ys) := by rintro z ⟨⟩; exact h

theorem takeWhile_of_stops (h : Stops p ys) : ys.takeWhile p = [] := by
  cases ys with
  | nil => rfl
  | cons y ys => simp [h y rfl]

theorem dropWhile_of_stops (h : Stops p ys) : ys.dropWhile p = ys := by
  cases ys with
  | nil => rfl
  | cons y ys => simp [h y rfl]

theorem takeWhile_append_of_stops (hx : ∀ x ∈ xs, p x = true) (hy : Stops p ys) : (xs ++ ys).takeWhile p = xs := by
  rw [List.takeWhile_append_of_pos hx, takeWhile_of_stops hy, List.append_nil]

theorem dropWhile_append_of_stops (hx : ∀ x ∈ xs, p x = true) (hy : Stops p ys) : (xs ++ ys).dropWhile p = ys := by
  rw [List.dropWhile_append_of_pos hx, dropWhile_of_stops hy]

end Runs

/-! ## Visible characters -/

namespace Text

def isVisible (c : Char) : Bool := decide (0x21 ≤ c.toNat ∧ c.toNat ≤ 0x7e)

theorem isVisible_of_isDigit {c : Char} (h : c.isDigit = true) : isVisible c = true := by
  simp only [Char.isDigit, Bool.and_eq_true, decide_eq_true_eq, ge_iff_le, UInt32.le_iff_toNat_le] at h
  obtain ⟨h1, h2⟩ := h
  have h1 : 48 ≤ c.toNat := h1
  have h2 : c.toNat ≤ 57 := h2
  simp only [isVisible, decide_eq_true_eq]
  omega

theorem not_blank_of_visible {c : Char} (h : isVisible c = true) : isBlank c = false := by
  have all : ∀ n : Fin 0x7f, 0x21 ≤ n.1 → CharSet.walk n.1 false blankTable.bounds = false := by decide
  simp only [isVisible, decide_eq_true_eq] at h
  exact all ⟨c.toNat, by omega⟩ h.1

theorem strip_of_visible {cs : List Char} (h : ∀ c ∈ cs, isVisible c = true) : strip cs = cs :=
  strip_eq_self (fun c hc => not_blank_of_visible (h c (List.mem_of_head? hc)))
    (fun c hc => not_blank_of_visible (h c (List.mem_of_getLast? hc)))

end Text

namespace Number

theorem mapM_asciiNumeral?_of_visible {cs : List Char} (h : ∀ c ∈ cs, isVisible c = true) :
    cs.mapM asciiNumeral? = some cs := by
  induction cs with
  | nil => rfl
  | cons c cs ih =>
    have hc := h c List.mem_cons_self
    simp only [isVisible, decide_eq_true_eq] at hc
    have h80 : c.toNat < 0x80 := by omega
    rw [List.mapM_cons, ih fun d hd => h d (List.mem_cons_of_mem _ hd)]
    simp [asciiNumeral?, h80]

/-! ## Digits -/

theorem digits_all (n : Nat) : ∀ c ∈ digits n, c.isDigit = true :=
  fun _ hc => Nat.isDigit_of_mem_toDigits (by decide) (by decide) hc

theorem digits_visible (n : Nat) : ∀ c ∈ digits n, isVisible c = true :=
  fun c hc => isVisible_of_isDigit (digits_all n c hc)

theorem digits_nonempty (n : Nat) : digits n ≠ [] := Nat.toDigits_ne_nil

theorem digitCount_pos (n : Nat) : 0 < digitCount n := List.length_pos_iff.2 (digits_nonempty n)

theorem ofDigits_eq {cs : List Char} (h : ∀ c ∈ cs, c.isDigit = true) : ofDigits cs = Nat.ofDigitChars 10 cs 0 := by
  refine List.foldl_ext _ _ 0 fun n c hc => ?_
  rw [digitValue?, if_pos (h c hc)]
  rfl

theorem ofDigits_digits (n : Nat) : ofDigits (digits n) = n := by
  rw [ofDigits_eq (digits_all n)]
  exact Nat.ofDigitChars_ten_toDigits

theorem zeros_all (k : Nat) : ∀ c ∈ List.replicate k '0', c.isDigit = true := by
  intro c hc
  rw [List.eq_of_mem_replicate hc]
  decide

theorem append_all {p : Char → Bool} {cs ds : List Char} (hc : ∀ c ∈ cs, p c = true) (hd : ∀ c ∈ ds, p c = true) :
    ∀ c ∈ cs ++ ds, p c = true := fun c h => (List.mem_append.1 h).elim (hc c) (hd c)

theorem ofDigits_zeros {cs : List Char} (h : ∀ c ∈ cs, c.isDigit = true) (k : Nat) :
    ofDigits (List.replicate k '0' ++ cs) = ofDigits cs := by
  rw [ofDigits_eq h, ofDigits_eq (append_all (zeros_all k) h), Nat.ofDigitChars_append,
    Nat.ofDigitChars_replicate_zero, Nat.mul_zero]

theorem ofDigits_append_zeros {cs : List Char} (h : ∀ c ∈ cs, c.isDigit = true) (k : Nat) :
    ofDigits (cs ++ List.replicate k '0') = ofDigits cs * Nat.pow 10 k := by
  rw [ofDigits_eq h, ofDigits_eq (append_all h (zeros_all k)), Nat.ofDigitChars_append,
    Nat.ofDigitChars_replicate_zero, Nat.mul_comm]
  rfl

theorem takeSign_of_ne {c : Char} {cs : List Char} (h : c ≠ '-') (h' : c ≠ '+') :
    takeSign (c :: cs) = (false, c :: cs) := by
  unfold takeSign
  split
  · simp_all
  · simp_all
  · rfl

theorem ne_sign_of_isDigit {c : Char} (h : c.isDigit = true) : c ≠ '-' ∧ c ≠ '+' := by
  constructor <;> rintro rfl <;> exact absurd h (by decide)

theorem takeSign_of_isDigit {c : Char} {cs : List Char} (h : c.isDigit = true) : takeSign (c :: cs) = (false, c :: cs) :=
  takeSign_of_ne (ne_sign_of_isDigit h).1 (ne_sign_of_isDigit h).2

/-- a sign written before what opens with a digit is read as the sign -/
theorem takeSign_signed (negative : Bool) {c : Char} {cs : List Char} (h : c.isDigit = true) :
    takeSign ((if negative then ['-'] else []) ++ c :: cs) = (negative, c :: cs) := by
  cases negative with
  | false => exact takeSign_of_isDigit h
  | true => rfl

/-- the sign of a numeral, by which it is negative or not -/
inductive SignText : List Char → Bool → Prop where
  | unsigned : SignText [] false
  | plus : SignText ['+'] false
  | minus : SignText ['-'] true

theorem exists_signText (cs : List Char) : ∃ sign, SignText sign (takeSign cs).1 ∧ cs = sign ++ (takeSign cs).2 := by
  unfold takeSign
  split
  · exact ⟨['-'], .minus, rfl⟩
  · exact ⟨['+'], .plus, rfl⟩
  · exact ⟨[], .unsigned, rfl⟩

theorem intText_eq (n : Int) : intText n = (if decide (n < 0) then ['-'] else []) ++ digits n.natAbs := by
  unfold intText
  by_cases h : n < 0 <;> simp [h]

theorem signed_natAbs (n : Int) : signed (decide (n < 0)) n.natAbs = n := by
  unfold signed
  by_cases h : n < 0
  · simp only [h, decide_true, if_true]; omega
  · simp only [h, decide_false]; simp; omega

theorem natAbs_signed (s : Bool) (n : Nat) : (signed s n).natAbs = n := by
  unfold signed
  split
  · rw [Int.natAbs_neg, Int.natAbs_natCast]
  · exact Int.natAbs_natCast n

/-! ## Numerals with a point and an exponent -/

theorem takeDigits_point {whole places rest : List Char} (hw : ∀ c ∈ whole, c.isDigit = true)
    (hp : ∀ c ∈ places, c.isDigit = true) (hr : Stops Char.isDigit rest) :
    takeDigits (whole ++ '.' :: (places ++ rest)) = (whole, places, rest) := by
  have hs : Stops Char.isDigit ('.' :: (places ++ rest)) := stops_cons (by decide)
  simp only [takeDigits, takeWhile_append_of_stops hw hs, dropWhile_append_of_stops hw hs,
    takeWhile_append_of_stops hp hr, dropWhile_append_of_stops hp hr]

theorem takeDigits_whole {whole rest : List Char} (hw : ∀ c ∈ whole, c.isDigit = true)
    (hr : Stops (fun c => c.isDigit || c == '.') rest) : takeDigits (whole ++ rest) = (whole, [], rest) := by
  have hs : Stops Char.isDigit rest := fun c hc => (Bool.or_eq_false_iff.1 (hr c hc)).1
  simp only [takeDigits, takeWhile_append_of_stops hw hs, dropWhile_append_of_stops hw hs]
  cases rest with
  | nil => rfl
  | cons c rest =>
    have hc : c ≠ '.' := by
      rintro rfl
      exact absurd (hr '.' rfl) (by decide)
    split
    · simp_all
    · rfl

/-- the coefficient of a numeral with a point counts the places after it -/
theorem scientific?_point {whole places rest : List Char} {e : Int} (hw : ∀ c ∈ whole, c.isDigit = true)
    (hn : whole ≠ []) (hp : ∀ c ∈ places, c.isDigit = true) (hr : Stops Char.isDigit rest)
    (he : exponent? rest = some e) :
    scientific? (whole ++ '.' :: (places ++ rest)) = some (ofDigits (whole ++ places), e - places.length) := by
  simp [scientific?, takeDigits_point hw hp hr, he, hn]

theorem scientific?_whole {whole rest : List Char} {e : Int} (hw : ∀ c ∈ whole, c.isDigit = true) (hn : whole ≠ [])
    (hr : Stops (fun c => c.isDigit || c == '.') rest) (he : exponent? rest = some e) :
    scientific? (whole ++ rest) = some (ofDigits whole, e) := by
  simp [scientific?, takeDigits_whole hw hr, he, hn]

theorem exponent?_signed {mark : Char} (hm : mark = 'e' ∨ mark = 'E') (negative : Bool) {ds : List Char} (hn : ds ≠ [])
    (hd : ∀ c ∈ ds, c.isDigit = true) :
    exponent? (mark :: (if negative then '-' else '+') :: ds) = some (signed negative (ofDigits ds)) := by
  have ht : takeSign ((if negative then '-' else '+') :: ds) = (negative, ds) := by cases negative <;> rfl
  have ha : ds.all Char.isDigit = true := List.all_eq_true.2 hd
  simp [exponent?, hm, ht, hn, ha]

end Number

end Intake
