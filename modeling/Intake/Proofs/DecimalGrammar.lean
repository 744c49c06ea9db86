/-
The grammar of decimals in text.

A numeral is a sign, digits with a point among them, and an exponent; it denotes a decimal whose coefficient has all
its digits (`NumeralText`). The reader of numerals reads this grammar and nothing else (`ofText?_finite_iff`): blanks
around a text do not count, digits of any script do, low lines are left out, and the first and the last digit must
stand within the bounds.
-/
import Intake.Proofs.DecimalText
import Intake.Proofs.IntegerCasting

namespace Intake.Number

open Intake.Text

/-- digits after a point, which may be left out where there are none -/
inductive PointText : List Char → List Char → Prop where
  | absent : PointText [] []
  | point (places : List Char) : PointText ('.' :: places) places

/-- a mark and an integer of ASCII digits; left out it is zero -/
inductive ExponentText : List Char → Int → Prop where
  | absent : ExponentText [] 0
  | mk {mark : Char} {sign ds : List Char} {negative : Bool} (hmark : mark = 'e' ∨ mark = 'E')
    (hsign : SignText sign negative)
    (nonempty : ds ≠ []) (digits : ∀ c ∈ ds, c.isDigit = true) :
    ExponentText (mark :: (sign ++ ds)) (signed negative (Nat.ofDigits 10 (digitValues ds)))

/-- a numeral denotes a decimal -/
inductive NumeralText : List Char → Decimal → Prop where
  | mk {sign whole point places tail : List Char} {negative : Bool} {e : Int} (hsign : SignText sign negative)
    (hwhole : ∀ c ∈ whole, c.isDigit = true) (hplaces : ∀ c ∈ places, c.isDigit = true) (nonempty : whole ++ places ≠ [])
    (hpoint : PointText point places) (htail : ExponentText tail e) :
    NumeralText (sign ++ (whole ++ (point ++ tail)))
      (.finite negative (Nat.ofDigits 10 (digitValues (whole ++ places))) (e - places.length))

/-! ## Exponents -/

theorem SignText.takeSign_cons {sign : List Char} {negative : Bool} (h : SignText sign negative) {c : Char}
    (hc : c ≠ '-' ∧ c ≠ '+') (cs : List Char) : Number.takeSign (sign ++ c :: cs) = (negative, c :: cs) := by
  cases h with
  | unsigned => exact takeSign_of_ne hc.1 hc.2
  | plus => rfl
  | minus => rfl

theorem ExponentText.read {tail : List Char} {e : Int} (h : ExponentText tail e) : exponent? tail = some e := by
  cases h with
  | absent => rfl
  | @mk mark sign ds negative hmark hsign nonempty digits =>
    obtain ⟨d, rest, rfl⟩ := List.exists_cons_of_ne_nil nonempty
    have hall : (d :: rest).all Char.isDigit = true := List.all_eq_true.2 digits
    simp only [exponent?, hmark, if_true,
      hsign.takeSign_cons (ne_sign_of_isDigit (digits d List.mem_cons_self)) rest, hall,
      List.isEmpty_cons, Bool.not_false, Bool.and_true, ofDigits_eq_ofDigits]

theorem exponentText_of_read {tail : List Char} {e : Int} (h : exponent? tail = some e) : ExponentText tail e := by
  cases tail with
  | nil =>
    cases h
    exact .absent
  | cons mark cs =>
    have hread : exponent? (mark :: cs) = if mark = 'e' ∨ mark = 'E' then
        if !(takeSign cs).2.isEmpty && (takeSign cs).2.all Char.isDigit then
          some (signed (takeSign cs).1 (ofDigits (takeSign cs).2)) else none
        else none := rfl
    rw [hread] at h
    obtain ⟨hmark, h⟩ := Option.ite_none_right_eq_some.1 h
    obtain ⟨hds, h⟩ := Option.ite_none_right_eq_some.1 h
    obtain ⟨hnonempty, hall⟩ := Bool.and_eq_true_iff.1 hds
    obtain ⟨sign, hsign, hcs⟩ := exists_signText cs
    cases h
    have htext := ExponentText.mk hmark hsign (by simpa using hnonempty) (List.all_eq_true.1 hall)
    rwa [← ofDigits_eq_ofDigits, ← hcs] at htext

theorem ExponentText.stops {tail : List Char} {e : Int} (h : ExponentText tail e) :
    Stops (fun c => c.isDigit || c == '.') tail := by
  cases h with
  | absent => exact stops_nil
  | mk hmark _ _ _ => rcases hmark with rfl | rfl <;> exact stops_cons (by decide)

/-! ## Numerals -/

/-- digits, the places among them and an exponent are taken apart as they are put together -/
theorem scientific?_of_parts {whole point places tail : List Char} {e : Int} (hwhole : ∀ c ∈ whole, c.isDigit = true)
    (hplaces : ∀ c ∈ places, c.isDigit = true) (nonempty : whole ++ places ≠ []) (hpoint : PointText point places)
    (htail : ExponentText tail e) :
    scientific? (whole ++ (point ++ tail)) = some (ofDigits (whole ++ places), e - places.length) := by
  have hdigits : takeDigits (whole ++ (point ++ tail)) = (whole, places, tail) := by
    cases hpoint with
    | absent => exact takeDigits_whole hwhole htail.stops
    | point =>
      exact takeDigits_point hwhole hplaces fun c hc => (Bool.or_eq_false_iff.1 (htail.stops c hc)).1
  have hempty : (whole.isEmpty && places.isEmpty) = false := by
    cases whole with
    | nil => cases places <;> simp_all
    | cons c cs => rfl
  simp only [scientific?, hdigits, hempty, Bool.false_eq_true, if_false, htail.read, Option.bind_eq_bind,
    Option.bind_some]

theorem parts_of_scientific? {cs : List Char} {c : Nat} {k : Int} (h : scientific? cs = some (c, k)) :
    ∃ whole point places tail e, cs = whole ++ (point ++ tail) ∧ (∀ c ∈ whole, c.isDigit = true) ∧
      (∀ c ∈ places, c.isDigit = true) ∧ whole ++ places ≠ [] ∧ PointText point places ∧ ExponentText tail e ∧
      c = ofDigits (whole ++ places) ∧ k = e - places.length := by
  have htaken : ∃ point, cs = (takeDigits cs).1 ++ (point ++ (takeDigits cs).2.2) ∧ PointText point (takeDigits cs).2.1 ∧
      (∀ c ∈ (takeDigits cs).1, c.isDigit = true) ∧ ∀ c ∈ (takeDigits cs).2.1, c.isDigit = true := by
    unfold takeDigits
    dsimp only
    split
    · next rest hrest =>
      refine ⟨'.' :: rest.takeWhile Char.isDigit, ?_, .point _, fun c hc => List.mem_takeWhile_imp hc,
        fun c hc => List.mem_takeWhile_imp hc⟩
      rw [List.cons_append, List.takeWhile_append_dropWhile, ← hrest, List.takeWhile_append_dropWhile]
    · refine ⟨[], ?_, .absent, fun c hc => List.mem_takeWhile_imp hc, by simp⟩
      rw [List.nil_append, List.takeWhile_append_dropWhile]
  obtain ⟨point, hcs, hpoint, hwhole, hplaces⟩ := htaken
  unfold scientific? at h
  dsimp only at h
  split at h
  · cases h
  · next hsome =>
    obtain ⟨e, he, h⟩ := Option.bind_eq_some_iff.1 h
    cases h
    refine ⟨_, point, _, _, e, hcs, hwhole, hplaces, ?_, hpoint, exponentText_of_read he, rfl, rfl⟩
    intro hnil
    obtain ⟨hw, hp⟩ := List.append_eq_nil_iff.1 hnil
    exact hsome (by rw [hw, hp]; rfl)

namespace Decimal

/-- a text denotes a finite decimal: without the blanks around it, with its digits in ASCII and without low lines it is a
numeral within the bounds -/
def DenotedBy (d : Decimal) (cs : List Char) : Prop :=
  ∃ plain, (strip cs).mapM asciiNumeral? = some plain ∧ NumeralText (plain.filter (· != '_')) d ∧ d.InRange

theorem ofNumeral_eq_some {cs : List Char} {d : Decimal} :
    ofNumeral (takeSign cs).1 (takeSign cs).2 = some d ↔ NumeralText cs d ∧ d.InRange := by
  constructor
  · intro h
    obtain ⟨⟨c, k⟩, hparts, h⟩ := Option.bind_eq_some_iff.1 h
    obtain ⟨hrange, h⟩ := Option.ite_none_right_eq_some.1 h
    cases h
    obtain ⟨sign, hsign, hcs⟩ := exists_signText cs
    obtain ⟨whole, point, places, tail, e, hrest, hwhole, hplaces, hnonempty, hpoint, htail, rfl, rfl⟩ :=
      parts_of_scientific? hparts
    have htext := NumeralText.mk hsign hwhole hplaces hnonempty hpoint htail
    rw [← hrest, ← hcs, ← ofDigits_eq_ofDigits] at htext
    exact ⟨htext, hrange⟩
  · rintro ⟨h, hrange⟩
    cases h with
    | @mk sign whole point places tail negative e hsign hwhole hplaces hnonempty hpoint htail =>
      have hsplit : takeSign (sign ++ (whole ++ (point ++ tail))) = (negative, whole ++ (point ++ tail)) := by
        cases whole with
        | cons c cs => exact hsign.takeSign_cons (ne_sign_of_isDigit (hwhole c List.mem_cons_self)) _
        | nil =>
          cases hpoint with
          | absent => exact absurd rfl hnonempty
          | point => exact hsign.takeSign_cons (by decide) _
      simp only [hsplit, ofNumeral, scientific?_of_parts hwhole hplaces hnonempty hpoint htail, Option.bind_eq_bind,
        Option.bind_some, ofDigits_eq_ofDigits]
      exact if_pos hrange

/-- **The finite decimals that are read from texts are those that the grammar denotes.** -/
theorem ofText?_finite_iff {cs : List Char} {d : Decimal} :
    ofText? cs = some d ∧ d.isFinite = true ↔ d.DenotedBy cs := by
  have hread : ofText? cs = ((strip cs).mapM asciiNumeral?).bind fun plain =>
      (ofNumeral (takeSign (plain.filter (· != '_'))).1 (takeSign (plain.filter (· != '_'))).2).or
        (ofName (takeSign (plain.filter (· != '_'))).1 (takeSign (plain.filter (· != '_'))).2) := rfl
  rw [hread]
  constructor
  · rintro ⟨h, hfinite⟩
    obtain ⟨plain, hplain, h⟩ := Option.bind_eq_some_iff.1 h
    rcases Option.or_eq_some_iff.1 h with h | ⟨-, h⟩
    · exact ⟨plain, hplain, ofNumeral_eq_some.1 h⟩
    · rw [not_finite_of_ofName h] at hfinite
      cases hfinite
  · rintro ⟨plain, hplain, hnumeral, hrange⟩
    rw [hplain, Option.bind_some, ofNumeral_eq_some.2 ⟨hnumeral, hrange⟩, Option.some_or]
    refine ⟨rfl, ?_⟩
    cases d with
    | finite s c e => rfl
    | _ => exact absurd hrange id

end Decimal

end Intake.Number
