/-
The spelling of plain data.

Nothing, booleans and numbers stand without quotes: each is spelled so that it is read with its own tag
(`ofPlain_integer`, `ofPlain_float`), and its value is read from the spelling. A text is told by its quotes where
it would be read as something else. So whatever is written for plain data that is not a collection spells it
(`exists_spelled`).
-/
import Mathlib.Data.List.TakeWhile
import Intake.Proofs.BinaryRounding
import Intake.Proofs.CanonicalText
import Intake.Proofs.PlainData
import Intake.Proofs.Yaml.Making
import Intake.Proofs.Yaml.Scalars

namespace Intake.Yaml

open Intake.Number Intake.Text Intake.Outcome

/-! ## Numerals as scalars without quotes -/

def Numeral (s : Bool) (body : List Char) : List Char := (if s then ['-'] else []) ++ body

variable {s : Bool} {body : List Char}

def opensNumeral (c : Char) : Bool := c.isDigit || c == '-'

theorem head_numeral (h : Decimal.Opens body) : ∃ c rest, Numeral s body = c :: rest ∧ opensNumeral c = true := by
  obtain ⟨-, d, rest, rfl, hd⟩ := h
  cases s with
  | false => exact ⟨d, rest, rfl, by simp [opensNumeral, hd]⟩
  | true => exact ⟨'-', d :: rest, rfl, rfl⟩

theorem marks_numeral (h : Decimal.Opens body) : ∀ c ∈ Numeral s body, Decimal.isMark c = true := by
  refine append_all ?_ h.1
  cases s <;> simp [Decimal.isMark]

theorem hasPair_of_none {p q : Char → Bool} {cs : List Char} (h : ∀ c ∈ cs, p c = false) : hasPair p q cs = false := by
  refine List.any_eq_false.2 fun x hx => ?_
  obtain ⟨a, b⟩ := x
  simp [h a (List.of_mem_zip hx).1]

theorem isMark_ne {c d : Char} (h : Decimal.isMark c = true) (hd : Decimal.isMark d = false) : c ≠ d := by
  rintro rfl
  rw [h] at hd
  cases hd

theorem hasIndicatorInside_of_marks {cs : List Char} (h : ∀ c ∈ cs, Decimal.isMark c = true) :
    hasIndicatorInside cs = false := by
  induction cs with
  | nil => rfl
  | cons a cs ih =>
    cases cs with
    | nil => rfl
    | cons b cs =>
      have hb := h b (by simp)
      have h1 : (b == ':') = false := beq_eq_false_iff_ne.2 (isMark_ne hb (by decide))
      have h2 : (b == '#') = false := beq_eq_false_iff_ne.2 (isMark_ne hb (by decide))
      rw [hasIndicatorInside, h1, h2, ih fun c hc => h c (List.mem_cons_of_mem a hc)]
      rfl

theorem isSpacing_of_visible {c : Char} (h : isVisible c = true) : isSpacing c = false := by
  rw [isSpacing_eq_of_plain (isPlainChar_of_visible h) (not_isBreak_of_visible h)]
  refine beq_eq_false_iff_ne.2 ?_
  rintro rfl
  exact absurd h (by decide)

theorem isIndicatorFirst_of_isDigit {d : Char} (hd : d.isDigit = true) (rest : List Char) :
    isIndicatorFirst d rest = false := by
  have hmark := Decimal.isMark_of_isDigit hd
  have h1 : (d == '?') = false := beq_eq_false_iff_ne.2 (isMark_ne hmark (by decide))
  have h2 : (d == ':') = false := beq_eq_false_iff_ne.2 (isMark_ne hmark (by decide))
  have h3 : (d == '-') = false := beq_eq_false_iff_ne.2 (ne_sign_of_isDigit hd).1
  have h4 : indicators.contains d = false := by
    refine Bool.eq_false_iff.2 fun hmem => ?_
    have hnone : indicators.all (fun c => !c.isDigit) = true := by decide
    have := List.all_eq_true.1 hnone d (List.contains_iff_mem.1 hmem)
    rw [hd] at this
    cases this
  rw [isIndicatorFirst, h1, h2, h3, h4]
  rfl

theorem isIndicatorFirst_minus {d : Char} (hd : d.isDigit = true) (rest : List Char) :
    isIndicatorFirst '-' (d :: rest) = false := by
  have h1 : indicators.contains '-' = false := by decide
  rw [isIndicatorFirst, h1, List.head?_cons, Option.map_some, isSpacing_of_visible (isVisible_of_isDigit hd)]
  rfl

theorem opensAsMark_numeral (h : Decimal.Opens body) : opensAsMark (Numeral s body) = false := by
  obtain ⟨-, d, rest, rfl, hd⟩ := h
  have hminus : d ≠ '-' := (ne_sign_of_isDigit hd).1
  have hpoint : d ≠ '.' := by
    rintro rfl
    exact absurd hd (by decide)
  cases s <;> simp [Numeral, opensAsMark, hminus, hpoint]

theorem not_ambiguous_numeral (h : Decimal.Opens body) : (Traits.ofText (Numeral s body)).ambiguous = false := by
  have hinside := hasIndicatorInside_of_marks (marks_numeral (s := s) h)
  have hmark := opensAsMark_numeral (s := s) h
  obtain ⟨-, d, rest, rfl, hd⟩ := h
  cases s with
  | false =>
    show (opensAsMark (d :: rest) || isIndicatorFirst d rest || hasIndicatorInside (d :: rest)) = false
    rw [isIndicatorFirst_of_isDigit hd, show hasIndicatorInside (d :: rest) = false from hinside,
      show opensAsMark (d :: rest) = false from hmark]
    rfl
  | true =>
    show (opensAsMark ('-' :: d :: rest) || isIndicatorFirst '-' (d :: rest) || hasIndicatorInside
      ('-' :: d :: rest)) = false
    rw [isIndicatorFirst_minus hd, show hasIndicatorInside ('-' :: d :: rest) = false from hinside,
      show opensAsMark ('-' :: d :: rest) = false from hmark]
    rfl

theorem allowsPlain_numeral (h : Decimal.Opens body) : (Traits.ofText (Numeral s body)).allowsPlain = true := by
  have hmarks := marks_numeral (s := s) h
  have hvisible : ∀ c ∈ Numeral s body, isVisible c = true := fun c hc => Decimal.visible_of_isMark (hmarks c hc)
  have hbreak : ∀ c ∈ Numeral s body, isBreak c = false := fun c hc => not_isBreak_of_visible (hvisible c hc)
  have hspace : ∀ c ∈ Numeral s body, isSpace c = false :=
    fun c hc => beq_eq_false_iff_ne.2 (isMark_ne (hmarks c hc) (by decide))
  have hedge : ∀ c ∈ Numeral s body, (isSpace c || isBreak c) = false := fun c hc => by rw [hspace c hc, hbreak c hc]; rfl
  have hplain : (Numeral s body).all isPlainChar = true :=
    List.all_eq_true.2 fun c hc => isPlainChar_of_visible (hvisible c hc)
  have hlines : (Numeral s body).any isBreak = false := List.any_eq_false.2 fun c hc => by simp [hbreak c hc]
  have hragged : (Traits.ofText (Numeral s body)).ragged = false := by
    have hhead : (((Numeral s body).head?.map fun c => isSpace c || isBreak c).getD false) = false := by
      cases hc : (Numeral s body).head? with
      | none => rfl
      | some c => exact hedge c (List.mem_of_head? hc)
    have hlast : (((Numeral s body).getLast?.map fun c => isSpace c || isBreak c).getD false) = false := by
      cases hc : (Numeral s body).getLast? with
      | none => rfl
      | some c => exact hedge c (List.mem_of_getLast? hc)
    show (_ || _) = false
    rw [hhead, hlast]
    rfl
  rw [Traits.allowsPlain, hragged, not_ambiguous_numeral h]
  simp only [Traits.ofText, hasPair_of_none hbreak, hasPair_of_none hspace, hplain, hlines]
  rfl

/-! ## The tag of a numeral -/

theorem not_word {words : List String} (hw : words.all (fun w => !(w.toList.head?.any opensNumeral)) = true)
    (h : Decimal.Opens body) : words.contains (String.ofList (Numeral s body)) = false := by
  refine Bool.eq_false_iff.2 fun hmem => ?_
  have hnone := List.all_eq_true.1 hw _ (List.contains_iff_mem.1 hmem)
  obtain ⟨c, rest, hc, hopens⟩ := head_numeral (s := s) h
  rw [String.toList_ofList, hc, List.head?_cons, Option.any_some, hopens] at hnone
  cases hnone

theorem takeSign_numeral (h : Decimal.Opens body) : takeSign (Numeral s body) = (s, body) := by
  obtain ⟨-, d, rest, rfl, hd⟩ := h
  exact takeSign_signed s hd

theorem not_isPointFirst (h : Decimal.Opens body) : isPointFirst (Numeral s body) = false := by
  obtain ⟨c, rest, hc, hopens⟩ := head_numeral (s := s) h
  rw [hc]
  have hpoint : c ≠ '.' := by
    rintro rfl
    exact absurd hopens (by decide)
  unfold isPointFirst
  split
  · next heq => exact absurd (List.cons.inj heq).1 hpoint
  · rfl

/-- a numeral is a float exactly if it has a point in its place -/
theorem isFloatText_numeral (h : Decimal.Opens body) : isFloatText (Numeral s body) = isPointed body := by
  have hinfinity : infinityWords.contains (String.ofList body) = false := not_word (s := false) (by decide) h
  have hnan : nanWords.contains (String.ofList (Numeral s body)) = false := not_word (by decide) h
  rw [isFloatText, takeSign_numeral h, not_isPointFirst h, hinfinity, hnan]
  simp only [Bool.or_false]

/-- **A numeral with a point is read as a float.** -/
theorem ofPlain_float (h : Decimal.Opens body) (hp : isPointed body = true) : Tag.ofPlain (Numeral s body) = .float := by
  have htrue : trueWords.contains (String.ofList (Numeral s body)) = false := not_word (by decide) h
  have hfalse : falseWords.contains (String.ofList (Numeral s body)) = false := not_word (by decide) h
  rw [Tag.ofPlain]
  simp only [htrue, hfalse, isFloatText_numeral h, hp, Bool.or_false, Bool.false_eq_true, if_false, if_true]

/-- **A numeral of an integer is read as an integer.** -/
theorem ofPlain_integer (h : Decimal.Opens body) (hp : isPointed body = false)
    (hi : isIntegerText (Numeral s body) = true) :
    Tag.ofPlain (Numeral s body) = .integer := by
  have htrue : trueWords.contains (String.ofList (Numeral s body)) = false := not_word (by decide) h
  have hfalse : falseWords.contains (String.ofList (Numeral s body)) = false := not_word (by decide) h
  rw [Tag.ofPlain]
  simp only [htrue, hfalse, isFloatText_numeral h, hp, hi, Bool.or_false, Bool.false_eq_true, if_false, if_true]

/-! ## Integers -/

theorem not_isPointed_of_digits {ds : List Char} (h : ∀ c ∈ ds, c.isDigit = true) : isPointed ds = false := by
  have hnone : ds.dropWhile (· != '.') = [] := by
    refine List.dropWhile_eq_nil_iff.2 fun c hc => ?_
    have hdigit := h c hc
    rw [bne_iff_ne]
    rintro rfl
    exact absurd hdigit (by decide)
  rw [isPointed, hnone]

theorem isDigitOrLow_of_isDigit {c : Char} (h : c.isDigit = true) : isDigitOrLow 10 c = true := by
  have hvalue : hexValue? c = some (c.toNat - 48) := if_pos h
  have hlt : c.toNat - 48 < 10 := by
    simp only [Char.isDigit, Bool.and_eq_true, decide_eq_true_eq, ge_iff_le, UInt32.le_iff_toNat_le] at h
    have h2 : c.toNat ≤ 57 := h.2
    omega
  rw [isDigitOrLow, hvalue, Option.map_some, Option.getD_some, decide_eq_true hlt, Bool.or_true]

theorem isGrouped_of_digits {cs : List Char} (h : ∀ c ∈ cs, c.isDigit = true) (hn : cs ≠ []) : isGrouped cs = true := by
  obtain ⟨d, ds, rfl⟩ := List.exists_cons_of_ne_nil hn
  have hall : (d :: ds).all (isDigitOrLow 10) = true := List.all_eq_true.2 fun c hc => isDigitOrLow_of_isDigit (h c hc)
  rw [isGrouped, hall, List.head?_cons, Option.map_some, Option.getD_some, h d List.mem_cons_self]
  rfl

theorem isNotLow_of_marks {cs : List Char} (h : ∀ c ∈ cs, Decimal.isMark c = true) : cs.filter (· != '_') = cs :=
  List.filter_eq_self.2 fun c hc => bne_iff_ne.2 (isMark_ne (h c hc) (by decide))

theorem not_contains_of_marks {cs : List Char} {d : Char} (h : ∀ c ∈ cs, Decimal.isMark c = true)
    (hd : Decimal.isMark d = false) :
    cs.contains d = false :=
  Bool.eq_false_iff.2 fun hmem => isMark_ne (h d (List.contains_iff_mem.1 hmem)) hd rfl

section Whole

variable {ds : List Char} {n : Nat}

theorem opens_whole (h : WholeDigits ds) : Decimal.Opens ds := Decimal.opens_digits h.digits h.nonempty

theorem isIntegerText_whole (h : WholeDigits ds) (s : Bool) : isIntegerText (Numeral s ds) = true := by
  have hgrouped := isGrouped_of_digits h.digits h.nonempty
  unfold isIntegerText
  rw [takeSign_numeral (opens_whole h)]
  split
  · rfl
  · next heq => cases h.lead _ heq
  · next heq => cases h.lead _ heq
  · next heq =>
    rw [h.lead _ heq]
    rfl
  · rw [hgrouped, Bool.true_or]

/-- digits that are not too many are read as the number that they denote -/
theorem integer?_whole (h : WholeDigits ds) (hn : ofDigits? ds = some n) : integer? ds = some n := by
  have hvis : ∀ c ∈ ds, isVisible c = true := fun c hc => isVisible_of_isDigit (h.digits c hc)
  have hlow : ∀ c ∈ ds, c ≠ '_' := fun c hc => isMark_ne (Decimal.isMark_of_isDigit (h.digits c hc)) (by decide)
  have hsign := takeSign_numeral (s := false) (opens_whole h)
  simp only [integer?, strip_of_visible hvis, mapM_asciiNumeral?_of_visible hvis, Option.bind_eq_bind, Option.bind_some,
    show takeSign ds = (false, ds) from hsign, joinDigits?_of_no_low _ hlow, List.all_eq_true.2 h.digits, hn]
  simp [h.nonempty, signed]

theorem magnitude_whole (h : WholeDigits ds) (hn : ofDigits? ds = some n) : magnitude ds = .ok n := by
  have hcolon : ds.contains ':' = false := not_contains_of_marks (opens_whole h).1 (by decide)
  have hread : Cast.orBad (integer? ds) = .ok n := by rw [integer?_whole h hn]; rfl
  unfold magnitude
  split
  · exact absurd rfl h.nonempty
  · cases h.lead _ rfl
  · cases h.lead _ rfl
  · next zeros _ _ =>
    obtain rfl : zeros = [] := h.lead _ rfl
    obtain rfl : 0 = n := Option.some.inj hn
    rfl
  · rw [hcolon]
    exact hread

/-- **An integer is read as the number that its digits denote, under its sign.** -/
theorem integerValue_whole (h : WholeDigits ds) (hn : ofDigits? ds = some n) (s : Bool) :
    integerValue (Numeral s ds) = .ok (signed s n) := by
  have hopens := opens_whole h
  obtain ⟨c, rest, hc, -⟩ := head_numeral (s := s) hopens
  have hne : (Numeral s ds).isEmpty = false := by rw [hc]; rfl
  rw [integerValue, isNotLow_of_marks (marks_numeral hopens), hne, takeSign_numeral hopens]
  simp only [Bool.false_eq_true, if_false, magnitude_whole h hn, ok_bind]
  rfl

end Whole

theorem intText_numeral (n : Int) : intText n = Numeral (decide (n < 0)) (digits n.natAbs) := intText_eq n

/-- the text of an integer that can be written is read as it -/
theorem integerValue_intText {n : Int} (hn : digitCount n.natAbs ≤ maxDigits) : integerValue (intText n) = .ok n := by
  have hread : ofDigits? (digits n.natAbs) = some n.natAbs := by
    rw [ofDigits?, if_pos (show (digits n.natAbs).length ≤ maxDigits from hn), ofDigits_digits]
  rw [intText_numeral, integerValue_whole (wholeDigits_digits _) hread, signed_natAbs]

/-! ## Numerals with a point -/

/-- an exponent with its sign, after its mark, or none -/
inductive FullExponent : Int → List Char → Prop where
  | none : FullExponent 0 []
  | mark {mark : Char} (hmark : mark = 'e' ∨ mark = 'E') (negative : Bool) {ds : List Char}
    (digits : ∀ c ∈ ds, c.isDigit = true)
    (nonempty : ds ≠ []) : FullExponent (signed negative (ofDigits ds)) (mark :: (if negative then '-' else '+') :: ds)

namespace FullExponent

variable {p : Int} {tail : List Char}

theorem of_tail (h : Binary64.Tail p tail) : FullExponent p tail := by
  cases h with
  | none => exact .none
  | exponent =>
    obtain ⟨ds, htext, hn, hd, hv⟩ := Binary64.exponentText_eq p
    have h := FullExponent.mark (.inl rfl) (decide (p < 0)) hd hn
    rw [hv, signed_natAbs] at h
    simpa [htext] using h

theorem exponent? (h : FullExponent p tail) : exponent? tail = some p := by
  cases h with
  | none => rfl
  | mark hmark negative hd hn => exact exponent?_signed hmark negative hn hd

theorem marks (h : FullExponent p tail) : ∀ c ∈ tail, Decimal.isMark c = true := by
  cases h with
  | none => exact fun c hc => absurd hc List.not_mem_nil
  | mark hmark negative hd _ =>
    refine List.forall_mem_cons.2 ⟨?_, List.forall_mem_cons.2 ⟨?_, fun c hc => Decimal.isMark_of_isDigit (hd c hc)⟩⟩
    · rcases hmark with rfl | rfl <;> decide
    · cases negative <;> decide

theorem stops (h : FullExponent p tail) : Stops Char.isDigit tail ∧ Stops (isDigitOrLow 10) tail := by
  cases h with
  | none => exact ⟨stops_nil, stops_nil⟩
  | mark hmark => rcases hmark with rfl | rfl <;> exact ⟨stops_cons (by decide), stops_cons (by decide)⟩

theorem isExponent (h : FullExponent p tail) : isExponent tail = true := by
  cases h with
  | none => rfl
  | mark hmark negative hd hn =>
    have hempty : List.isEmpty _ = false := List.isEmpty_eq_false_iff.2 hn
    rw [Yaml.isExponent, hempty, List.all_eq_true.2 hd]
    rcases hmark with rfl | rfl <;> cases negative <;> rfl

end FullExponent

/-- a mark of a numeral has no capital form but for that of the exponent -/
theorem toLower_of_isMark {c : Char} (h : Decimal.isMark c = true) (he : c ≠ 'E') : c.toLower = c := by
  have all : ∀ n : Fin 128, Decimal.isMark (Char.ofNat n.1) = true → Char.ofNat n.1 ≠ 'E' →
      (Char.ofNat n.1).toLower = Char.ofNat n.1 := by decide
  have hvisible := Decimal.visible_of_isMark h
  simp only [isVisible, decide_eq_true_eq] at hvisible
  have := all ⟨c.toNat, by omega⟩
  rw [Char.ofNat_toNat] at this
  exact this h he

theorem map_toLower_digits {cs : List Char} (h : ∀ c ∈ cs, c.isDigit = true) : cs.map Char.toLower = cs := by
  refine (List.map_congr_left fun c hc => ?_).trans (List.map_id' _)
  refine toLower_of_isMark (Decimal.isMark_of_isDigit (h c hc)) ?_
  rintro rfl
  exact absurd (h _ hc) (by decide)

theorem FullExponent.lower {p : Int} {tail : List Char} (h : FullExponent p tail) :
    FullExponent p (tail.map Char.toLower) := by
  cases h with
  | none => exact .none
  | @mark mark hmark negative ds hd hn =>
    have hsign : (if negative then '-' else '+').toLower = if negative then '-' else '+' := by cases negative <;> rfl
    have hlower : mark.toLower = 'e' := by rcases hmark with rfl | rfl <;> rfl
    rw [List.map_cons, List.map_cons, map_toLower_digits hd, hsign, hlower]
    exact .mark (.inl rfl) negative hd hn

/-- a numeral with a point between digits, and an exponent with its sign perhaps after them -/
structure Pointed (p : Int) (whole places tail : List Char) : Prop where
  wholeDigits : ∀ c ∈ whole, c.isDigit = true
  nonempty : whole ≠ []
  placesDigits : ∀ c ∈ places, c.isDigit = true
  exponent : FullExponent p tail

namespace Pointed

variable {p : Int} {whole places tail : List Char}

theorem opens (h : Pointed p whole places tail) : Decimal.Opens (whole ++ '.' :: (places ++ tail)) := by
  refine Decimal.opens_append (Decimal.opens_digits h.wholeDigits h.nonempty) ?_
  rw [← List.cons_append]
  exact append_all (Decimal.point_marks h.placesDigits) h.exponent.marks

theorem isPointed (h : Pointed p whole places tail) : isPointed (whole ++ '.' :: (places ++ tail)) = true := by
  have hpoint : ∀ c ∈ whole, (c != '.') = true := by
    intro c hc
    have hdigit := h.wholeDigits c hc
    rw [bne_iff_ne]
    rintro rfl
    exact absurd hdigit (by decide)
  have hstop : Stops (· != '.') ('.' :: (places ++ tail)) := stops_cons (by decide)
  have hlow : ∀ c ∈ places, isDigitOrLow 10 c = true := fun c hc => isDigitOrLow_of_isDigit (h.placesDigits c hc)
  have hfraction : isFraction (places ++ tail) = true := by
    rw [isFraction, dropWhile_append_of_stops hlow h.exponent.stops.2]
    exact h.exponent.isExponent
  rw [Yaml.isPointed, takeWhile_append_of_stops hpoint hstop, dropWhile_append_of_stops hpoint hstop]
  simp only [isGrouped_of_digits h.wholeDigits h.nonempty, hfraction, Bool.and_self, Bool.true_or]

theorem reads (h : Pointed p whole places tail) : Binary64.ofText? (whole ++ '.' :: (places ++ tail)) =
    some (.ofScientific false (ofDigits (whole ++ places)) (p - places.length)) :=
  Binary64.ofText?_of_scientific h.opens
    (scientific?_point h.wholeDigits h.nonempty h.placesDigits h.exponent.stops.1 h.exponent.exponent?)

theorem map_toLower (h : Pointed p whole places tail) : (whole ++ '.' :: (places ++ tail)).map Char.toLower =
    whole ++ '.' :: (places ++ tail.map Char.toLower) := by
  rw [List.map_append, List.map_cons, List.map_append, map_toLower_digits h.wholeDigits,
    map_toLower_digits h.placesDigits]
  rfl

theorem lower (h : Pointed p whole places tail) : Pointed p whole places (tail.map Char.toLower) :=
  ⟨h.wholeDigits, h.nonempty, h.placesDigits, h.exponent.lower⟩

/-- **A numeral with a point is read as the datum nearest to it.** -/
theorem value (h : Pointed p whole places tail) (s : Bool) : floatValue (Numeral s (whole ++ '.' :: (places ++ tail))) =
    .ok (.ofScientific s (ofDigits (whole ++ places)) (p - places.length)) := by
  have hopens := h.lower.opens
  have hmarks := marks_numeral (s := s) h.opens
  obtain ⟨c, rest, hc, -⟩ := head_numeral (s := s) hopens
  have hne : (Numeral s (whole ++ '.' :: (places ++ tail.map Char.toLower))).isEmpty = false := by rw [hc]; rfl
  have hlower : (Numeral s (whole ++ '.' :: (places ++ tail))).map Char.toLower =
      Numeral s (whole ++ '.' :: (places ++ tail.map Char.toLower)) := by
    rw [Numeral, List.map_append, h.map_toLower]
    cases s <;> rfl
  have hword (word : List Char) (hw : word.head?.any Char.isDigit = false) :
      (whole ++ '.' :: (places ++ tail.map Char.toLower) == word) = false := by
    obtain ⟨d, ds, hwhole⟩ := List.exists_cons_of_ne_nil h.nonempty
    refine beq_eq_false_iff_ne.2 ?_
    rintro rfl
    have hd := h.wholeDigits d (by rw [hwhole]; exact List.mem_cons_self)
    rw [hwhole, List.cons_append, List.head?_cons, Option.any_some, hd] at hw
    cases hw
  have hinf := hword ".inf".toList (by decide)
  have hnan := hword ".nan".toList (by decide)
  have hcolon : (whole ++ '.' :: (places ++ tail.map Char.toLower)).contains ':' = false :=
    not_contains_of_marks hopens.1 (by decide)
  rw [floatValue, isNotLow_of_marks hmarks, hlower, hne, takeSign_numeral hopens]
  simp only [Bool.false_eq_true, if_false, hinf, hnan, hcolon, h.lower.reads]
  cases s
  · rfl
  · exact congrArg Except.ok (Binary64.neg_ofScientific _ _)

end Pointed

/-! ## Binary numbers -/

/-- the text of a binary number has a point in it, and an exponent perhaps after that -/
structure FloatWritten (s : Bool) (m : Nat) (e : Int) (whole places tail : List Char) : Prop where
  text : floatText (.finite s m e) = Numeral s (whole ++ '.' :: (places ++ tail))
  pointed : ∃ p, Pointed p whole places tail
  reads : Binary64.ofText? (whole ++ '.' :: (places ++ tail)) = some (.finite false m e)

theorem text_finite (s : Bool) (m : Nat) (e : Int) :
    (Binary64.finite s m e).text = Numeral s (Binary64.finite false m e).text := by
  cases s <;> rfl

theorem floatText_finite (s : Bool) (m : Nat) (e : Int) :
    floatText (.finite s m e) = if (Binary64.finite s m e).text.contains '.' then (Binary64.finite s m e).text
      else (Binary64.finite s m e).text.flatMap fun c => if c == 'e' then ['.', '0', 'e'] else [c] := rfl

theorem flatMap_of_no_exponent {cs : List Char} (h : ∀ c ∈ cs, c ≠ 'e') :
    (cs.flatMap fun c => if c == 'e' then ['.', '0', 'e'] else [c]) = cs := by
  induction cs with
  | nil => rfl
  | cons c cs ih =>
    obtain ⟨hc, hcs⟩ := List.forall_mem_cons.1 h
    rw [List.flatMap_cons, ih hcs, if_neg (by simpa using hc)]
    rfl

theorem mem_exponentText {k : Int} {c : Char} (h : c ∈ Binary64.exponentText k) :
    c.isDigit = true ∨ c = '-' ∨ c = '+' := by
  unfold Binary64.exponentText at h
  dsimp only at h
  rcases List.mem_cons.1 h with rfl | h
  · split
    · exact .inr (.inl rfl)
    · exact .inr (.inr rfl)
  · split at h
    · rcases List.mem_cons.1 h with rfl | h
      · exact .inl (by decide)
      · exact .inl (digits_all _ c h)
    · exact .inl (digits_all _ c h)

theorem exponentText_ne {k : Int} {d : Char} (hd : d.isDigit = false) (h1 : d ≠ '-') (h2 : d ≠ '+') :
    ∀ c ∈ Binary64.exponentText k, c ≠ d := by
  rintro c hc rfl
  rcases mem_exponentText hc with h | h | h
  · rw [hd] at h
    cases h
  · exact h1 h
  · exact h2 h

theorem exists_floatWritten {s : Bool} {m : Nat} {e : Int} (hc : (Binary64.finite s m e).Canonical) :
    ∃ whole places tail, FloatWritten s m e whole places tail := by
  obtain ⟨c, k, hw, hread⟩ := Binary64.exists_written (m := m) (e := e) hc
  generalize hbody : (Binary64.finite false m e).text = body at hw
  have htext := text_finite s m e
  rw [hbody] at htext
  cases hw with
  | @pointed whole places tail p zeros hwhole hn hp hl ht hv hk hz =>
    have hreads := Binary64.ofText?_of_written (.pointed hwhole hn hp hl ht hv hk hz)
    rw [hread] at hreads
    refine ⟨whole, places, tail, ?_, ⟨p, hwhole, hn, hp, .of_tail ht⟩, hreads⟩
    have hpoint : (Numeral s (whole ++ '.' :: (places ++ tail))).contains '.' = true := by
      refine List.contains_iff_mem.2 ?_
      simp [Numeral]
    rw [floatText_finite, htext, if_pos hpoint]
  | @bare d hd hv =>
    -- a point and a zero are put before the exponent
    have hwhole : ∀ x ∈ [d], x.isDigit = true := List.forall_mem_singleton.2 hd
    have hzero : ofDigits ([d] ++ List.replicate 1 '0') = c * 10 ^ 1 := by
      rw [ofDigits_append_zeros hwhole, hv]
      rfl
    have hreads :=
      Binary64.ofText?_of_written
      (.pointed (k := k) hwhole (by simp) (zeros_all 1) (by simp) (.exponent k) hzero rfl (by decide))
    rw [hread] at hreads
    refine ⟨[d], ['0'], _, ?_, ⟨k, hwhole, by simp, zeros_all 1, .of_tail (.exponent k)⟩, hreads⟩
    have hne {x : Char} (hx : x.isDigit = false) : d ≠ x := by
      rintro rfl
      rw [hd] at hx
      cases hx
    have hno : (Numeral s (d :: 'e' :: Binary64.exponentText k)).contains '.' = false := by
      refine Bool.eq_false_iff.2 fun hmem => ?_
      have hmem := List.contains_iff_mem.1 hmem
      simp only [Numeral, List.mem_append, List.mem_cons] at hmem
      rcases hmem with hmem | hmem | hmem | hmem
      · cases s <;> simp at hmem
      · exact hne (by decide) hmem.symm
      · cases hmem
      · exact exponentText_ne (by decide) (by decide) (by decide) _ hmem rfl
    have hsign : ∀ x ∈ Numeral s [d], x ≠ 'e' := by
      intro x hx
      rcases List.mem_append.1 hx with hx | hx
      · cases s with
        | false => cases hx
        | true =>
          rw [List.mem_singleton.1 hx]
          decide
      · rw [List.mem_singleton.1 hx]
        exact hne (by decide)
    have hsplit : Numeral s (d :: 'e' :: Binary64.exponentText k) = Numeral s [d] ++ 'e' :: Binary64.exponentText k := by
      simp [Numeral]
    rw [floatText_finite, htext, hno, if_neg Bool.false_ne_true, hsplit, List.flatMap_append,
      flatMap_of_no_exponent hsign,
      List.flatMap_cons, flatMap_of_no_exponent (exponentText_ne (by decide) (by decide) (by decide))]
    simp [Numeral]

namespace FloatWritten

variable {m : Nat} {e : Int} {whole places tail : List Char}

theorem opens (h : FloatWritten s m e whole places tail) : Decimal.Opens (whole ++ '.' :: (places ++ tail)) := by
  obtain ⟨p, hp⟩ := h.pointed
  exact hp.opens

theorem isPointed (h : FloatWritten s m e whole places tail) : isPointed (whole ++ '.' :: (places ++ tail)) = true := by
  obtain ⟨p, hp⟩ := h.pointed
  exact hp.isPointed

theorem value (h : FloatWritten s m e whole places tail) :
    floatValue (floatText (.finite s m e)) = .ok (.finite s m e) := by
  obtain ⟨p, hp⟩ := h.pointed
  have hreads := Option.some.inj (hp.reads.symm.trans h.reads)
  rw [h.text, hp.value]
  cases s
  · rw [hreads]
  · rw [← Binary64.neg_ofScientific, hreads]
    rfl

end FloatWritten

/-! ## Scalars -/

/-- a scalar that needs no tag, and whose text is read as a value by the tag that it has -/
structure Scalar.Spells (s : Scalar) (v : Value) : Prop where
  told : s.Told
  single : s.tag.isCollection = false
  value : scalarValue s.tag s.text = .ok v

/-- a scalar that may stand without quotes does, if it is a value -/
theorem Scalar.style_eq_plain {s : Scalar} (hw : s.wantsBlock = false) (hr : s.readsPlain = true)
    (hp : (Traits.ofText s.text).allowsPlain = true) : s.style false = .plain := by
  unfold style
  dsimp only
  rw [hw, hr, hp]
  rfl

theorem Scalar.Spells.of_plain {tag : Tag} {cs : List Char} {v : Value} (ht : Tag.ofPlain cs = tag) (hn : cs ≠ [])
    (hp : (Traits.ofText cs).allowsPlain = true) (hs : tag.isCollection = false) (hv : scalarValue tag cs = .ok v) :
    Scalar.Spells ⟨tag, cs, false⟩ v ∧ (Scalar.mk tag cs false).style false = .plain := by
  have hr : (Scalar.mk tag cs false).readsPlain = true := by
    rw [Scalar.readsPlain, ht]
    exact beq_self_eq_true tag
  exact ⟨⟨⟨rfl, .inr ⟨hr, hp, hn⟩⟩, hs, hv⟩, Scalar.style_eq_plain rfl hr hp⟩

def textScalar (s : String) : Scalar := ⟨.text, s.toList, false⟩

theorem told_textScalar (s : String) : (textScalar s).Told := ⟨rfl, .inl rfl⟩

/-- plain data that is not a collection -/
inductive Atom : Value → Prop where
  | null : Atom .null
  | bool (b : Bool) : Atom (.bool b)
  | int {n : Int} (h : (intText? n).isSome) : Atom (.int n)
  | float {x : Binary64} (hf : x.isFinite = true) (hc : x.Canonical) : Atom (.float x)
  | text (s : String) : Atom (.text s)

/-- **Plain data that is not a collection is spelled by what is written of it**, without quotes unless it is a text. -/
theorem exists_spelled {v : Value} (h : Atom v) : ∃ s, Scalar.ofValue v = .ok s ∧ s.Spells v ∧
    (s.style false = .plain ∨ ∃ t, v = .text t ∧ s = textScalar t) := by
  have plainly {s : Scalar} (h : s.Spells v ∧ s.style false = .plain) :
      s.Spells v ∧ (s.style false = .plain ∨ ∃ t, v = .text t ∧ s = textScalar t) := ⟨h.1, .inl h.2⟩
  cases h with
  | null => exact ⟨_, rfl, plainly (Scalar.Spells.of_plain (by decide) (by decide) (by decide) rfl rfl)⟩
  | bool b =>
    refine ⟨_, rfl, ?_⟩
    cases b
    · exact plainly (Scalar.Spells.of_plain (by decide) (by decide) (by decide) rfl rfl)
    · exact plainly (Scalar.Spells.of_plain (by decide) (by decide) (by decide) rfl rfl)
  | @int n h =>
    have hcount : digitCount n.natAbs ≤ maxDigits := by
      rw [intText?] at h
      by_contra hlong
      rw [if_neg hlong] at h
      cases h
    have hopens := Decimal.opens_digits (digits_all n.natAbs) (digits_nonempty n.natAbs)
    obtain ⟨c, rest, hc, -⟩ := head_numeral (s := decide (n < 0)) hopens
    refine ⟨⟨.integer, intText n, false⟩, ?_, ?_⟩
    · rw [Scalar.ofValue, intText?, if_pos hcount]
    · have hvalue : scalarValue .integer (intText n) = .ok (.int n) := by
        rw [scalarValue, integerValue_intText hcount]
        rfl
      rw [intText_numeral] at hvalue ⊢
      exact plainly (Scalar.Spells.of_plain (ofPlain_integer hopens (not_isPointed_of_digits (digits_all _))
        (isIntegerText_whole (wholeDigits_digits _) _)) (by rw [hc]; simp)
        (allowsPlain_numeral hopens) rfl hvalue)
  | @float x hf hc =>
    cases x with
    | finite s m e =>
      obtain ⟨whole, places, tail, hw⟩ := exists_floatWritten hc
      obtain ⟨c, rest, hcons, -⟩ := head_numeral (s := s) hw.opens
      have hvalue : scalarValue .float (floatText (.finite s m e)) = .ok (.float (.finite s m e)) := by
        rw [scalarValue, hw.value]
        rfl
      refine ⟨⟨.float, floatText (.finite s m e), false⟩, rfl, ?_⟩
      rw [hw.text] at hvalue ⊢
      exact plainly
        (Scalar.Spells.of_plain (ofPlain_float hw.opens hw.isPointed) (by rw [hcons]; simp)
          (allowsPlain_numeral hw.opens) rfl
        hvalue)
    | nan p => cases hf
    | infinite s => cases hf
  | text t =>
    have hvalue : scalarValue .text t.toList = .ok (.text t) := by rw [scalarValue, String.ofList_toList]
    exact ⟨textScalar t, rfl, ⟨told_textScalar t, rfl, hvalue⟩, .inr ⟨t, rfl, rfl⟩⟩

end Intake.Yaml
