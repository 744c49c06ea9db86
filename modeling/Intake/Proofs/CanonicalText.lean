/-
The canonical text of a value casts back to the value.

A document holds decimals, identifiers, dates, moments and times as their canonical texts, and the declared type
casts each text when the document is read. The cast gives the value that was written, part by part, and not
only an equal one (`KeptBy.cast_canonical`). A moment may be written with another character between its date and its time
(`Cast.toMoment_textWith`).
-/
import Intake.Value.Canonical
import Intake.Cast.Registry
import Intake.Proofs.DecimalText
import Intake.Proofs.CalendarText
import Intake.Proofs.PlainData

namespace Intake

open Intake.Text Intake.Number Intake.Calendar

/-! ## Identifiers -/

namespace Number

theorem joinDigits?_of_no_low (isDigit : Char → Bool) {cs : List Char} (h : ∀ c ∈ cs, c ≠ '_') (inDigits : Bool) :
    joinDigits? isDigit inDigits cs = some cs := by
  induction cs generalizing inDigits with
  | nil => rfl
  | cons c cs ih =>
    have hc := h c List.mem_cons_self
    have hr := ih (fun d hd => h d (List.mem_cons_of_mem c hd)) (isDigit c)
    unfold joinDigits?
    split
    · simp_all
    · simp_all
    · simp_all
    · simp_all

theorem hexValue?_hexDigit {d : Nat} (h : d < 16) : hexValue? (hexDigit d) = some d := by
  have all : ∀ d : Fin 16, hexValue? (hexDigit d.1) = some d.1 := by decide
  exact all ⟨d, h⟩

theorem baseDigit?_hexDigit {d : Nat} (h : d < 16) : baseDigit? 16 (hexDigit d) = some d := by
  simp [baseDigit?, hexValue?_hexDigit h, h]

/-- hexadecimal digits of a fixed width denote the number up to that width -/
theorem ofBaseDigits?_hexDigits (width n : Nat) : ofBaseDigits? 16 (hexDigits width n) = some (n % Nat.pow 16 width) := by
  induction width generalizing n with
  | zero => simp [hexDigits, ofBaseDigits?, Nat.mod_one]
  | succ width ih =>
    have hd : n % 16 < 16 := Nat.mod_lt _ (by decide)
    unfold ofBaseDigits? at ih ⊢
    rw [hexDigits, List.foldlM_append, ih]
    simp only [List.foldlM_cons, List.foldlM_nil, baseDigit?_hexDigit hd, Option.map_some, Option.bind_eq_bind,
      Option.bind_some, Option.pure_def]
    congr 1
    have := Nat.mod_mul (x := n) (a := 16) (b := Nat.pow 16 width)
    rw [show Nat.pow 16 (width + 1) = 16 * Nat.pow 16 width from Nat.pow_succ', this]
    omega

end Number

namespace Uuid

theorem length_hexDigits (width n : Nat) : (hexDigits width n).length = width := by
  induction width generalizing n with
  | zero => rfl
  | succ width ih => simp [hexDigits, ih]

def isHexChar (c : Char) : Bool := c.isDigit || decide (97 ≤ c.toNat ∧ c.toNat ≤ 102)

theorem hexDigits_all (width n : Nat) : ∀ c ∈ hexDigits width n, isHexChar c = true := by
  have all : ∀ d : Fin 16, isHexChar (hexDigit d.1) = true := by decide
  induction width generalizing n with
  | zero => simp [hexDigits]
  | succ width ih =>
    refine append_all (ih _) fun c hc => ?_
    rw [List.mem_singleton.1 hc]
    exact all ⟨n % 16, Nat.mod_lt _ (by decide)⟩

theorem ne_of_isHexChar {c d : Char} (h : isHexChar c = true) (hd : isHexChar d = false) : c ≠ d := by
  rintro rfl
  rw [h] at hd
  cases hd

theorem visible_of_isHexChar {c : Char} (h : isHexChar c = true) : isVisible c = true := by
  simp only [isHexChar, Bool.or_eq_true, decide_eq_true_eq] at h
  rcases h with h | h
  · exact isVisible_of_isDigit h
  · simp only [isVisible, decide_eq_true_eq]; omega

/-- a word with a character that a text lacks does not occur in it -/
theorem without_eq_self {word cs : List Char} {c : Char} (hw : c ∈ word) (hc : c ∉ cs) : without word cs = cs := by
  unfold without
  induction cs with
  | nil => rfl
  | cons d cs ih =>
    have hp : word.isPrefixOf (d :: cs) = false := by
      rw [Bool.eq_false_iff, ne_eq, List.isPrefixOf_iff_prefix]
      intro h
      exact hc (h.subset hw)
    simp only [withoutFrom, hp, Bool.false_eq_true, if_false, ih fun h => hc (List.mem_cons_of_mem d h)]

theorem withoutBraces_eq_self {cs : List Char} (h : ∀ c ∈ cs, c.toNat ≠ 123 ∧ c.toNat ≠ 125) : withoutBraces cs = cs := by
  have stops : ∀ ds : List Char, (∀ c ∈ ds, c ∈ cs) → ds.dropWhile (fun c => c.toNat == 123 || c.toNat == 125) = ds := by
    intro ds hd
    refine dropWhile_of_stops fun c hc => ?_
    obtain ⟨h1, h2⟩ := h c (hd c (List.mem_of_head? hc))
    simp [h1, h2]
  unfold withoutBraces
  dsimp only
  rw [stops cs fun _ h => h, stops cs.reverse fun c hc => List.mem_reverse.1 hc, List.reverse_reverse]

theorem filter_hyphens {cs : List Char} (h : ∀ c ∈ cs, c ≠ '-') : cs.filter (· != '-') = cs :=
  List.filter_eq_self.2 fun c hc => by simpa using h c hc

/-- the digits of the groups are the digits of the number -/
theorem groups_eq (cs : List Char) :
    cs.take 8 ++ ((cs.drop 8).take 4 ++ ((cs.drop 12).take 4 ++ ((cs.drop 16).take 4 ++ cs.drop 20))) = cs := by
  have step : ∀ n, (cs.drop n).take 4 ++ cs.drop (n + 4) = cs.drop n := fun n => by
    rw [← List.drop_drop, List.take_append_drop]
  rw [step 16, step 12, step 8, List.take_append_drop]

theorem filter_text (u : Uuid) : u.text.filter (· != '-') = hexDigits 32 u.value := by
  have hne : ∀ c ∈ hexDigits 32 u.value, c ≠ '-' :=
    fun c hc => ne_of_isHexChar (hexDigits_all 32 u.value c hc) (by decide)
  have ht : ∀ i n, (((hexDigits 32 u.value).drop i).take n).filter (· != '-') = ((hexDigits 32 u.value).drop i).take n :=
    fun i n => filter_hyphens fun c hc => hne c (List.mem_of_mem_drop (List.mem_of_mem_take hc))
  have h0 := ht 0 8
  rw [List.drop_zero] at h0
  have hd : ((hexDigits 32 u.value).drop 20).filter (· != '-') = (hexDigits 32 u.value).drop 20 :=
    filter_hyphens fun c hc => hne c (List.mem_of_mem_drop hc)
  simp only [text, List.filter_append, List.filter_cons, bne_self_eq_false, Bool.false_eq_true, if_false, h0, ht, hd,
    List.append_assoc, groups_eq]

theorem text_chars (u : Uuid) : ∀ c ∈ u.text, isHexChar c = true ∨ c = '-' := by
  intro c hc
  by_cases h : c = '-'
  · exact .inr h
  · refine .inl (hexDigits_all 32 u.value c ?_)
    rw [← filter_text, List.mem_filter]
    exact ⟨hc, by simpa using h⟩

theorem text_visible (u : Uuid) : ∀ c ∈ u.text, isVisible c = true := by
  intro c hc
  rcases text_chars u c hc with h | rfl
  · exact visible_of_isHexChar h
  · decide

theorem not_mem_text {u : Uuid} {c : Char} (h : isHexChar c = false) (h' : c ≠ '-') : c ∉ u.text := by
  intro hc
  rcases text_chars u c hc with hx | rfl
  · rw [hx] at h; cases h
  · exact h' rfl

theorem toLower_ne_of_isHexChar {c : Char} (h : isHexChar c = true) : c.toLower ≠ 'x' := by
  have all : ∀ n : Fin 128, isHexChar (Char.ofNat n.1) = true → (Char.ofNat n.1).toLower ≠ 'x' := by decide
  have hv := visible_of_isHexChar h
  simp only [isVisible, decide_eq_true_eq] at hv
  have := all ⟨c.toNat, by omega⟩
  simp only [Char.ofNat_toNat] at this
  exact this h

/-- a hexadecimal numeral of digits alone denotes what its digits do -/
theorem hexInteger?_hexDigits {width n : Nat} (hw : 0 < width) (hn : n < Nat.pow 16 width) :
    hexInteger? (hexDigits width n) = some (n : Int) := by
  have hall := hexDigits_all width n
  have hvis : ∀ c ∈ hexDigits width n, isVisible c = true := fun c hc => visible_of_isHexChar (hall c hc)
  have hval := ofBaseDigits?_hexDigits width n
  rw [Nat.mod_eq_of_lt hn] at hval
  have hlow : ∀ c ∈ hexDigits width n, c ≠ '_' := fun c hc => ne_of_isHexChar (hall c hc) (by decide)
  obtain ⟨c, cs, hcs⟩ : ∃ c cs, hexDigits width n = c :: cs :=
    List.exists_cons_of_ne_nil fun h => by have := length_hexDigits width n; rw [h] at this; simp at this; omega
  have hsign : takeSign (hexDigits width n) = (false, hexDigits width n) := by
    rw [hcs] at hall ⊢
    have hc := hall c List.mem_cons_self
    exact takeSign_of_ne (ne_of_isHexChar hc (by decide)) (ne_of_isHexChar hc (by decide))
  have hne : (hexDigits width n).isEmpty = false := by rw [hcs]; rfl
  have hread : ((joinDigits? (fun c => (baseDigit? 16 c).isSome) false (hexDigits width n)).bind fun ds =>
      if ds.isEmpty = true then none else Option.map (signed false) (ofBaseDigits? 16 ds)) = some (n : Int) := by
    simp only [joinDigits?_of_no_low _ hlow, Option.bind_some, hne, Bool.false_eq_true, if_false, hval, Option.map_some]
    rfl
  simp only [hexInteger?, baseInteger?, strip_of_visible hvis, mapM_asciiNumeral?_of_visible hvis, Option.bind_eq_bind,
    Option.bind_some, hsign]
  -- a zero and the mark of the base do not open it, since the mark is no digit
  split
  · rename_i x rest heq
    have hx : isHexChar x = true := hall x (by rw [heq]; simp)
    simpa only [toLower_ne_of_isHexChar hx, false_and, if_false, Nat.lt_irrefl, decide_false, Bool.false_and,
      Bool.false_eq_true] using hread
  · simpa only [Nat.lt_irrefl, decide_false, Bool.false_and, Bool.false_eq_true, if_false] using hread

/-- **The text of an identifier reads back.** -/
theorem ofText?_text {u : Uuid} (h : u.value < Nat.pow 2 128) : ofText? u.text = some u := by
  have hcolon : ':' ∉ u.text := not_mem_text (by decide) (by decide)
  have hbraces : ∀ c ∈ u.text, c.toNat ≠ 123 ∧ c.toNat ≠ 125 := by
    intro c hc
    rcases text_chars u c hc with hx | rfl
    · have := visible_of_isHexChar hx
      simp only [isHexChar, Bool.or_eq_true, decide_eq_true_eq] at hx
      rcases hx with hx | hx
      · exact ⟨fun e => absurd hx (by rw [← Char.ofNat_toNat c, e]; decide),
          fun e => absurd hx (by rw [← Char.ofNat_toNat c, e]; decide)⟩
      · omega
    · decide
  have hn : hexInteger? (hexDigits 32 u.value) = some (u.value : Int) :=
    hexInteger?_hexDigits (by decide) (by simpa using h)
  have hr : (0 : Int) ≤ u.value ∧ (u.value : Int) < Nat.pow 2 128 := ⟨Int.natCast_nonneg _, Int.ofNat_lt.2 h⟩
  have hhex : (withoutBraces (without "uuid:".toList (without "urn:".toList u.text))).filter (· != '-') =
      hexDigits 32 u.value := by
    rw [without_eq_self (by decide) hcolon, without_eq_self (by decide) hcolon, withoutBraces_eq_self hbraces,
      filter_text]
  unfold ofText?
  rw [hhex, if_neg (by rw [length_hexDigits]; exact fun h => h rfl), hn, Option.bind_eq_bind, Option.bind_some, if_pos hr]
  rfl

/-- an identifier that is read has no more bits than an identifier has -/
theorem lt_of_ofText? {cs : List Char} {u : Uuid} (h : ofText? cs = some u) : u.value < Nat.pow 2 128 := by
  unfold ofText? at h
  dsimp only at h
  split at h
  · cases h
  · obtain ⟨n, -, h⟩ := Option.bind_eq_some_iff.1 h
    obtain ⟨⟨hn, hlt⟩, h⟩ := Option.ite_none_right_eq_some.1 h
    cases h
    exact (Int.toNat_lt hn).2 hlt

end Uuid

/-! ## Casting -/

/-- a default that a built-in type keeps: it is of the type itself, can be written, and holds plain data if it
holds anything -/
inductive KeptBy : ValueType → Value → Prop where
  | text (s : String) : KeptBy .text (.text s)
  | integer {n : Int} (h : (intText? n).isSome) : KeptBy .integer (.int n)
  | float {x : Binary64} (hf : x.isFinite = true) (hc : x.Canonical) : KeptBy .float (.float x)
  | decimal {d : Decimal} (h : d.InRange) : KeptBy .decimal (.decimal d)
  | boolean (b : Bool) : KeptBy .boolean (.bool b)
  | date {d : Date} (h : d.Valid) : KeptBy .date (.date d)
  | moment {m : Moment} (hd : m.date.Valid) (ht : m.time.Valid) (hl : m.time.Legible) : KeptBy .moment (.moment m)
  | time {t : Time} (ht : t.Valid) (hl : t.Legible) : KeptBy .time (.time t)
  | uuid {u : Uuid} (h : u.value < Nat.pow 2 128) : KeptBy .uuid (.uuid u)
  | array {xs : List Value} (h : (Value.list xs).Plain) : KeptBy .array (.list xs)
  | hash {es : List (Value × Value)} (h : (Value.map false es).Plain) : KeptBy .hash (.map false es)

/-- the blanks around a text are taken off before it is cast; visible characters are none -/
theorem stripped_of_visible {cs : List Char} (h : ∀ c ∈ cs, isVisible c = true) :
    Cast.stripped (String.ofList cs) = cs := by
  rw [Cast.stripped, String.toList_ofList, strip_of_visible h]

theorem Date.text_dashed (d : Date) : ∀ c ∈ d.text, c.isDigit = true ∨ c = '-' := by
  intro c hc
  simp only [Date.text, List.mem_append, List.mem_cons] at hc
  rcases hc with (hc | rfl | hc) | rfl | hc
  · exact .inl (Date.padded_all _ _ c hc)
  · exact .inr rfl
  · exact .inl (Date.padded_all _ _ c hc)
  · exact .inr rfl
  · exact .inl (Date.padded_all _ _ c hc)

/-- no moment is written with a `Z`, if nothing of the kind stands between its parts -/
theorem not_zulu_of_mem_text {separator : Char} (hs : ¬ (separator = 'Z' ∨ separator = 'z')) {m : Moment} {c : Char}
    (hc : c ∈ m.textWith separator) : ¬ (c = 'Z' ∨ c = 'z') := by
  have digit : c.isDigit = true → ¬ (c = 'Z' ∨ c = 'z') := by
    rintro h (rfl | rfl) <;> exact absurd h (by decide)
  have clock : Time.isClockChar c = true → ¬ (c = 'Z' ∨ c = 'z') := by
    rintro h (rfl | rfl) <;> exact absurd h (by decide)
  simp only [Moment.textWith, List.mem_append, List.mem_cons, Time.text_eq] at hc
  rcases hc with hc | rfl | hc | hc
  · rcases Date.text_dashed _ c hc with h | rfl
    · exact digit h
    · decide
  · exact hs
  · exact clock (Time.isClockChar_clockPart _ c hc)
  · cases ho : m.time.offset with
    | none => simp [ho] at hc
    | some o =>
      rw [ho, Option.map_some, Option.getD_some, Time.offsetText_eq] at hc
      rcases List.mem_cons.1 hc with rfl | hc
      · split <;> decide
      · exact clock (Time.isClockChar_offsetPart o c hc)

theorem zuluAsOffset_textWith {separator : Char} (hs : ¬ (separator = 'Z' ∨ separator = 'z')) (m : Moment) :
    Cast.zuluAsOffset (m.textWith separator) = m.textWith separator := by
  unfold Cast.zuluAsOffset
  split
  · rename_i c rest heq
    exact if_neg (not_zulu_of_mem_text hs (List.mem_reverse.1 (heq ▸ List.mem_cons_self)))
  · rename_i heq
    rw [List.reverse_eq_nil_iff] at heq
    exact heq.symm

theorem strip_textWith (separator : Char) (m : Moment) : strip (m.textWith separator) = m.textWith separator := by
  obtain ⟨c, cs, hdate⟩ : ∃ c cs, m.date.text = c :: cs := List.exists_cons_of_ne_nil (by simp [Date.text])
  have htime : m.time.text ≠ [] := by simp [Time.text]
  refine strip_eq_self (fun d hd => ?_) fun d hd => ?_
  · rw [Moment.textWith, hdate, List.cons_append, List.head?_cons] at hd
    cases hd
    exact not_blank_of_visible (m.date.text_visible c (hdate ▸ List.mem_cons_self))
  · rw [Moment.textWith, List.getLast?_append_of_ne_nil _ (List.cons_ne_nil _ _),
      List.getLast?_cons_of_ne_nil htime] at hd
    exact not_blank_of_visible (Iso.visible_text m.time d (List.mem_of_getLast? hd))

/-- a moment is cast from its text as the text is read, whatever character but a `Z` stands between its date and its
time -/
theorem Cast.toMoment_eq_asRead {separator : Char} (hs : ¬ (separator = 'Z' ∨ separator = 'z')) {m : Moment}
    (hd : m.date.Valid)
    (ht : m.time.Valid) : Cast.toMoment (.text (String.ofList (m.textWith separator))) = .ok (.moment m.asRead) := by
  simp only [Cast.toMoment, Cast.stripped, String.toList_ofList, strip_textWith, zuluAsOffset_textWith hs,
    Iso.moment?_eq_asRead separator hd ht, Option.map_some, Cast.orBad]

/-- **A moment is cast from its text**, whatever character but a `Z` stands between its date and its time. -/
theorem Cast.toMoment_textWith {separator : Char} (hs : ¬ (separator = 'Z' ∨ separator = 'z')) {m : Moment}
    (hd : m.date.Valid)
    (ht : m.time.Valid) (hl : m.time.Legible) :
    Cast.toMoment (.text (String.ofList (m.textWith separator))) = .ok (.moment m) := by
  rw [toMoment_eq_asRead hs hd ht, Moment.asRead_eq_self.2 hl]

theorem Cast.toTime_eq_asRead {t : Time} (ht : t.Valid) :
    Cast.toTime (.text (String.ofList t.text)) = .ok (.time t.asRead) := by
  simp only [Cast.toTime, stripped_of_visible (Iso.visible_text t), Iso.time?_eq_asRead ht, Option.map_some, Cast.orBad]

theorem Cast.toDecimal_text {d : Decimal} (h : d.InRange) :
    Cast.toDecimal (.text (String.ofList d.text)) = .ok (.decimal d) := by
  have hf : d.isFinite = true := by
    cases d with
    | finite s c e => rfl
    | _ => exact absurd h id
  simp only [Cast.toDecimal, String.toList_ofList, Decimal.ofText?_text h, Cast.orBad, Outcome.ok_bind, hf, if_true]

theorem Cast.toDate_text {d : Date} (h : d.Valid) : Cast.toDate (.text (String.ofList d.text)) = .ok (.date d) := by
  simp only [Cast.toDate, stripped_of_visible d.text_visible, Iso.date?_text h, Option.map_some, Cast.orBad]

theorem Cast.toUuid_text {u : Uuid} (h : u.value < Nat.pow 2 128) :
    Cast.toUuid (.text (String.ofList u.text)) = .ok (.uuid u) := by
  simp only [Cast.toUuid, stripped_of_visible (Uuid.text_visible u), Uuid.ofText?_text h, Option.map_some, Cast.orBad]

/-- a value that the converter of a built-in type takes is cast -/
theorem builtin_cast_of_convert {t : ValueType} {name : String} {convert : Value → Outcome Value} {v w : Value}
    (ht : Registry.builtin.casterOf? t = some ⟨name, convert, Registry.defaultMessage name⟩) (h : convert v = .ok w) :
    Registry.builtin.cast t false v = .ok (.ok w) := by
  simp only [Registry.cast, Registry.casterOf, ht, Option.isNone_some, Bool.false_and, Bool.false_eq_true, if_false,
    Registry.convertWith, h]

/-- **A default is cast back from its plain form**, which is plain data. -/
theorem KeptBy.cast_canonical {t : ValueType} {v : Value} (h : KeptBy t v) :
    ∃ c, v.canonical = .ok c ∧ c.Plain ∧ Registry.builtin.cast t false c = .ok (.ok v) := by
  cases h with
  | text s => exact ⟨_, rfl, .text s, builtin_cast_of_convert rfl rfl⟩
  | integer h => exact ⟨_, rfl, .int h, builtin_cast_of_convert rfl rfl⟩
  | @float x hf hc => exact ⟨_, rfl, .float hf hc, builtin_cast_of_convert rfl (if_pos hf)⟩
  | decimal h => exact ⟨_, rfl, .text _, builtin_cast_of_convert rfl (Cast.toDecimal_text h)⟩
  | boolean b => exact ⟨_, rfl, .bool b, builtin_cast_of_convert rfl rfl⟩
  | date h => exact ⟨_, rfl, .text _, builtin_cast_of_convert rfl (Cast.toDate_text h)⟩
  | moment hd ht hl => exact ⟨_, rfl, .text _, builtin_cast_of_convert rfl (Cast.toMoment_textWith (by decide) hd ht hl)⟩
  | @time t ht hl =>
    have hcast : Cast.toTime (.text (String.ofList t.text)) = .ok (.time t) := by
      rw [Cast.toTime_eq_asRead ht, Time.asRead_eq_self.2 hl]
    exact ⟨_, rfl, .text _, builtin_cast_of_convert rfl hcast⟩
  | uuid h => exact ⟨_, rfl, .text _, builtin_cast_of_convert rfl (Cast.toUuid_text h)⟩
  | array h => exact ⟨_, h.canonical_eq, h, builtin_cast_of_convert rfl rfl⟩
  | hash h => exact ⟨_, h.canonical_eq, h, builtin_cast_of_convert rfl rfl⟩

end Intake
