/-
Dates, times and moments read back: the canonical text of each, which ISO 8601 gives, denotes it again
(`Iso.date?_text`, `Iso.time?_eq_asRead`, `Iso.moment?_eq_asRead`), and so does a moment with another character between
its date and its time.

An offset of less than a second is the one exception: it is written, and read as none at all, since a reader
takes an offset without whole seconds for zero (`Time.asRead`). So whatever is read can be read again
(`Iso.valid_of_date?`, `Iso.valid_of_time?`, `Iso.valid_of_moment?`), and a moment of a timestamp can be read
(`Moment.valid_of_ofSeconds?`).
-/
import Intake.Calendar.Iso
import Intake.Proofs.Numerals

namespace Intake.Calendar

open Intake.Text Intake.Number

/-! ## Numbers of a fixed width -/

namespace Date

theorem length_digits_le {n w : Nat} (hw : 0 < w) (h : n < Nat.pow 10 w) : (digits n).length ≤ w :=
  (Nat.length_toDigits_le_iff (by decide) hw).2 h

theorem padded_length {n w : Nat} (hw : 0 < w) (h : n < Nat.pow 10 w) : (padded w n).length = w := by
  have := length_digits_le hw h
  simp only [padded, List.length_append, List.length_replicate]
  omega

theorem padded_all (w n : Nat) : ∀ c ∈ padded w n, c.isDigit = true := append_all (zeros_all _) (digits_all n)

theorem ofDigits_padded (w n : Nat) : ofDigits (padded w n) = n := by
  rw [padded, ofDigits_zeros (digits_all n), ofDigits_digits]

end Date

namespace Iso

/-- a number of a fixed width is taken from the front of a text -/
theorem takeNumber?_padded {n w : Nat} (hw : 0 < w) (h : n < Nat.pow 10 w) (rest : List Char) :
    takeNumber? w (Date.padded w n ++ rest) = some (n, rest) := by
  have hl := Date.padded_length hw h
  have ha : (Date.padded w n).all Char.isDigit = true := List.all_eq_true.2 (Date.padded_all w n)
  simp only [takeNumber?, List.take_left' hl, List.drop_left' hl, hl, ha, and_self, if_true, Date.ofDigits_padded]

theorem takeNumber?_four {n : Nat} (h : n < 10000) (rest : List Char) :
    takeNumber? 4 (Date.padded 4 n ++ rest) = some (n, rest) := takeNumber?_padded (by decide) h rest

theorem takeNumber?_two {n : Nat} (h : n < 100) (rest : List Char) :
    takeNumber? 2 (Date.padded 2 n ++ rest) = some (n, rest) := takeNumber?_padded (by decide) h rest

theorem takeNumber?_six {n : Nat} (h : n < 1000000) : takeNumber? 6 (Date.padded 6 n) = some (n, []) := by
  have := takeNumber?_padded (w := 6) (by decide) h []
  rwa [List.append_nil] at this

/-! ## Dates -/

theorem monthLength_le (year i : Nat) : (monthLengths year).getD i 0 ≤ 31 := by
  unfold monthLengths
  split <;> (rcases i with _ | _ | _ | _ | _ | _ | _ | _ | _ | _ | _ | _ | i <;> simp)

/-- a date with hyphens is taken from the front of a text -/
theorem takeDate?_text {d : Date} (h : d.Valid) (length : Nat) (rest : List Char) :
    takeDate? length (d.text ++ rest) = some d := by
  obtain ⟨-, hy, -, hm, -, hd⟩ := id h
  have hday : d.day < 100 := by have := monthLength_le d.year (d.month - 1); omega
  have h0 : ∀ cs, ('-' :: (Date.padded 2 d.month ++ cs)).head? = some '-' := fun _ => rfl
  have hne : (Date.padded 2 d.month ++ '-' :: (Date.padded 2 d.day ++ rest)).head? ≠ some 'W' := by
    intro hw
    have hn : Date.padded 2 d.month ≠ [] := by
      intro hnil
      have := Date.padded_length (n := d.month) (w := 2) (by decide) (show d.month < 100 by omega)
      simp [hnil] at this
    obtain ⟨c, cs, hc⟩ := List.exists_cons_of_ne_nil hn
    have hdig := Date.padded_all 2 d.month c (hc ▸ List.mem_cons_self)
    rw [hc] at hw
    simp only [List.cons_append, List.head?_cons, Option.some.injEq] at hw
    subst hw
    exact absurd hdig (by decide)
  unfold takeDate?
  simp only [Date.text, List.append_assoc, List.cons_append, takeNumber?_four (show d.year < 10000 by omega),
    Option.bind_eq_bind, Option.bind_some, h0, if_true, List.drop_succ_cons, List.drop_zero, hne, if_false,
    takeNumber?_two (show d.month < 100 by omega), expect?, takeNumber?_two hday]
  exact if_pos h

theorem utf8Size_of_visible {c : Char} (h : isVisible c = true) : c.utf8Size = 1 := by
  simp only [isVisible, decide_eq_true_eq] at h
  rw [Char.utf8Size, if_pos]
  rw [UInt32.le_iff_toNat_le]
  exact (show c.toNat ≤ 127 by omega)

theorem byteLength_append (cs ds : List Char) : byteLength (cs ++ ds) = byteLength cs + byteLength ds := by
  have counted (n : Nat) (cs : List Char) : cs.foldl (fun n c => n + c.utf8Size) n = n + byteLength cs := by
    unfold byteLength
    induction cs generalizing n with
    | nil => rfl
    | cons c cs ih => rw [List.foldl_cons, List.foldl_cons, ih, ih (0 + _), Nat.zero_add, Nat.add_assoc]
  rw [byteLength, List.foldl_append, counted]
  rfl

theorem byteLength_of_visible {cs : List Char} (h : ∀ c ∈ cs, isVisible c = true) : byteLength cs = cs.length := by
  induction cs with
  | nil => rfl
  | cons c cs ih =>
    obtain ⟨hc, hcs⟩ := List.forall_mem_cons.1 h
    rw [← List.singleton_append, byteLength_append, ih hcs, List.length_append]
    exact congrArg (· + cs.length) ((Nat.zero_add _).trans (utf8Size_of_visible hc))

end Iso

theorem visible_padded (w n : Nat) : ∀ c ∈ Date.padded w n, isVisible c = true :=
  fun c hc => isVisible_of_isDigit (Date.padded_all w n c hc)

theorem visible_cons {c : Char} {cs : List Char} (hc : isVisible c = true) (h : ∀ x ∈ cs, isVisible x = true) :
    ∀ x ∈ c :: cs, isVisible x = true := by
  intro x hx
  rcases List.mem_cons.1 hx with rfl | hx
  · exact hc
  · exact h x hx

theorem Date.text_visible (d : Date) : ∀ c ∈ d.text, isVisible c = true :=
  append_all (append_all (visible_padded _ _) (visible_cons (by decide) (visible_padded _ _)))
    (visible_cons (by decide) (visible_padded _ _))

theorem Date.length_text {d : Date} (h : d.Valid) : d.text.length = 10 := by
  obtain ⟨-, hy, -, hm, -, hd⟩ := h
  have hday : d.day < 100 := by have := Iso.monthLength_le d.year (d.month - 1); omega
  simp only [Date.text, List.length_append, List.length_cons,
    Date.padded_length (w := 4) (by decide) (show d.year < 10000 by omega),
    Date.padded_length (w := 2) (by decide) (show d.month < 100 by omega), Date.padded_length (w := 2) (by decide) hday]

/-- **The text of a date reads back.** -/
theorem Iso.date?_text {d : Date} (h : d.Valid) : Iso.date? d.text = some d := by
  have hl : byteLength d.text = 10 := (byteLength_of_visible d.text_visible).trans (Date.length_text h)
  have := takeDate?_text h 10 []
  rw [List.append_nil] at this
  simp [date?, hl, this]

/-! ## Times -/

def microText (micro : Nat) : List Char := if micro = 0 then [] else '.' :: Date.padded 6 micro

namespace Iso

theorem headD_colon (rest : List Char) (next : Char) : (':' :: rest).headD next = ':' := rfl

/-- a pair of digits before a colon; the first colon tells that there are colons -/
theorem clockFrom_pair {n : Nat} (hn : n < 100) (next : Char) (left : Nat) {isFirst colons : Bool}
    (hc : isFirst = true ∨ colons = true) (pairs : List Nat) {rest : List Char} (hr : rest ≠ []) :
    clockFrom next (left + 1) isFirst colons pairs (Date.padded 2 n ++ ':' :: rest) =
      clockFrom next left false true (pairs ++ [n]) rest := by
  have hlen : ¬ (':' :: rest).length ≤ 1 := by
    have := List.length_pos_iff.2 hr
    simp only [List.length_cons]
    omega
  have hcolons : (if isFirst = true then true else colons) = true := by rcases hc with h | h <;> simp [h]
  simp only [clockFrom, takeNumber?_two hn, Option.bind_eq_bind, Option.bind_some, headD_colon, beq_self_eq_true,
    hcolons, hlen, if_false, Bool.and_self, if_true, List.drop_succ_cons, List.drop_zero]

/-- the last pair of digits, with a fraction where there is one -/
theorem clockFrom_last {n micro : Nat} (hn : n < 100) (hm : micro < 1000000) (next : Char) (left : Nat)
    (pairs : List Nat) :
    clockFrom next (left + 1) false true pairs (Date.padded 2 n ++ microText micro) =
      some (pairs ++ [n], micro, next != endMark) := by
  by_cases h0 : micro = 0
  · have := takeNumber?_two hn []
    rw [List.append_nil] at this
    simp [clockFrom, microText, h0, this]
  · have hl := Date.padded_length (w := 6) (by decide) (show micro < Nat.pow 10 6 from hm)
    have hlen : ¬ ('.' :: Date.padded 6 micro).length ≤ 1 := by simp only [List.length_cons]; omega
    have hf : fraction? (Date.padded 6 micro) next = some (micro, next != endMark) := by
      simp [fraction?, hl, takeNumber?_six hm]
    simp only [clockFrom, microText, h0, if_false, takeNumber?_two hn, Option.bind_eq_bind, Option.bind_some,
      List.headD_cons, hlen, List.drop_succ_cons, List.drop_zero, hf]
    rfl

theorem padded_ne_nil (w n : Nat) : Date.padded w n ≠ [] := by
  simp [Date.padded, digits_nonempty]

theorem clock?_minutes {h m : Nat} (hh : h < 100) (hm : m < 100) (next : Char) :
    clock? (Date.padded 2 h ++ ':' :: Date.padded 2 m) next = some ⟨h, m, 0, 0, next != endMark⟩ := by
  have hlast := clockFrom_last hm (show 0 < 1000000 by decide) next 1 [h]
  simp only [microText, if_true, List.append_nil] at hlast
  simp only [clock?, clockFrom_pair hh next 2 (.inl rfl) [] (padded_ne_nil 2 m), List.nil_append, hlast,
    Option.bind_eq_bind,
    Option.bind_some]
  rfl

/-- hours, minutes and seconds, with a fraction where there is one -/
theorem clock?_seconds {h m s micro : Nat} (hh : h < 100) (hm : m < 100) (hs : s < 100) (hu : micro < 1000000)
    (next : Char) :
    clock? (Date.padded 2 h ++ ':' :: (Date.padded 2 m ++ ':' :: (Date.padded 2 s ++ microText micro))) next =
      some ⟨h, m, s, micro, next != endMark⟩ := by
  have hs' : Date.padded 2 s ++ microText micro ≠ [] := fun h => padded_ne_nil 2 s (List.append_eq_nil_iff.1 h).1
  have hm' : Date.padded 2 m ++ ':' :: (Date.padded 2 s ++ microText micro) ≠ [] :=
    fun h => padded_ne_nil 2 m (List.append_eq_nil_iff.1 h).1
  simp only [clock?, clockFrom_pair hh next 2 (.inl rfl) [] hm', clockFrom_pair hm next 1 (.inr rfl) _ hs',
    clockFrom_last hs hu, Option.bind_eq_bind, Option.bind_some]
  rfl

end Iso

namespace Time

/-- a time whose text tells its offset: an offset that is not zero has at least one whole second -/
def Legible (t : Time) : Prop := ∀ o, t.offset = some o → o = 0 ∨ microsPerSecond ≤ o.natAbs

instance (t : Time) : Decidable t.Legible := by
  cases h : t.offset with
  | none => exact isTrue (by intro o ho; rw [h] at ho; cases ho)
  | some o => exact decidable_of_iff (o = 0 ∨ microsPerSecond ≤ o.natAbs) (by simp [Legible, h])

/-- an offset as its text is read: less than a second is read as nothing -/
def offsetAsRead (o : Int) : Int := if o.natAbs < microsPerSecond then 0 else o

def asRead (t : Time) : Time := { t with offset := t.offset.map offsetAsRead }

/-- the times that are read as they are written are those whose text tells the offset -/
theorem asRead_eq_self {t : Time} : t.asRead = t ↔ t.Legible := by
  obtain ⟨hour, minute, second, micro, offset⟩ := t
  cases offset with
  | none => simp [asRead, Legible]
  | some o =>
    simp only [asRead, Legible, Option.map_some, mk.injEq, Option.some.injEq, true_and, forall_eq', offsetAsRead]
    split <;> omega

theorem Valid.asRead {t : Time} (h : t.Valid) : t.asRead.Valid := by
  obtain ⟨hh, hm, hs, hu, ho⟩ := h
  refine ⟨hh, hm, hs, hu, ?_⟩
  unfold Time.asRead
  dsimp only
  cases hoffset : t.offset with
  | none => rfl
  | some o =>
    rw [hoffset] at ho
    show offsetInRange (offsetAsRead o) = true
    unfold offsetAsRead
    split
    · decide
    · exact ho

def clockPart (t : Time) : List Char :=
  Date.padded 2 t.hour ++ ':' :: (Date.padded 2 t.minute ++ ':' :: (Date.padded 2 t.second ++ microText t.micro))

theorem text_eq (t : Time) : t.text = t.clockPart ++ (t.offset.map offsetText).getD [] := by
  simp [text, clockPart, microText]

def isClockChar (c : Char) : Bool := c.isDigit || c == ':' || c == '.'

theorem isClockChar_padded (w n : Nat) : ∀ c ∈ Date.padded w n, isClockChar c = true :=
  fun c hc => by simp [isClockChar, Date.padded_all w n c hc]

theorem isClockChar_cons {x : Char} {cs : List Char} (hx : isClockChar x = true) (h : ∀ c ∈ cs, isClockChar c = true) :
    ∀ c ∈ x :: cs, isClockChar c = true := by
  intro c hc
  rcases List.mem_cons.1 hc with rfl | hc
  · exact hx
  · exact h c hc

theorem isClockChar_microText (micro : Nat) : ∀ c ∈ microText micro, isClockChar c = true := by
  unfold microText
  split
  · simp
  · exact isClockChar_cons (by decide) (isClockChar_padded 6 micro)

theorem isClockChar_clockPart (t : Time) : ∀ c ∈ t.clockPart, isClockChar c = true :=
  append_all (isClockChar_padded _ _) (isClockChar_cons (by decide) (append_all (isClockChar_padded _ _)
    (isClockChar_cons (by decide) (append_all (isClockChar_padded _ _) (isClockChar_microText _)))))

theorem visible_of_isClockChar {c : Char} (h : isClockChar c = true) : isVisible c = true := by
  simp only [isClockChar, Bool.or_eq_true, beq_iff_eq] at h
  rcases h with (h | rfl) | rfl
  · exact isVisible_of_isDigit h
  all_goals decide

theorem not_opensOffset_of_isClockChar {c : Char} (h : isClockChar c = true) : Iso.opensOffset c = false := by
  unfold Iso.opensOffset
  simp only [Bool.or_eq_false_iff, beq_eq_false_iff_ne]
  refine ⟨⟨?_, ?_⟩, ?_⟩ <;> rintro rfl <;> exact absurd h (by decide)

def offsetPart (o : Int) : List Char :=
  let micro := o.natAbs % microsPerSecond
  let seconds := o.natAbs / microsPerSecond
  Date.padded 2 (seconds / 3600) ++ ':' :: (Date.padded 2 (seconds / 60 % 60) ++
    if seconds % 60 = 0 ∧ micro = 0 then [] else ':' :: (Date.padded 2 (seconds % 60) ++ microText micro))

theorem offsetText_eq (o : Int) : offsetText o = (if o < 0 then '-' else '+') :: offsetPart o := by
  unfold offsetText offsetPart microText
  by_cases hm : o.natAbs % microsPerSecond = 0
  · by_cases hs : o.natAbs / microsPerSecond % 60 = 0 <;> simp [hm, hs]
  · simp [hm]

theorem isClockChar_offsetPart (o : Int) : ∀ c ∈ offsetPart o, isClockChar c = true := by
  refine append_all (isClockChar_padded _ _) (isClockChar_cons (by decide) (append_all (isClockChar_padded _ _) ?_))
  split
  · simp
  · exact isClockChar_cons (by decide) (append_all (isClockChar_padded _ _) (isClockChar_microText _))

/-- an offset reads back, but for one of less than a second, which is read as none at all -/
theorem offset?_offsetPart {o : Int} (hr : offsetInRange o = true) :
    Iso.offset? (decide (o < 0)) (offsetPart o) = some (offsetAsRead o) := by
  have hr : o.natAbs < 86400000000 := of_decide_eq_true hr
  have hclock : ∃ c : Iso.Clock, Iso.clock? (offsetPart o) Iso.endMark = some c ∧ c.early = false ∧
      c.hour * 3600 + c.minute * 60 + c.second = o.natAbs / microsPerSecond ∧ c.micro = o.natAbs % microsPerSecond := by
    unfold offsetPart
    dsimp only
    by_cases h0 : o.natAbs / microsPerSecond % 60 = 0 ∧ o.natAbs % microsPerSecond = 0
    · rw [if_pos h0, List.append_nil]
      refine ⟨_, Iso.clock?_minutes ?_ ?_ _, by simp, ?_, h0.2.symm⟩
      all_goals simp only [microsPerSecond] at *; omega
    · rw [if_neg h0]
      refine ⟨_, Iso.clock?_seconds ?_ ?_ ?_ ?_ _, by simp, ?_, rfl⟩
      all_goals simp only [microsPerSecond] at *; omega
  obtain ⟨c, hc, hearly, hsec, hmicro⟩ := hclock
  simp only [Iso.offset?, hc, Option.bind_eq_bind, Option.bind_some, hearly, Bool.false_eq_true, if_false, hsec, hmicro]
  unfold offsetAsRead
  by_cases h0 : o.natAbs < microsPerSecond
  · rw [if_pos h0, if_pos (Nat.div_eq_of_lt h0)]
  · have hsome : o.natAbs / microsPerSecond ≠ 0 :=
      Nat.ne_of_gt (Nat.div_pos (Nat.not_lt.1 h0) (by decide))
    rw [if_neg h0, if_neg hsome, Nat.div_add_mod', signed_natAbs]

end Time

namespace Iso

open Time

theorem clock?_clockPart {t : Time} (h : t.Valid) (next : Char) :
    clock? t.clockPart next = some ⟨t.hour, t.minute, t.second, t.micro, next != endMark⟩ := by
  obtain ⟨hh, hm, hs, hu, -⟩ := h
  exact clock?_seconds (by omega) (by omega) (by omega) hu next

theorem clockPart_cut (t : Time) {rest : List Char} (hr : Stops (!opensOffset ·) rest) :
    (t.clockPart ++ rest).takeWhile (!opensOffset ·) = t.clockPart ∧
      (t.clockPart ++ rest).dropWhile (!opensOffset ·) = rest := by
  have hc : ∀ c ∈ t.clockPart, (!opensOffset c) = true := fun c hc => by
    rw [not_opensOffset_of_isClockChar (isClockChar_clockPart t c hc)]; rfl
  exact ⟨takeWhile_append_of_stops hc hr, dropWhile_append_of_stops hc hr⟩

/-- the text of a time is read, and its offset with it if it has a whole second -/
theorem timePart?_text {t : Time} (h : t.Valid) : timePart? t.text = some t.asRead := by
  have hmake := h.asRead
  rw [text_eq]
  obtain ⟨hour, minute, second, micro, offset⟩ := t
  cases offset with
  | none =>
    obtain ⟨htake, hdrop⟩ := clockPart_cut ⟨hour, minute, second, micro, none⟩ stops_nil
    simp only [Option.map_none, Option.getD_none, timePart?, htake, hdrop, clock?_clockPart h, Option.bind_eq_bind,
      Option.bind_some, bne_self_eq_false, Bool.false_eq_true, if_false]
    exact if_pos hmake
  | some o =>
    have hstop : Stops (!opensOffset ·) (offsetText o) := by
      rw [offsetText_eq]
      refine stops_cons ?_
      split <;> decide
    obtain ⟨htake, hdrop⟩ := clockPart_cut ⟨hour, minute, second, micro, some o⟩ hstop
    have ho := offset?_offsetPart (o := o) h.2.2.2.2
    simp only [Option.map_some, Option.getD_some, timePart?, htake, hdrop, clock?_clockPart h, Option.bind_eq_bind,
      Option.bind_some]
    rw [offsetText_eq]
    by_cases hneg : o < 0
    · simp only [hneg, if_true, decide_true] at ho ⊢
      simp only [show ¬ ('-' = 'Z') from by decide, if_false, ho, Option.bind_some]
      exact if_pos hmake
    · simp only [hneg, if_false, decide_false] at ho ⊢
      simp only [show ¬ ('+' = 'Z') from by decide, show ¬ ('+' = '-') from by decide, if_false, decide_false, ho,
        Option.bind_some]
      exact if_pos hmake

/-- the text of a time is read as a time from its whole text, which no `T` opens -/
theorem time?_eq_asRead {t : Time} (h : t.Valid) : time? t.text = some t.asRead := by
  have hpart := timePart?_text h
  obtain ⟨c, rest, hc, hd⟩ : ∃ c rest, t.text = c :: rest ∧ c.isDigit = true := by
    obtain ⟨c, cs, hcs⟩ := List.exists_cons_of_ne_nil (padded_ne_nil 2 t.hour)
    have hd : c.isDigit = true := Date.padded_all 2 t.hour c (by rw [hcs]; exact List.mem_cons_self)
    rw [text_eq, clockPart, hcs]
    exact ⟨c, _, rfl, hd⟩
  rw [hc] at hpart ⊢
  unfold time?
  split
  · rename_i heq
    obtain ⟨rfl, -⟩ := List.cons.inj heq
    exact absurd hd (by decide)
  · exact hpart

theorem visible_text (t : Time) : ∀ c ∈ t.text, isVisible c = true := by
  rw [text_eq]
  refine append_all (fun c hc => visible_of_isClockChar (isClockChar_clockPart t c hc)) ?_
  cases t.offset with
  | none => simp
  | some o =>
    rw [Option.map_some, Option.getD_some, offsetText_eq]
    refine visible_cons ?_ fun c hc => visible_of_isClockChar (isClockChar_offsetPart o c hc)
    split <;> decide

end Iso

/-! ## Moments -/

/-- the date of a text that opens with a date and hyphens ends after ten characters -/
theorem Iso.dateEnd?_text {d : Date} (h : d.Valid) {rest : List Char} (hn : byteLength (d.text ++ rest) ≠ 7) :
    dateEnd? (d.text ++ rest) = some 10 := by
  obtain ⟨a, b, c, e, hy⟩ : ∃ a b c e, Date.padded 4 d.year = [a, b, c, e] := by
    have hl := Date.padded_length (w := 4) (by decide) (show d.year < 10000 by have := h.2.1; omega)
    match Date.padded 4 d.year, hl with
    | [a, b, c, e], _ => exact ⟨a, b, c, e, rfl⟩
  obtain ⟨m, ms, hm⟩ := List.exists_cons_of_ne_nil (padded_ne_nil 2 d.month)
  have hm' : m ≠ 'W' := by
    rintro rfl
    exact absurd (Date.padded_all 2 d.month 'W' (hm ▸ List.mem_cons_self)) (by decide)
  have htext : d.text ++ rest = a :: b :: c :: e :: '-' :: m :: (ms ++ '-' :: Date.padded 2 d.day ++ rest) := by
    simp [Date.text, hy, hm]
  rw [htext] at hn ⊢
  simp only [dateEnd?, hn, if_false, List.getD_cons_succ, List.getD_cons_zero, hm', if_true]

def Moment.asRead (m : Moment) : Moment := { m with time := m.time.asRead }

theorem Moment.asRead_eq_self {m : Moment} : m.asRead = m ↔ m.time.Legible := by
  rw [← Time.asRead_eq_self]
  obtain ⟨date, time⟩ := m
  simp [asRead]

/-- a moment is read, whatever character stands between its date and its time -/
theorem Iso.moment?_eq_asRead (separator : Char) {m : Moment} (hd : m.date.Valid) (ht : m.time.Valid) :
    Iso.moment? (m.textWith separator) = some m.asRead := by
  have hlen := Date.length_text hd
  have hbytes : byteLength (m.textWith separator) = 10 + byteLength (separator :: m.time.text) := by
    rw [Moment.textWith, byteLength_append, byteLength_of_visible m.date.text_visible, hlen]
  have hseparator : 0 < byteLength (separator :: m.time.text) := by
    rw [← List.singleton_append, byteLength_append]
    exact Nat.add_pos_left (show 0 < 0 + separator.utf8Size by have := separator.utf8Size_pos; omega) _
  have hstop : dateEnd? (m.textWith separator) = some 10 := dateEnd?_text hd (by rw [← Moment.textWith, hbytes]; omega)
  have hdate : takeDate? 10 (m.textWith separator) = some m.date := takeDate?_text hd 10 _
  have hdrop : (m.textWith separator).drop 11 = m.time.text := by
    rw [Moment.textWith, show 11 = m.date.text.length + 1 by rw [hlen], List.drop_append]
    simp
  have hlong : 10 < (m.textWith separator).length := by
    rw [Moment.textWith, List.length_append, List.length_cons, hlen]; omega
  have h7 : ¬ byteLength (m.textWith separator) < 7 := by omega
  simp only [moment?, h7, if_false, hstop, hdate, hlong, if_true, hdrop, timePart?_text ht, Option.bind_eq_bind,
    Option.bind_some, Moment.asRead]

/-! ## What is read -/

theorem Date.valid_of_make? {year month day : Nat} {d : Date} (h : make? year month day = some d) : d.Valid := by
  obtain ⟨hv, h⟩ := Option.ite_none_right_eq_some.1 h
  cases h
  exact hv

theorem Date.valid_of_ofWeek? {year week day : Nat} {d : Date} (h : ofWeek? year week day = some d) : d.Valid := by
  unfold ofWeek? at h
  dsimp only at h
  split at h
  · cases h
  · split at h
    · cases h
    · exact valid_of_make? h

theorem Time.valid_of_make? {hour minute second micro : Nat} {offset : Option Int} {t : Time}
    (h : make? hour minute second micro offset = some t) : t.Valid ∧ t.offset = offset := by
  obtain ⟨hv, h⟩ := Option.ite_none_right_eq_some.1 h
  cases h
  exact ⟨hv, rfl⟩

namespace Iso

theorem valid_of_takeDate? {length : Nat} {cs : List Char} {d : Date} (h : takeDate? length cs = some d) : d.Valid := by
  obtain ⟨⟨year, s1⟩, -, h⟩ := Option.bind_eq_some_iff.1 h
  dsimp only at h
  split at h <;> split at h
  all_goals
    obtain ⟨⟨n, s3⟩, -, h⟩ := Option.bind_eq_some_iff.1 h
    dsimp only at h
  case isTrue.isTrue | isFalse.isTrue =>
    split at h
    · obtain ⟨s4, -, h⟩ := Option.bind_eq_some_iff.1 h
      obtain ⟨⟨day, s5⟩, -, h⟩ := Option.bind_eq_some_iff.1 h
      exact Date.valid_of_ofWeek? h
    · exact Date.valid_of_ofWeek? h
  case isTrue.isFalse | isFalse.isFalse =>
    obtain ⟨s4, -, h⟩ := Option.bind_eq_some_iff.1 h
    obtain ⟨⟨day, s5⟩, -, h⟩ := Option.bind_eq_some_iff.1 h
    exact Date.valid_of_make? h

theorem valid_of_date? {cs : List Char} {d : Date} (h : date? cs = some d) : d.Valid := by
  obtain ⟨-, h⟩ := Option.ite_none_right_eq_some.1 h
  exact valid_of_takeDate? h

/-- an offset that is read is zero or has a whole second -/
theorem legible_of_offset? {negative : Bool} {cs : List Char} {o : Int} (h : offset? negative cs = some o) :
    o = 0 ∨ microsPerSecond ≤ o.natAbs := by
  obtain ⟨c, -, h⟩ := Option.bind_eq_some_iff.1 h
  dsimp only at h
  split at h
  · cases h
  · split at h
    · cases h
      exact .inl rfl
    · next hs =>
      cases h
      refine .inr ?_
      rw [natAbs_signed]
      exact Nat.le_add_right_of_le (Nat.le_mul_of_pos_left _ (Nat.pos_of_ne_zero hs))

theorem valid_of_timePart? {cs : List Char} {t : Time} (h : timePart? cs = some t) : t.Valid ∧ t.Legible := by
  unfold timePart? at h
  dsimp only at h
  split at h
  · obtain ⟨c, -, h⟩ := Option.bind_eq_some_iff.1 h
    split at h
    · cases h
    · obtain ⟨hv, ho⟩ := Time.valid_of_make? h
      exact ⟨hv, fun o h => by rw [ho] at h; cases h⟩
  · obtain ⟨c, -, h⟩ := Option.bind_eq_some_iff.1 h
    split at h
    all_goals
      obtain ⟨offset, hoffset, h⟩ := Option.bind_eq_some_iff.1 h
      obtain ⟨hv, ho⟩ := Time.valid_of_make? h
      refine ⟨hv, fun o h => ?_⟩
      obtain rfl := Option.some.inj (ho.symm.trans h)
    · obtain ⟨-, hzero⟩ := Option.ite_none_right_eq_some.1 hoffset
      exact .inl (Option.some.inj hzero).symm
    · exact legible_of_offset? hoffset

/-- a time that is read is one of the clock, and its text tells its offset -/
theorem valid_of_time? {cs : List Char} {t : Time} (h : time? cs = some t) : t.Valid ∧ t.Legible := by
  unfold time? at h
  split at h
  · exact valid_of_timePart? h
  · exact valid_of_timePart? h

/-- so it is with a moment that is read -/
theorem valid_of_moment? {cs : List Char} {m : Moment} (h : moment? cs = some m) :
    m.date.Valid ∧ m.time.Valid ∧ m.time.Legible := by
  unfold moment? at h
  split at h
  · cases h
  · obtain ⟨stop, -, h⟩ := Option.bind_eq_some_iff.1 h
    obtain ⟨date, hdate, h⟩ := Option.bind_eq_some_iff.1 h
    dsimp only at h
    split at h
    all_goals
      obtain ⟨time, htime, h⟩ := Option.bind_eq_some_iff.1 h
      cases h
    · exact ⟨valid_of_takeDate? hdate, valid_of_timePart? htime⟩
    · cases htime
      exact ⟨valid_of_takeDate? hdate, show Time.midnight.Valid by decide, show Time.midnight.Legible by decide⟩

end Iso

/-- so it is with the moment of a timestamp, which stands in universal time -/
theorem Moment.valid_of_ofSeconds? {seconds : Int} {micro : Nat} {m : Moment} (h : ofSeconds? seconds micro = some m) :
    m.date.Valid ∧ m.time.Valid ∧ m.time.Legible := by
  unfold ofSeconds? at h
  dsimp only at h
  split at h
  · cases h
  · obtain ⟨date, hdate, h⟩ := Option.bind_eq_some_iff.1 h
    obtain ⟨time, htime, h⟩ := Option.bind_eq_some_iff.1 h
    cases h
    obtain ⟨hv, ho⟩ := Time.valid_of_make? htime
    refine ⟨Date.valid_of_make? hdate, hv, fun o h => .inl ?_⟩
    rw [ho] at h
    cases h
    rfl

theorem Moment.valid_of_ofTimestamp? {x : Binary64} {m : Moment} (h : ofTimestamp? x = some m) :
    m.date.Valid ∧ m.time.Valid ∧ m.time.Legible := by
  unfold ofTimestamp? at h
  split at h
  · split at h
    -- the seconds are kept as they are named: unfolded into the conditions they are slow to check
    extract_lets whole below total at h
    split_ifs at h <;> exact valid_of_ofSeconds? h
  · cases h

end Intake.Calendar
