/-
Scalars without quotes read back.

A text that may stand without quotes has no mark of the format inside it, and each space that its writing breaks a
line at stands alone. So it is read word by word and gap by gap as it was, up to what ends it
(`plainRead_plainWords`).
-/
import Intake.Proofs.Yaml.Steps

namespace Intake.Yaml

/-! ## Texts that may stand without quotes -/

/-- what may follow a character in a text without quotes -/
structure PlainAfter (a : Char) (cs : List Char) : Prop where
  chars : ∀ c ∈ cs, isPlainChar c = true ∧ isBreak c = false
  inside : hasIndicatorInside (a :: cs) = false
  last : ∀ c, (a :: cs).getLast? = some c → c ≠ ' '

/-- a character that can be written and ends no line is a space or no spacing at all -/
theorem isSpacing_eq_of_plain {c : Char} (hp : isPlainChar c = true) (hb : isBreak c = false) :
    isSpacing c = isSpace c := by
  have hn : ∀ n : Nat, n < 0x20 → n ≠ 10 → c.toNat ≠ n := by
    rintro n hn h10 rfl
    simp only [isPlainChar, Bool.or_eq_true, beq_iff_eq, decide_eq_true_eq, Bool.and_eq_true] at hp
    omega
  have ht : (c == '\t') = false := beq_eq_false_iff_ne.2 fun e => hn 9 (by decide) (by decide) (by rw [e]; rfl)
  have hr : (c == '\r') = false := beq_eq_false_iff_ne.2 fun e => hn 13 (by decide) (by decide) (by rw [e]; rfl)
  have h0 : (c == Char.ofNat 0) = false := beq_eq_false_iff_ne.2 fun e => hn 0 (by decide) (by decide) (by rw [e]; rfl)
  simp only [isSpacing, isSpace, hb, ht, hr, h0, Bool.or_false]

theorem isSteady_of_plain {c : Char} (hp : isPlainChar c = true) (hb : isBreak c = false) : isSteady c = true := by
  have hr : c ≠ '\r' := by rintro rfl; exact absurd hp (by decide)
  have hm : c.toNat ≠ 0xfeff := by
    intro e
    simp [isPlainChar, e] at hp
  simp [isSteady, hb, hr, hm]

namespace PlainAfter

variable {a b : Char} {cs : List Char}

theorem tail (h : PlainAfter a (b :: cs)) : PlainAfter b cs where
  chars := fun c hc => h.chars c (List.mem_cons_of_mem _ hc)
  inside := by
    have := h.inside
    unfold hasIndicatorInside at this
    simp only [Bool.or_eq_false_iff] at this
    exact this.2
  last := fun c hc => h.last c (by rw [List.getLast?_cons_cons]; exact hc)

theorem spacing_head (h : PlainAfter a (b :: cs)) : isSpacing b = isSpace b :=
  isSpacing_eq_of_plain (h.chars b List.mem_cons_self).1 (h.chars b List.mem_cons_self).2

/-- a colon is followed by another character that is no spacing -/
theorem of_colon (h : PlainAfter a (':' :: cs)) : ∃ c rest, cs = c :: rest ∧ isSpacing c = false := by
  have := h.inside
  unfold hasIndicatorInside at this
  simp only [Bool.or_eq_false_iff, beq_self_eq_true, Bool.true_and] at this
  cases cs with
  | nil => exact absurd this.1.1 (by simp)
  | cons c rest => exact ⟨c, rest, rfl, by simpa using this.1.1⟩

theorem not_hash_after_space (h : PlainAfter ' ' (b :: cs)) : b ≠ '#' := by
  rintro rfl
  have := h.inside
  unfold hasIndicatorInside at this
  simp only [Bool.or_eq_false_iff] at this
  exact absurd this.1.2 (by decide)

theorem of_spaces {n : Nat} (h : PlainAfter ' ' (List.replicate n ' ' ++ cs)) : PlainAfter ' ' cs := by
  induction n with
  | zero => exact h
  | succ n ih => exact ih h.tail

/-- after a space come perhaps further spaces, and then a character of another kind -/
theorem spaces (h : PlainAfter ' ' cs) : ∃ n c rest, cs = List.replicate n ' ' ++ c :: rest ∧ c ≠ ' ' ∧
    PlainAfter ' ' (c :: rest) := by
  induction cs with
  | nil => exact absurd rfl (h.last ' ' rfl)
  | cons b cs ih =>
    by_cases hb : b = ' '
    · subst hb
      obtain ⟨n, c, rest, rfl, hc, hp⟩ := ih h.tail
      exact ⟨n + 1, c, rest, rfl, hc, hp⟩
    · exact ⟨0, b, cs, rfl, hb, h⟩

end PlainAfter

/-! ## Writing -/

/-- a text without quotes and how it may be written: gaps stand as they are, or a new line stands for a space -/
inductive PlainWritten (indent : Nat) : List Char → List Char → Prop where
  | nil : PlainWritten indent [] []
  | char {d : Char} {cs w : List Char} (hd : d ≠ ' ') (h : PlainWritten indent cs w) :
    PlainWritten indent (d :: cs) (d :: w)
  | spaces (m : Nat) {d : Char} {cs w : List Char} (hd : d ≠ ' ') (h : PlainWritten indent (d :: cs) (d :: w)) :
    PlainWritten indent (' ' :: (List.replicate m ' ' ++ d :: cs)) (' ' :: (List.replicate m ' ' ++ d :: w))
  | line {d : Char} {cs w : List Char} (hd : d ≠ ' ') (h : PlainWritten indent (d :: cs) (d :: w)) :
    PlainWritten indent (' ' :: d :: cs) (newline indent ++ d :: w)

theorem isPlainChar_of_mem_newline (indent : Nat) : ∀ ch ∈ newline indent, isPlainChar ch = true := by
  have hspace : isPlainChar ' ' = true := by decide
  refine List.forall_mem_cons.2 ⟨by decide, fun ch hch => ?_⟩
  rw [List.eq_of_mem_replicate hch]
  exact hspace

/-- writing brings in no other characters than new lines and spaces -/
theorem PlainWritten.chars {indent : Nat} {cs w : List Char} (h : PlainWritten indent cs w)
    (hc : ∀ ch ∈ cs, isPlainChar ch = true) : ∀ ch ∈ w, isPlainChar ch = true := by
  induction h with
  | nil => exact hc
  | char hd h ih =>
    obtain ⟨hch, hcs⟩ := List.forall_mem_cons.1 hc
    exact List.forall_mem_cons.2 ⟨hch, ih hcs⟩
  | spaces m hd h ih =>
    obtain ⟨hspace, hcs⟩ := List.forall_mem_cons.1 hc
    obtain ⟨hspaces, hcs⟩ := List.forall_mem_append.1 hcs
    exact List.forall_mem_cons.2 ⟨hspace, List.forall_mem_append.2 ⟨hspaces, ih hcs⟩⟩
  | line hd h ih =>
    exact List.forall_mem_append.2 ⟨isPlainChar_of_mem_newline indent, ih (List.forall_mem_cons.1 hc).2⟩

theorem plainWords_cons_of_ne {c : Char} (h : c ≠ ' ') (indent : Nat) (afterSpace : Bool) (column : Nat)
    (cs : List Char) :
    plainWords indent afterSpace column (c :: cs) = c :: plainWords indent false (column + 1) cs := by
  have hc : (c == ' ') = false := by simpa using h
  rw [plainWords, if_neg (by simp [h]), hc]

theorem plainWords_spaces (indent n column : Nat) (cs : List Char) :
    plainWords indent true column (List.replicate n ' ' ++ cs) =
      List.replicate n ' ' ++ plainWords indent true (column + n) cs := by
  induction n generalizing column with
  | zero => rfl
  | succ n ih =>
    rw [List.replicate_succ, List.cons_append, plainWords, if_neg (by simp)]
    simp only [beq_self_eq_true, ih, List.cons_append]
    rw [Nat.add_assoc, Nat.add_comm 1]

theorem plainWritten_plainWords (indent n : Nat) : ∀ {a : Char} {cs : List Char}, cs.length ≤ n → PlainAfter a cs →
    ∀ column, PlainWritten indent cs (plainWords indent false column cs) := by
  induction n with
  | zero =>
    intro a cs hn _ column
    obtain rfl := List.length_eq_zero_iff.1 (Nat.le_zero.1 hn)
    exact .nil
  | succ n ih =>
    intro a cs hn hp column
    cases cs with
    | nil => exact .nil
    | cons b cs =>
      by_cases hb : b = ' '
      · subst hb
        obtain ⟨m, d, rest, rfl, hd, hpd⟩ := hp.tail.spaces
        simp only [List.length_cons, List.length_append, List.length_replicate] at hn
        have hword (column : Nat) : PlainWritten indent (d :: rest) (d :: plainWords indent false column rest) :=
          .char hd (ih (by omega) hpd.tail column)
        rw [plainWords]
        split
        · rename_i hbreak
          obtain rfl : m = 0 := by
            cases m with
            | zero => rfl
            | succ m => simp [List.replicate_succ] at hbreak
          rw [List.replicate_zero, List.nil_append, plainWords_cons_of_ne hd]
          exact .line hd (hword _)
        · rw [beq_self_eq_true, plainWords_spaces, plainWords_cons_of_ne hd]
          exact .spaces m hd (hword _)
      · rw [plainWords_cons_of_ne hb]
        exact .char hb (ih (Nat.le_of_succ_le_succ hn) hp.tail _)

theorem plainWritten_self (indent n : Nat) : ∀ {a : Char} {cs : List Char}, cs.length ≤ n → PlainAfter a cs →
    PlainWritten indent cs cs := by
  induction n with
  | zero =>
    intro a cs hn _
    obtain rfl := List.length_eq_zero_iff.1 (Nat.le_zero.1 hn)
    exact .nil
  | succ n ih =>
    intro a cs hn hp
    cases cs with
    | nil => exact .nil
    | cons b cs =>
      by_cases hb : b = ' '
      · subst hb
        obtain ⟨m, d, rest, rfl, hd, hpd⟩ := hp.tail.spaces
        simp only [List.length_cons, List.length_append, List.length_replicate] at hn
        exact .spaces m hd (.char hd (ih (by omega) hpd.tail))
      · exact .char hb (ih (Nat.le_of_succ_le_succ hn) hp.tail)

/-! ## Reading -/

/-- what is read of a scalar without quotes from a cursor on, after some text -/
def plainRead (indent : Int) (fuel : Nat) (text : List Char) (c : Cursor) : ScalarText :=
  plainFrom false indent fuel (text ++ plainWord false c.rest) (plainGap (c.skip (plainWord false c.rest).length))

theorem plainScalar_eq (indent : Int) (c : Cursor) :
    plainScalar false indent c = plainRead (indent + 1) c.fuel [] c := rfl

theorem plainRead_char {indent : Int} {fuel : Nat} {text : List Char} {c : Cursor} {ch : Char} {cs : List Char}
    (h : c.rest = ch :: cs) (hc : endsPlain false ch (cs.headD endChar) = false) :
    plainRead indent fuel text c = plainRead indent fuel (text ++ [ch]) c.next := by
  have hnext : c.next.rest = cs := by rw [Cursor.rest_next, h]; rfl
  have hword : plainWord false c.rest = ch :: plainWord false cs := by
    rw [h, plainWord]
    exact if_neg (by rw [hc]; exact Bool.false_ne_true)
  unfold plainRead
  rw [hword, hnext, List.append_assoc, List.singleton_append]
  rfl

theorem plainRead_gap {indent : Int} {fuel : Nat} {text : List Char} {c : Cursor} (hword : plainWord false c.rest = [])
    {gap : PlainGap} (hgap : plainGap c = gap) (ht : gap.text ≠ []) (hh : gap.cursor.peek ≠ '#')
    (hi : indent ≤ gap.cursor.column) (hw : plainWord false gap.cursor.rest ≠ []) :
    plainRead indent (fuel + 1) text c = plainRead indent fuel (text ++ gap.text) gap.cursor := by
  have hgo : (gap.text.isEmpty || gap.cursor.peek == '#' || (!false && decide ((gap.cursor.column : Int) < indent))) =
      false := by
    have : ¬ (gap.cursor.column : Int) < indent := by omega
    simp [ht, hh, this]
  unfold plainRead
  simp only [hword, List.append_nil, List.length_nil, Cursor.skip, hgap]
  rw [plainFrom]
  simp only [hgo, Bool.false_eq_true, if_false]

/-- the end of a scalar, at a gap that holds nothing or comes before what is further to the left -/
theorem plainRead_end {indent : Int} {fuel : Nat} {text : List Char} {c : Cursor} (hword : plainWord false c.rest = [])
    {gap : PlainGap} (hgap : plainGap c = gap) (he : gap.text = [] ∨ (gap.cursor.column : Int) < indent) :
    plainRead indent fuel text c = ⟨text, gap.cursor, gap.crosses⟩ := by
  unfold plainRead
  simp only [hword, List.append_nil, List.length_nil, Cursor.skip, hgap]
  cases fuel with
  | zero => rfl
  | succ fuel =>
    have hstop :
        (gap.text.isEmpty || gap.cursor.peek == '#' || (!false && decide ((gap.cursor.column : Int) < indent))) =
          true := by
      rcases he with h | h <;> simp [h]
    rw [plainFrom]
    simp only [hstop, if_true]

/-! ## Gaps -/

theorem endsLine_of_not_isSpacing {ch : Char} (h : isSpacing ch = false) : endsLine ch = false := by
  simp only [isSpacing, Bool.or_eq_false_iff] at h
  obtain ⟨⟨⟨⟨-, -⟩, hr⟩, h0⟩, hb⟩ := h
  simp only [endsLine, hr, hb, Bool.or_false]
  exact h0

theorem ne_space_of_not_isSpacing {ch : Char} (h : isSpacing ch = false) : ch ≠ ' ' := by
  rintro rfl
  exact absurd h (by decide)

/-- what comes next is no spacing, or there is nothing more -/
def Opens (r : List Char) : Prop := r = [] ∨ isSpacing (r.headD endChar) = false

theorem opens_cons {ch : Char} {r : List Char} (h : isSpacing ch = false) : Opens (ch :: r) := .inr h

theorem Opens.head_ne_space {r : List Char} (h : Opens r) : r.head? ≠ some ' ' := by
  rcases h with rfl | h
  · simp
  · cases r with
    | nil => simp
    | cons ch r => simpa using ne_space_of_not_isSpacing h

theorem Opens.lineBreak {c : Cursor} (h : Opens c.rest) : c.lineBreak = ([], c) := by
  refine Cursor.lineBreak_of_not_break ?_
  unfold Cursor.peek
  rcases h with h | h
  · rw [h]; exact .inr rfl
  · exact .inl (endsLine_of_not_isSpacing h)

theorem plainGap_spaces {c : Cursor} {n : Nat} {r : List Char} (h : c.rest = List.replicate n ' ' ++ r) (hr : Opens r) :
    plainGap c = ⟨List.replicate n ' ', c.skip n, false⟩ := by
  have hrest : (c.skip n).rest = r := by
    simpa using Cursor.rest_skip_append h
  have hbreak : (c.skip n).lineBreak = ([], c.skip n) := Opens.lineBreak (by rwa [hrest])
  unfold plainGap
  simp only [Cursor.span_spaces h hr.head_ne_space, hbreak]

theorem plainBreaks_spaces {fuel k : Nat} {c : Cursor} {r breaks : List Char} (hf : k < fuel)
    (h : c.rest = List.replicate k ' ' ++ r) (hr : Opens r) : plainBreaks fuel c breaks = (some breaks, c.skip k) := by
  induction k generalizing fuel c with
  | zero =>
    obtain ⟨fuel, rfl⟩ := Nat.exists_eq_succ_of_ne_zero (Nat.pos_iff_ne_zero.1 hf)
    have hrest : c.rest = r := h
    have hpeek : (c.peek == ' ') = false := by
      have := hr.head_ne_space
      unfold Cursor.peek
      rw [hrest]
      cases r with
      | nil => decide
      | cons ch r => simpa using this
    have hbreak : c.lineBreak = ([], c) := Opens.lineBreak (by rwa [hrest])
    rw [plainBreaks]
    simp only [hpeek, Bool.false_eq_true, if_false, hbreak]
    rfl
  | succ k ih =>
    obtain ⟨fuel, rfl⟩ := Nat.exists_eq_succ_of_ne_zero (Nat.pos_iff_ne_zero.1 (Nat.lt_of_le_of_lt (Nat.zero_le _) hf))
    rw [List.replicate_succ, List.cons_append] at h
    have hpeek : (c.peek == ' ') = true := by rw [Cursor.peek_eq h]; rfl
    have hnext : c.next.rest = List.replicate k ' ' ++ r := by rw [Cursor.rest_next, h]; rfl
    rw [plainBreaks]
    simp only [hpeek, if_true]
    exact ih (Nat.lt_of_succ_lt_succ hf) hnext

theorem not_opensAsMark_of_space {cs : List Char} {ch : Char} (h1 : ch ≠ '-') (h2 : ch ≠ '.') :
    opensAsMark (ch :: cs) = false := by
  simp [opensAsMark, h1, h2]

/-- the end of a line before something that is indented, or is no mark between documents -/
theorem plainGap_newline {c : Cursor} {k : Nat} {r : List Char} (h : c.rest = newline k ++ r) (hr : Opens r)
    (hm : 0 < k ∨ opensAsMark r = false) : plainGap c = ⟨[' '], c.skip (k + 1), true⟩ := by
  have hspan : c.span isSpace = ([], c) := by
    have : c.rest = List.replicate 0 ' ' ++ (newline k ++ r) := h
    rw [Cursor.span_spaces this (by simp [newline])]
    rfl
  have hbreak : c.lineBreak = (['\n'], c.next) := Cursor.lineBreak_newline h
  have hrest : c.next.rest = List.replicate k ' ' ++ r := by rw [Cursor.rest_next, h]; rfl
  have hmark : c.next.atMark = false := by
    unfold Cursor.atMark
    rw [hrest]
    rcases hm with hk | hm
    · obtain ⟨k, rfl⟩ := Nat.exists_eq_succ_of_ne_zero (Nat.pos_iff_ne_zero.1 hk)
      rw [List.replicate_succ, List.cons_append, not_opensAsMark_of_space (by decide) (by decide)]
      rfl
    · cases k with
      | zero =>
        rw [List.replicate_zero, List.nil_append, hm]
        rfl
      | succ k =>
        rw [List.replicate_succ, List.cons_append, not_opensAsMark_of_space (by decide) (by decide)]
        rfl
  have hfuel : k < c.next.fuel := by
    unfold Cursor.fuel
    rw [hrest, List.length_append, List.length_replicate]
    omega
  unfold plainGap
  simp only [hspan, hbreak, hmark, Bool.false_eq_true, if_false, plainBreaks_spaces hfuel hrest hr]
  rfl

/-! ## Reading what was written -/

theorem endsPlain_of_ne {ch next : Char} (hs : isSpacing ch = false) (hc : ch = ':' → isSpacing next = false) :
    endsPlain false ch next = false := by
  by_cases h : ch = ':'
  · simp [endsPlain, hs, hc h]
  · simp [endsPlain, hs, h]

theorem plainWord_spacing {ch : Char} {cs : List Char} (h : isSpacing ch = true) : plainWord false (ch :: cs) = [] := by
  rw [plainWord]
  exact if_pos (by simp [endsPlain, h])

theorem PlainWritten.length_le {indent : Nat} {cs w : List Char} (h : PlainWritten indent cs w) :
    cs.length ≤ w.length := by
  induction h with
  | nil => exact Nat.le_refl _
  | char _ _ ih => exact Nat.succ_le_succ ih
  | spaces m _ _ ih =>
    simp only [List.length_cons, List.length_append] at ih ⊢
    omega
  | line _ _ ih =>
    simp only [newline, List.length_cons, List.length_append, List.length_replicate] at ih ⊢
    omega

theorem PlainWritten.of_cons {indent : Nat} {d : Char} {cs w : List Char} (h : PlainWritten indent (d :: cs) w)
    (hd : d ≠ ' ') :
    ∃ w', w = d :: w' ∧ PlainWritten indent cs w' := by
  cases h with
  | char _ h => exact ⟨_, rfl, h⟩
  | spaces m _ h => exact absurd rfl hd
  | line _ h => exact absurd rfl hd

/-- a character that is no space goes on with the word, however the text after it is written -/
theorem PlainAfter.goesOn {a d : Char} {cs w : List Char} (hp : PlainAfter a (d :: cs)) (hd : d ≠ ' ') {indent : Nat}
    (hw : PlainWritten indent cs w) (r : List Char) : endsPlain false d ((w ++ r).headD endChar) = false := by
  have hspacing : isSpacing d = false := by rw [hp.spacing_head]; simpa [isSpace] using hd
  refine endsPlain_of_ne hspacing fun hcolon => ?_
  subst hcolon
  obtain ⟨e, rest, rfl, he⟩ := hp.of_colon
  obtain ⟨w', rfl, -⟩ := hw.of_cons (ne_space_of_not_isSpacing he)
  exact he

/-- A gap in front of a word is read over if the word is read. The first character of the gap is a spacing. -/
theorem plainRead_gap_word {indent : Nat} {around : Int} {r cs w : List Char} {d : Char} (m : Nat) (gs text : List Char)
    {g : Char} {crosses : Bool} (hd : d ≠ ' ') (hg : isSpacing g = true) (hwrite : PlainWritten indent (d :: cs) (d :: w))
    (hword : ∀ {a : Char} {fuel : Nat} {text : List Char} {c : Cursor}, PlainAfter a (d :: cs) → around ≤ c.column →
      c.rest = d :: w ++ r → (d :: cs).length < fuel → plainRead around fuel text c = ⟨text ++ d :: cs,
        (plainGap (c.skip (d :: w).length)).cursor, (plainGap (c.skip (d :: w).length)).crosses⟩)
    {fuel : Nat} {c : Cursor} (hp : PlainAfter ' ' (d :: cs)) (hrest : c.rest = g :: gs ++ (d :: w ++ r))
    (hgap : plainGap c = ⟨List.replicate (m + 1) ' ', c.skip (g :: gs).length, crosses⟩)
    (hcol : around ≤ (c.skip (g :: gs).length).column) (hfuel : (d :: cs).length < fuel) :
    plainRead around (fuel + 1) text c = ⟨text ++ List.replicate (m + 1) ' ' ++ d :: cs,
      (plainGap (c.skip (g :: gs ++ d :: w).length)).cursor,
        (plainGap (c.skip (g :: gs ++ d :: w).length)).crosses⟩ := by
  have hbefore : plainWord false c.rest = [] := by
    rw [hrest]
    exact plainWord_spacing hg
  have hafter := Cursor.rest_skip_append hrest
  have hwordAfter : plainWord false (c.skip (g :: gs).length).rest ≠ [] := by
    cases hwrite with
    | char _ hwrite =>
      rw [hafter, List.cons_append, plainWord, if_neg]
      · exact List.cons_ne_nil _ _
      · rw [hp.goesOn hd hwrite]
        exact Bool.false_ne_true
    | spaces => exact absurd rfl hd
  rw [plainRead_gap hbefore hgap (by simp) ?_ hcol hwordAfter, hword hp hcol hafter hfuel]
  · simp only [List.length_append, Cursor.skip_add]
  · rw [Cursor.peek_eq hafter]
    exact hp.not_hash_after_space

/-- **What is written of a text without quotes is read as that text**, up to what ends it -/
theorem plainRead_written {indent : Nat} {around : Int} (hpos : 0 < indent) (hi : around ≤ indent) {r : List Char}
    (hword : plainWord false r = []) (hend : ∀ c : Cursor, c.rest = r → (plainGap c).text = [] ∨
      ((plainGap c).cursor.column : Int) < around) {cs w : List Char} (hw : PlainWritten indent cs w) :
    ∀ {a : Char} {fuel : Nat} {text : List Char} {c : Cursor}, PlainAfter a cs → around ≤ c.column → c.rest = w ++ r →
      cs.length < fuel →
      plainRead around fuel text c = ⟨text ++ cs, (plainGap (c.skip w.length)).cursor,
          (plainGap (c.skip w.length)).crosses⟩ := by
  induction hw with
  | nil =>
    intro a fuel text c _ _ hrest _
    rw [List.append_nil]
    exact plainRead_end (by rw [hrest]; exact hword) rfl (hend c hrest)
  | @char d cs w hd h ih =>
    intro a fuel text c hp hcol hrest hfuel
    have hplain := hp.chars d List.mem_cons_self
    have hnext := Cursor.next_of_steady hrest (isSteady_of_plain hplain.1 hplain.2)
    have hcol' : around ≤ c.next.column := by rw [hnext]; push_cast; omega
    rw [plainRead_char hrest (hp.goesOn hd h r), ih hp.tail hcol' (by rw [hnext]; rfl) (Nat.lt_of_succ_lt hfuel)]
    simp only [List.append_assoc, List.singleton_append, List.length_cons, Cursor.skip]
  | @spaces m d cs w hd h ih =>
    intro a fuel text c hp hcol hrest hfuel
    have hp' := hp.tail.of_spaces
    have hds : isSpacing d = false := by rw [hp'.spacing_head]; simpa [isSpace] using hd
    simp only [List.length_cons, List.length_append, List.length_replicate] at hfuel
    obtain ⟨fuel, rfl⟩ := Nat.exists_eq_succ_of_ne_zero (Nat.ne_of_gt (Nat.lt_of_le_of_lt (Nat.zero_le _) hfuel))
    have hrest' : c.rest = List.replicate (m + 1) ' ' ++ (d :: w ++ r) := by
      rw [hrest, List.replicate_succ]
      simp
    have hgap := plainGap_spaces hrest' (opens_cons hds)
    have hskip := Cursor.skip_of_steady hrest' (Cursor.replicate_space_steady (m + 1))
    rw [List.length_replicate] at hskip
    have hcol' : around ≤ (c.skip (m + 1)).column := by rw [hskip]; push_cast; omega
    have hlength : (' ' :: List.replicate m ' ').length = m + 1 := by simp
    have hfuel' : (d :: cs).length < fuel := by rw [List.length_cons]; omega
    have hread := plainRead_gap_word m (List.replicate m ' ') text hd (by decide) h ih hp' hrest'
      (by rw [hlength]; exact hgap) (by rw [hlength]; exact hcol') hfuel'
    rw [hread]
    simp only [List.append_assoc, List.replicate_succ, List.cons_append]
  | @line d cs w hd h ih =>
    intro a fuel text c hp hcol hrest hfuel
    have hp' := hp.tail
    have hds : isSpacing d = false := by rw [hp'.spacing_head]; simpa [isSpace] using hd
    obtain ⟨fuel, rfl⟩ := Nat.exists_eq_succ_of_ne_zero (Nat.ne_of_gt (Nat.lt_of_le_of_lt (Nat.zero_le _) hfuel))
    have hrest' : c.rest = newline indent ++ (d :: w ++ r) := by rw [hrest, List.append_assoc]
    have hgap := plainGap_newline hrest' (opens_cons hds) (.inl hpos)
    have hcol' : around ≤ (c.skip (indent + 1)).column := by
      rw [Cursor.skip_newline hrest']
      exact hi
    have hlength : ('\n' :: List.replicate indent ' ').length = indent + 1 := by simp
    have hread := plainRead_gap_word 0 (List.replicate indent ' ') text hd (by decide) h ih hp' hrest'
      (by rw [hlength]; exact hgap) (by rw [hlength]; exact hcol') (Nat.lt_of_succ_lt_succ hfuel)
    rw [hread, List.append_assoc]
    rfl

/-! ## Scalars without quotes -/

/-- a text that may stand without quotes -/
structure PlainText (cs : List Char) : Prop where
  nonempty : cs ≠ []
  first : cs.head? ≠ some ' '
  last : cs.getLast? ≠ some ' '
  chars : ∀ c ∈ cs, isPlainChar c = true ∧ isBreak c = false
  inside : hasIndicatorInside cs = false
  begins : ∀ c rest, cs = c :: rest → isIndicatorFirst c rest = false
  mark : opensAsMark cs = false

theorem plainText_of_allowsPlain {cs : List Char} (hne : cs ≠ []) (h : (Traits.ofText cs).allowsPlain = true) :
    PlainText cs := by
  simp only [Traits.allowsPlain, Traits.ofText, Bool.and_eq_true, Bool.not_eq_true', Bool.or_eq_false_iff] at h
  obtain ⟨⟨⟨⟨⟨hfirst, hlast⟩, -⟩, -, hplain⟩, hlines⟩, hambiguous⟩ := h
  obtain ⟨c, rest, rfl⟩ := List.exists_cons_of_ne_nil hne
  simp only [Bool.or_eq_false_iff] at hambiguous
  obtain ⟨⟨hmark, hbegins⟩, hinside⟩ := hambiguous
  refine ⟨hne, ?_, ?_, ?_, hinside, ?_, hmark⟩
  · rintro h
    rw [h] at hfirst
    exact absurd hfirst (by decide)
  · rintro h
    rw [h] at hlast
    exact absurd hlast (by decide)
  · intro d hd
    refine ⟨List.all_eq_true.1 (by simpa using hplain) d hd, ?_⟩
    simpa using List.any_eq_false.1 hlines d hd
  · rintro d tail ⟨⟩
    exact hbegins

namespace PlainText

theorem after_letter {cs : List Char} (h : PlainText cs) : PlainAfter 'x' cs where
  chars := h.chars
  inside := by
    obtain ⟨a, cs, rfl⟩ := List.exists_cons_of_ne_nil h.nonempty
    have hb := h.begins a cs rfl
    simp only [isIndicatorFirst, Bool.or_eq_false_iff] at hb
    have hcolon : (a == ':' && (cs.head?.map isSpacing).getD true) = false := by
      by_cases ha : a = ':'
      · subst ha
        simpa using hb.2
      · simp [ha]
    have hinside := h.inside
    unfold hasIndicatorInside
    rw [hcolon, hinside]
    simp only [Bool.or_false, Bool.false_or]
    exact Bool.and_eq_false_imp.2 fun _ => by decide
  last := by
    rintro c hc rfl
    obtain ⟨a, cs, rfl⟩ := List.exists_cons_of_ne_nil h.nonempty
    rw [List.getLast?_cons_cons] at hc
    exact h.last hc

theorem head_ne_space {a : Char} {cs : List Char} (h : PlainText (a :: cs)) : a ≠ ' ' := by
  rintro rfl
  exact h.first rfl

theorem head_not_spacing {a : Char} {cs : List Char} (h : PlainText (a :: cs)) : isSpacing a = false := by
  have hc := h.chars a List.mem_cons_self
  rw [isSpacing_eq_of_plain hc.1 hc.2]
  simpa [isSpace] using h.head_ne_space

/-- a text that may stand without quotes is read from how it is written, up to what ends it -/
theorem read_written {cs w : List Char} (h : PlainText cs) {indent : Nat} {around : Int} (hpos : 0 < indent)
    (hi : around + 1 ≤ indent) (hw : PlainWritten indent cs w) {r : List Char} (hword : plainWord false r = [])
    (hend : ∀ c : Cursor, c.rest = r → (plainGap c).text = [] ∨ ((plainGap c).cursor.column : Int) ≤ around) {c : Cursor}
    (hcol : around ≤ c.column) (hrest : c.rest = w ++ r) :
    plainScalar false around c = ⟨cs, (plainGap (c.skip w.length)).cursor, (plainGap (c.skip w.length)).crosses⟩ := by
  have hend' : ∀ c : Cursor, c.rest = r → (plainGap c).text = [] ∨ ((plainGap c).cursor.column : Int) < around + 1 :=
    fun c hc => (hend c hc).imp_right Int.lt_add_one_of_le
  have hfuel : cs.length < c.fuel := by
    have := hw.length_le
    unfold Cursor.fuel
    rw [hrest, List.length_append]
    omega
  rw [plainScalar_eq]
  -- after its first character, which is no space, the text is further to the right
  obtain ⟨a, cs, rfl⟩ := List.exists_cons_of_ne_nil h.nonempty
  obtain ⟨w, rfl, hw'⟩ := hw.of_cons h.head_ne_space
  have hplain := h.chars a List.mem_cons_self
  have hnext := Cursor.next_of_steady hrest (isSteady_of_plain hplain.1 hplain.2)
  have hcol' : around + 1 ≤ c.next.column := by rw [hnext]; push_cast; omega
  rw [plainRead_char hrest (h.after_letter.goesOn h.head_ne_space hw' r),
    plainRead_written hpos hi hword hend' hw' h.after_letter.tail hcol' (by rw [hnext]; rfl) (Nat.lt_of_succ_lt hfuel)]
  rfl

/-- **A text without quotes reads back as a value**, which ends before a line that is no further to the right than
what is around it -/
theorem plainScalar_value {cs : List Char} (h : PlainText cs) {indent around k : Nat} (hi : around < indent)
    (hk : k ≤ around) {body : List Char} (hb : Opens body) (hm : opensAsMark body = false) {column : Nat} {c : Cursor}
    (hcol : around < c.column) (hrest : c.rest = plainWords indent false column cs ++ (newline k ++ body)) :
    plainScalar false around c =
      ⟨cs, c.skip ((plainWords indent false column cs).length + (k + 1)), true⟩ := by
  have hcol' : (around : Int) ≤ c.column := by omega
  have hread :=
    h.read_written (Nat.zero_lt_of_lt hi) (by omega)
    (plainWritten_plainWords indent _ (Nat.le_refl _) h.after_letter column)
    (plainWord_spacing (isSpacing_of_isBreak newline_isBreak)) (fun d hd => ?_) hcol' hrest
  · rw [hread, plainGap_newline (Cursor.rest_skip_append hrest) hb (.inr hm), Cursor.skip_add c _ (k + 1)]
  · rw [plainGap_newline hd hb (.inr hm), Cursor.skip_newline hd]
    exact .inr (Int.ofNat_le.2 hk)

/-- **A text without quotes reads back as a key**, which ends before a colon with a spacing after it -/
theorem plainScalar_key {cs : List Char} (h : PlainText cs) {around : Int} {r : List Char}
    (hr : isSpacing (r.headD endChar) = true) {c : Cursor} (hcol : around ≤ c.column) (hrest : c.rest = cs ++ ':' :: r) :
    plainScalar false around c = ⟨cs, c.skip cs.length, false⟩ := by
  have hgap {d : Cursor} (hd : d.rest = ':' :: r) : plainGap d = ⟨[], d, false⟩ :=
    plainGap_spaces (n := 0) hd (opens_cons (by decide))
  have hcolon : plainWord false (':' :: r) = [] := by
    rw [plainWord]
    exact if_pos (by simp only [endsPlain, hr]; rfl)
  have hwritten := plainWritten_self (around.toNat + 1) _ (Nat.le_refl _) h.after_letter
  have hread := h.read_written (Nat.succ_pos _) (by omega) hwritten hcolon
    (fun d hd => .inl (by rw [hgap hd])) hcol hrest
  rw [hread, hgap (Cursor.rest_skip_append hrest)]

end PlainText

end Intake.Yaml
