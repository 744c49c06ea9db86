/-
Scalars between quotes: how they are read.

What stands between quotes is read piece by piece: characters as they are, doubled apostrophes, escapes, blanks,
and ends of lines, which are folded. Each piece comes before what is read after it (`QuotedReads`).
-/
import Intake.Proofs.CanonicalText
import Intake.Proofs.Yaml.PlainText

namespace Intake.Yaml

open Intake.Number Intake.Text

/-- from a cursor on, the inside of quotes reads as a text, and ends at another cursor -/
def QuotedReads (quote : Char) (c : Cursor) (text : List Char) (c' : Cursor) : Prop :=
  ∀ fuel acc, c.rest.length < fuel → quotedFrom quote fuel c acc = .ok (acc ++ text, c')

def standsQuoted (quote ch : Char) : Bool := !isSpacing ch && ch != quote && !(quote == '"' && ch == '\\')

namespace QuotedReads

variable {quote : Char} {c c' : Cursor} {text : List Char}

theorem fuel_pos {fuel n : Nat} (h : n < fuel) : ∃ f, fuel = f + 1 :=
  Nat.exists_eq_succ_of_ne_zero (Nat.ne_of_gt (Nat.lt_of_le_of_lt (Nat.zero_le _) h))

theorem close {r : List Char} (h : c.rest = quote :: r) (hq : quote = '\x27' → r.head? ≠ some '\x27') :
    QuotedReads quote c [] c.next := by
  intro fuel acc hfuel
  obtain ⟨f, rfl⟩ := fuel_pos hfuel
  have hnext : (quote == '\x27' && c.peekAt 1 == quote) = false := by
    by_cases he : quote = '\x27'
    · subst he
      have := hq rfl
      unfold Cursor.peekAt
      rw [h]
      cases r with
      | nil => decide
      | cons d r => simpa using this
    · simp [he]
  rw [quotedFrom, Cursor.peek_eq h]
  simp only [beq_self_eq_true, if_true, hnext, Bool.false_eq_true, if_false, List.append_nil]

theorem apostrophe {r : List Char} (h : c.rest = '\x27' :: '\x27' :: r)
    (hr : QuotedReads '\x27' (c.skip 2) text c') : QuotedReads '\x27' c ('\x27' :: text) c' := by
  intro fuel acc hfuel
  obtain ⟨f, rfl⟩ := fuel_pos hfuel
  have hnext : c.peekAt 1 = '\x27' := by
    unfold Cursor.peekAt
    rw [h]
    rfl
  have hlength : (c.skip 2).rest.length < f := by
    rw [Cursor.rest_skip, h]
    rw [h] at hfuel
    simp only [List.length_cons, List.drop_succ_cons, List.drop_zero] at hfuel ⊢
    omega
  rw [quotedFrom, Cursor.peek_eq h, hnext]
  simp only [beq_self_eq_true, if_true, Bool.and_self]
  rw [hr f _ hlength, List.append_assoc]
  rfl

/-- what is read at a character that stands between quotes is the word that it begins -/
theorem quotedFrom_word {ch : Char} {cs : List Char} (h : c.rest = ch :: cs) (hc : standsQuoted quote ch = true) (f : Nat)
    (acc : List Char) : quotedFrom quote (f + 1) c acc =
      quotedFrom quote f (c.skip (c.rest.takeWhile (standsQuoted quote)).length)
        (acc ++ c.rest.takeWhile (standsQuoted quote)) := by
  simp only [standsQuoted, Bool.and_eq_true, Bool.not_eq_true', bne_iff_ne] at hc
  obtain ⟨⟨hs, hq⟩, he⟩ := hc
  have hq' : (ch == quote) = false := beq_eq_false_iff_ne.2 hq
  rw [quotedFrom, Cursor.peek_eq h]
  simp only [hq', Bool.false_eq_true, if_false, he, hs]
  rfl

theorem char {ch : Char} {cs : List Char} (h : c.rest = ch :: cs) (hc : standsQuoted quote ch = true)
    (hr : QuotedReads quote c.next text c') : QuotedReads quote c (ch :: text) c' := by
  intro fuel acc hfuel
  obtain ⟨f, rfl⟩ := fuel_pos hfuel
  have hnext : c.next.rest = cs := by rw [Cursor.rest_next, h]; rfl
  have hlength : c.next.rest.length < f := by
    rw [hnext]
    rw [h] at hfuel
    exact Nat.lt_of_succ_lt_succ hfuel
  rw [quotedFrom_word h hc, h, List.takeWhile_cons, if_pos hc]
  -- the word goes on with the next character, or ends here
  cases cs with
  | nil =>
    have := hr f (acc ++ [ch]) hlength
    rw [List.takeWhile_nil]
    simpa [Cursor.skip] using this
  | cons d cs =>
    by_cases hd : standsQuoted quote d = true
    · have := hr (f + 1) (acc ++ [ch]) (Nat.lt_succ_of_lt hlength)
      rw [quotedFrom_word hnext hd, hnext] at this
      simpa [Cursor.skip, List.append_assoc] using this
    · have := hr f (acc ++ [ch]) hlength
      rw [List.takeWhile_cons, if_neg hd]
      simpa [Cursor.skip] using this

theorem escape (part : List Char) {d : Cursor} {cs : List Char} (h : c.rest = '\\' :: cs)
    (he : quotedEscape c.next = .ok (part, d)) (hd : d.rest.length < c.rest.length)
    (hr : QuotedReads '"' d text c') : QuotedReads '"' c (part ++ text) c' := by
  intro fuel acc hfuel
  obtain ⟨f, rfl⟩ := fuel_pos hfuel
  rw [quotedFrom, Cursor.peek_eq h]
  have hq : (('\\' : Char) == '"') = false := by decide
  simp only [hq, Bool.false_eq_true, if_false, beq_self_eq_true, Bool.and_self, if_true, he]
  have := hr f (acc ++ part) (by omega)
  rw [List.append_assoc] at this
  exact this

theorem gap {ch : Char} {cs gap : List Char} {d : Cursor} (h : c.rest = ch :: cs) (hs : isSpacing ch = true)
    (hq : ch ≠ quote) (hg : quotedGap c = .ok (gap, d)) (hd : d.rest.length < c.rest.length)
    (hr : QuotedReads quote d text c') : QuotedReads quote c (gap ++ text) c' := by
  intro fuel acc hfuel
  obtain ⟨f, rfl⟩ := fuel_pos hfuel
  have hq' : (ch == quote) = false := beq_eq_false_iff_ne.2 hq
  have he : (ch == '\\') = false := by
    refine beq_eq_false_iff_ne.2 ?_
    rintro rfl
    exact absurd hs (by decide)
  rw [quotedFrom, Cursor.peek_eq h]
  simp only [hq', Bool.false_eq_true, if_false, he, Bool.and_false, hs, if_true, hg]
  have := hr f (acc ++ gap) (by omega)
  rw [List.append_assoc] at this
  exact this

end QuotedReads

/-! ## Blanks and ends of lines -/

theorem span_gaps {c : Cursor} {n : Nat} {r : List Char} (h : c.rest = List.replicate n ' ' ++ r)
    (hr : isGap (r.headD endChar) = false) : c.span isGap = (List.replicate n ' ', c.skip n) := by
  have hstop : Stops isGap r := by
    intro y hy
    cases r with
    | nil => cases hy
    | cons d r => cases hy; exact hr
  have hall : ∀ ch ∈ List.replicate n ' ', isGap ch = true := by
    intro ch hch
    rw [List.eq_of_mem_replicate hch]
    rfl
  have hword : c.rest.takeWhile isGap = List.replicate n ' ' := by
    rw [h]
    exact takeWhile_append_of_stops hall hstop
  simp only [Cursor.span, hword, List.length_replicate]

theorem isGap_of_isSpacing {ch : Char} (h : isSpacing ch = false) : isGap ch = false := by
  simp only [isSpacing, Bool.or_eq_false_iff] at h
  simp only [isGap, h.1.1.1.1, h.1.1.1.2, Bool.or_self]

theorem isGap_of_isBreak {ch : Char} (h : isBreak ch = true) : isGap ch = false := by
  refine Bool.or_eq_false_iff.2 ⟨beq_eq_false_iff_ne.2 ?_, beq_eq_false_iff_ne.2 ?_⟩ <;> rintro rfl <;>
    exact absurd h (by decide)

theorem lineBreak_of_not_spacing {c : Cursor} {r : List Char} (h : c.rest = r)
    (hr : isSpacing (r.headD endChar) = false) :
    c.lineBreak = ([], c) := Opens.lineBreak (by rw [h]; exact .inr hr)

theorem ne_endChar_of_not_spacing {ch : Char} (h : isSpacing ch = false) : ch ≠ endChar := by
  rintro rfl
  exact absurd h (by decide)

theorem quotedGap_spaces {c : Cursor} {n : Nat} {r : List Char} (h : c.rest = List.replicate n ' ' ++ r)
    (hr : isSpacing (r.headD endChar) = false) : quotedGap c = .ok (List.replicate n ' ', c.skip n) := by
  have hrest : (c.skip n).rest = r := by simpa using Cursor.rest_skip_append h
  have hpeek : ((c.skip n).peek == endChar) = false := by
    unfold Cursor.peek
    rw [hrest]
    exact beq_eq_false_iff_ne.2 (ne_endChar_of_not_spacing hr)
  unfold quotedGap
  simp only [span_gaps h (isGap_of_isSpacing hr), hpeek, Bool.false_eq_true, if_false, lineBreak_of_not_spacing hrest hr]

def isSeparator (ch : Char) : Bool := isBreak ch && ch.toNat != 0x85

theorem isBreak_of_isSeparator {ch : Char} (h : isSeparator ch = true) : isBreak ch = true :=
  (Bool.and_eq_true_iff.1 h).1

theorem lineBreak_of_isSeparator {c : Cursor} {ch : Char} {r : List Char} (h : c.rest = ch :: r)
    (hs : isSeparator ch = true) :
    c.lineBreak = ([ch], c.next) := by
  simp only [isSeparator, Bool.and_eq_true, bne_iff_ne, ne_eq] at hs
  exact Cursor.lineBreak_separator h hs.1 hs.2

theorem not_atMark {c : Cursor} {ch : Char} {r : List Char} (h : c.rest = ch :: r) (h1 : ch ≠ '-') (h2 : ch ≠ '.') :
    c.atMark = false := by
  unfold Cursor.atMark
  rw [h, not_opensAsMark_of_space h1 h2]
  rfl

theorem quotedBreaks_separators {fuel k : Nat} (hk : 0 < k) {bs r : List Char} (hb : ∀ b ∈ bs, isSeparator b = true)
    (hr : isSpacing (r.headD endChar) = false) {c : Cursor} (h : c.rest = bs ++ (List.replicate k ' ' ++ r))
    (hf : bs.length < fuel) (acc : List Char) :
    quotedBreaks fuel c acc = .ok (acc ++ bs, c.skip (bs.length + k)) := by
  induction bs generalizing fuel c acc with
  | nil =>
    obtain ⟨fuel, rfl⟩ := QuotedReads.fuel_pos hf
    obtain ⟨k, rfl⟩ := Nat.exists_eq_succ_of_ne_zero (Nat.pos_iff_ne_zero.1 hk)
    rw [List.nil_append] at h
    have hrest : (c.skip (k + 1)).rest = r := by simpa using Cursor.rest_skip_append h
    have hmark : c.atMark = false := not_atMark (by rw [h, List.replicate_succ]; rfl) (by decide) (by decide)
    rw [quotedBreaks]
    simp only [hmark, Bool.false_eq_true, if_false, span_gaps h (isGap_of_isSpacing hr),
      lineBreak_of_not_spacing hrest hr,
      List.append_nil, List.length_nil, Nat.zero_add]
  | cons b bs ih =>
    obtain ⟨fuel, rfl⟩ := QuotedReads.fuel_pos hf
    obtain ⟨hsep, hb⟩ := List.forall_mem_cons.1 hb
    have hbreak := isBreak_of_isSeparator hsep
    have hne (d : Char) (hd : isBreak d = false) : b ≠ d := by
      rintro rfl
      rw [hbreak] at hd
      cases hd
    have hmark : c.atMark = false := not_atMark h (hne _ (by decide)) (hne _ (by decide))
    have hspan : c.span isGap = ([], c) := span_gaps (n := 0) h (isGap_of_isBreak hbreak)
    have hnext : c.next.rest = bs ++ (List.replicate k ' ' ++ r) := by rw [Cursor.rest_next, h]; rfl
    rw [quotedBreaks]
    simp only [hmark, Bool.false_eq_true, if_false, hspan, lineBreak_of_isSeparator h hsep]
    rw [ih hb hnext (Nat.lt_of_succ_lt_succ hf), List.append_assoc]
    simp only [List.singleton_append, List.length_cons, Nat.succ_add, Cursor.skip]

theorem quotedGap_separators {k : Nat} (hk : 0 < k) {b : Char} {bs r : List Char}
    (hb : ∀ d ∈ b :: bs, isSeparator d = true)
    (hr : isSpacing (r.headD endChar) = false) {c : Cursor} (h : c.rest = b :: bs ++ (List.replicate k ' ' ++ r)) :
    quotedGap c = .ok (folded [b] bs, c.skip ((b :: bs).length + k)) := by
  obtain ⟨hsep, hbs⟩ := List.forall_mem_cons.1 hb
  have hbreak := isBreak_of_isSeparator hsep
  have hspan : c.span isGap = ([], c) := span_gaps (n := 0) h (isGap_of_isBreak hbreak)
  have hpeek : (c.peek == endChar) = false := by
    rw [Cursor.peek_eq h]
    refine beq_eq_false_iff_ne.2 ?_
    rintro rfl
    exact absurd hbreak (by decide)
  have hnext : c.next.rest = bs ++ (List.replicate k ' ' ++ r) := by rw [Cursor.rest_next, h]; rfl
  have hfuel : bs.length < c.next.fuel := by
    unfold Cursor.fuel
    rw [hnext, List.length_append]
    omega
  unfold quotedGap
  simp only [hspan, hpeek, Bool.false_eq_true, if_false, lineBreak_of_isSeparator h hsep,
    quotedBreaks_separators hk hbs hr hnext hfuel]
  simp only [List.nil_append, List.length_cons, Nat.succ_add, Cursor.skip]
  rfl

namespace QuotedReads

variable {quote : Char} {c c' : Cursor} {text : List Char}

theorem blank {n : Nat} {r : List Char} (h : c.rest = ' ' :: (List.replicate n ' ' ++ r))
    (hr : isSpacing (r.headD endChar) = false) (hq : quote ≠ ' ') (hreads : QuotedReads quote c.next text c') :
    QuotedReads quote c (' ' :: text) c' := by
  have hgap : quotedGap c = .ok (' ' :: List.replicate n ' ', c.next.skip n) :=
    quotedGap_spaces (n := n + 1) (by rw [h, List.replicate_succ]; rfl) hr
  have hnext : c.next.rest = List.replicate n ' ' ++ r := by rw [Cursor.rest_next, h]; rfl
  have hlength : c.rest.length = c.next.rest.length + 1 := by rw [hnext, h]; rfl
  -- the blanks after the first are read with it
  have hrun (f : Nat) (hf : c.next.rest.length < f) (acc : List Char) :
      quotedFrom quote f (c.next.skip n) (acc ++ List.replicate n ' ') = .ok (acc ++ text, c') := by
    cases n with
    | zero => simpa [Cursor.skip] using hreads f acc hf
    | succ n =>
      have := hreads (f + 1) acc (Nat.lt_succ_of_lt hf)
      have hblank : c.next.rest = ' ' :: (List.replicate n ' ' ++ r) := by rw [hnext, List.replicate_succ]; rfl
      have hq' : ((' ' : Char) == quote) = false := beq_eq_false_iff_ne.2 (Ne.symm hq)
      have hspacing : isSpacing ' ' = true := by decide
      have hescape : ((' ' : Char) == '\\') = false := by decide
      rw [quotedFrom, Cursor.peek_eq hblank] at this
      simp only [hq', Bool.false_eq_true, if_false, hescape, Bool.and_false, hspacing, if_true,
        quotedGap_spaces hnext hr] at this
      exact this
  intro fuel acc hfuel
  obtain ⟨f, rfl⟩ := fuel_pos hfuel
  have hq' : ((' ' : Char) == quote) = false := beq_eq_false_iff_ne.2 (Ne.symm hq)
  have hspacing : isSpacing ' ' = true := by decide
  have hescape : ((' ' : Char) == '\\') = false := by decide
  rw [quotedFrom, Cursor.peek_eq h]
  simp only [hq', Bool.false_eq_true, if_false, hescape, Bool.and_false, hspacing, if_true, hgap]
  have := hrun f (by omega) (acc ++ [' '])
  rw [List.append_assoc, List.append_assoc] at this
  exact this

theorem separators {k : Nat} (hk : 0 < k) {b : Char} {bs r : List Char} (hb : ∀ d ∈ b :: bs, isSeparator d = true)
    (hr : isSpacing (r.headD endChar) = false) (hq : isSpacing quote = false)
    (h : c.rest = b :: bs ++ (List.replicate k ' ' ++ r))
    (hreads : QuotedReads quote (c.skip ((b :: bs).length + k)) text c') :
    QuotedReads quote c (folded [b] bs ++ text) c' := by
  have hbreak := isBreak_of_isSeparator (List.forall_mem_cons.1 hb).1
  refine gap h (isSpacing_of_isBreak hbreak) ?_ (quotedGap_separators hk hb hr h) ?_ hreads
  · rintro rfl
    rw [isSpacing_of_isBreak hbreak] at hq
    cases hq
  · rw [Cursor.rest_skip, List.length_drop, h, List.length_append, List.length_cons]
    omega

end QuotedReads

/-! ## Escapes -/

/-- hexadecimal digits in upper case denote the number that they are of -/
theorem ofBaseDigits?_upperHex {width n : Nat} (h : n < Nat.pow 16 width) :
    ofBaseDigits? 16 (upperHex width n) = some n := by
  have all : ∀ x : Fin 128, Uuid.isHexChar (Char.ofNat x.1) = true →
      baseDigit? 16 (Char.ofNat x.1).toUpper = baseDigit? 16 (Char.ofNat x.1) := by decide
  have hdigit : ∀ c ∈ hexDigits width n, baseDigit? 16 c.toUpper = baseDigit? 16 c := by
    intro c hc
    have hx := Uuid.hexDigits_all width n c hc
    have hv := Uuid.visible_of_isHexChar hx
    simp only [isVisible, decide_eq_true_eq] at hv
    have := all ⟨c.toNat, by omega⟩
    rw [Char.ofNat_toNat] at this
    exact this hx
  have hsame : ofBaseDigits? 16 (upperHex width n) = ofBaseDigits? 16 (hexDigits width n) := by
    unfold ofBaseDigits? upperHex
    rw [List.foldlM_map]
    clear h
    revert hdigit
    generalize (0 : Nat) = acc
    generalize hexDigits width n = cs
    intro hdigit
    induction cs generalizing acc with
    | nil => rfl
    | cons c cs ih =>
      obtain ⟨hc, hcs⟩ := List.forall_mem_cons.1 hdigit
      rw [List.foldlM_cons, List.foldlM_cons, hc]
      refine congrArg _ (funext fun k => ih k hcs)
  rw [hsame, ofBaseDigits?_hexDigits, Nat.mod_eq_of_lt h]

theorem length_upperHex (width n : Nat) : (upperHex width n).length = width := by
  rw [upperHex, List.length_map, Uuid.length_hexDigits]

theorem charOfCode_toNat (c : Char) : charOfCode c.toNat = .ok c := by
  have hvalid := c.valid
  have hle : c.toNat ≤ 0x10ffff := by
    rcases hvalid with h | h
    · have : c.toNat < 0xd800 := h
      omega
    · have : c.toNat < 0x110000 := h.2
      omega
  have hno : ¬ (0xd800 ≤ c.toNat ∧ c.toNat < 0xe000) := by
    rcases hvalid with h | h
    · have : c.toNat < 0xd800 := h
      omega
    · have : 0xdfff < c.toNat := h.1
      omega
  rw [charOfCode, if_pos hle, if_neg hno, Char.ofNat_toNat]

theorem quotedEscape_digits {c : Cursor} {letter ch : Char} {width n : Nat} {ds r : List Char}
    (hl : escapeLetters.lookup letter = none) (hw : escapeWidths.lookup letter = some width) (hd : ds.length = width)
    (hn : ofBaseDigits? 16 ds = some n) (hch : charOfCode n = .ok ch) (h : c.rest = letter :: (ds ++ r)) :
    quotedEscape c = .ok ([ch], c.next.skip width) := by
  have hnext : c.next.rest = ds ++ r := by rw [Cursor.rest_next, h]; rfl
  have htake : c.next.rest.take width = ds := by
    rw [hnext]
    exact List.take_left' hd
  simp only [quotedEscape, Cursor.peek_eq h, hl, hw, htake, hd, if_true, hn, hch]
  rfl

theorem quotedEscape_hex {c : Cursor} {letter ch : Char} {width : Nat} {r : List Char}
    (hl : escapeLetters.lookup letter = none) (hw : escapeWidths.lookup letter = some width)
    (hn : ch.toNat < Nat.pow 16 width) (h : c.rest = letter :: (upperHex width ch.toNat ++ r)) :
    quotedEscape c = .ok ([ch], c.next.skip width) :=
  quotedEscape_digits hl hw (length_upperHex width _) (ofBaseDigits?_upperHex hn) (charOfCode_toNat ch) h

theorem quotedEscape_letter {c : Cursor} {letter ch : Char} {r : List Char}
    (hl : escapeLetters.lookup letter = some ch.toNat)
    (h : c.rest = letter :: r) : quotedEscape c = .ok ([ch], c.next) := by
  simp only [quotedEscape, Cursor.peek_eq h, hl, Char.ofNat_toNat]

/-- an escaped end of a line reads as nothing, like the indentation after it -/
theorem quotedEscape_newline {c : Cursor} {k : Nat} (hk : 0 < k) {r : List Char} (h : c.rest = newline k ++ r)
    (hr : isSpacing (r.headD endChar) = false) : quotedEscape c = .ok ([], c.skip (k + 1)) := by
  have hl : escapeLetters.lookup '\n' = none := by decide
  have hw : escapeWidths.lookup '\n' = none := by decide
  have hnext : c.next.rest = [] ++ (List.replicate k ' ' ++ r) := by rw [Cursor.rest_next, h]; rfl
  have hbreaks : quotedBreaks c.next.fuel c.next [] = .ok ([], c.next.skip (0 + k)) :=
    quotedBreaks_separators hk (List.forall_mem_nil _) hr hnext (Nat.succ_pos _) []
  have hpeek : c.peek = '\n' := Cursor.peek_eq h
  simp only [quotedEscape, hpeek, hl, hw, Cursor.lineBreak_newline h, hbreaks]
  simp only [Nat.zero_add, Cursor.skip]

/-- **An escaped character reads as that character.** -/
theorem quotedEscape_doubleEscape {ch : Char} {e : List Char} (he : doubleEscape ch = some e) {c : Cursor} {r : List Char}
    (h : c.rest = e ++ r) : ∃ letters, e = '\\' :: letters ∧ quotedEscape c.next = .ok ([ch], c.skip e.length) := by
  have hnext {cs : List Char} (h : c.rest = '\\' :: cs) : c.next.rest = cs := by rw [Cursor.rest_next, h]; rfl
  have hletters : ∀ x ∈ letterEscapes, escapeLetters.lookup x.2 = some x.1 := by decide
  have hexact {letter : Char} {width : Nat} (hl : escapeLetters.lookup letter = none)
      (hw : escapeWidths.lookup letter = some width) (hn : ch.toNat < Nat.pow 16 width)
      (h : c.rest = '\\' :: letter :: upperHex width ch.toNat ++ r) :
      quotedEscape c.next = .ok ([ch], c.skip ('\\' :: letter :: upperHex width ch.toNat).length) := by
    rw [quotedEscape_hex hl hw hn (hnext h), List.length_cons, List.length_cons, length_upperHex]
    rfl
  unfold doubleEscape at he
  dsimp only at he
  split at he
  · cases he
  · split at he
    · rename_i letter hlookup
      cases he
      have hmem : (ch.toNat, letter) ∈ letterEscapes := by
        obtain ⟨before, after, heq, -⟩ := List.lookup_eq_some_iff.1 hlookup
        rw [heq]
        simp
      have hl := hletters _ hmem
      exact ⟨_, rfl, quotedEscape_letter hl (hnext h)⟩
    · split at he
      · rename_i hn
        cases he
        exact ⟨_, rfl, hexact (by decide) (by decide) (Nat.lt_succ_of_le hn) h⟩
      · split at he
        · rename_i hn
          cases he
          exact ⟨_, rfl, hexact (by decide) (by decide) (Nat.lt_succ_of_le hn) h⟩
        · cases he
          have hn : ch.toNat < 0x110000 := by
            rcases ch.valid with h | h
            · have : ch.toNat < 0xd800 := h
              omega
            · exact h.2
          have hn' : ch.toNat < Nat.pow 16 8 := Nat.lt_trans hn (by decide)
          exact ⟨_, rfl, hexact (by decide) (by decide) hn' h⟩

end Intake.Yaml
