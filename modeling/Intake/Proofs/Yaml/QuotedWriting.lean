/-
Scalars between quotes read back.

How a text may be written between apostrophes or between double quotes is told piece by piece (`SingleWritten`,
`DoubleWritten`). Every text that a style allows is written so, in an entry's key as in its value, and what is
written so reads as the text (`quotedScalar_single`, `quotedScalar_double`).

One character does not survive apostrophes, the next line character, which reads as a line feed. And between double
quotes a line that is broken twice at one blank gains a character, which can only be where the lines are indented to
the width (`SingleText`, `DoubleText`).
-/
import Intake.Proofs.Yaml.QuotedText

namespace Intake.Yaml

open Intake.Number Intake.Text

/-! ## Between apostrophes -/

/-- a text and how it may be written between apostrophes -/
inductive SingleWritten (indent : Nat) : List Char → List Char → Prop where
  | nil : SingleWritten indent [] []
  | char {ch : Char} {cs w : List Char} (hc : standsQuoted '\x27' ch = true) (h : SingleWritten indent cs w) :
    SingleWritten indent (ch :: cs) (ch :: w)
  | apostrophe {cs w : List Char} (h : SingleWritten indent cs w) :
    SingleWritten indent ('\x27' :: cs) ('\x27' :: '\x27' :: w)
  | blank {cs r : List Char} (n : Nat) (hr : Opens r) (h : SingleWritten indent cs (List.replicate n ' ' ++ r)) :
    SingleWritten indent (' ' :: cs) (' ' :: (List.replicate n ' ' ++ r))
  | fold {cs w : List Char} (hw : Opens w) (h : SingleWritten indent cs w) :
    SingleWritten indent (' ' :: cs) (newline indent ++ w)
  | separators {b : Char} {bs cs w : List Char} (hb : ∀ d ∈ b :: bs, isSeparator d = true) (hw : Opens w)
    (h : SingleWritten indent cs w) : SingleWritten indent (b :: bs ++ cs)
      ((if b = '\n' then ['\n'] else []) ++ (b :: bs ++ (List.replicate indent ' ' ++ w)))

/-- writing brings in no other characters than apostrophes, new lines and spaces -/
theorem SingleWritten.chars {indent : Nat} {cs w : List Char} (h : SingleWritten indent cs w)
    (hc : ∀ ch ∈ cs, isPlainChar ch = true) : ∀ ch ∈ w, isPlainChar ch = true := by
  have hspaces (n : Nat) : ∀ ch ∈ List.replicate n ' ', isPlainChar ch = true :=
    (List.forall_mem_cons.1 (isPlainChar_of_mem_newline n)).2
  induction h with
  | nil => exact hc
  | char hd h ih =>
    obtain ⟨hch, hcs⟩ := List.forall_mem_cons.1 hc
    exact List.forall_mem_cons.2 ⟨hch, ih hcs⟩
  | apostrophe h ih =>
    obtain ⟨hch, hcs⟩ := List.forall_mem_cons.1 hc
    exact List.forall_mem_cons.2 ⟨hch, List.forall_mem_cons.2 ⟨hch, ih hcs⟩⟩
  | blank n hr h ih =>
    obtain ⟨hch, hcs⟩ := List.forall_mem_cons.1 hc
    exact List.forall_mem_cons.2 ⟨hch, ih hcs⟩
  | fold hw h ih =>
    exact List.forall_mem_append.2 ⟨isPlainChar_of_mem_newline indent, ih (List.forall_mem_cons.1 hc).2⟩
  | separators hb hw h ih =>
    obtain ⟨hbs, hcs⟩ := List.forall_mem_append.1 hc
    refine List.forall_mem_append.2
      ⟨?_, List.forall_mem_append.2 ⟨hbs, List.forall_mem_append.2 ⟨hspaces indent, ih hcs⟩⟩⟩
    split
    · exact List.forall_mem_singleton.2 (by decide)
    · nofun

theorem Opens.before_quote {w : List Char} (h : Opens w) {quote : Char} (hq : isSpacing quote = false) (r : List Char) :
    isSpacing ((w ++ quote :: r).headD endChar) = false := by
  rcases h with rfl | h
  · exact hq
  · cases w with
    | nil => exact hq
    | cons ch w => exact h

/-- **What is written between apostrophes is read as the text.** -/
theorem SingleWritten.reads {indent : Nat} (hpos : 0 < indent) {cs w : List Char} (h : SingleWritten indent cs w)
    {r : List Char}
    (hr : r.head? ≠ some '\x27') : ∀ {c : Cursor}, c.rest = w ++ '\x27' :: r →
      QuotedReads '\x27' c cs (c.skip (w.length + 1)) := by
  have hquote : isSpacing '\x27' = false := by decide
  -- ends of lines with the indentation after them, before what is read in turn
  have lines {b : Char} {bs cs w : List Char} (hb : ∀ d ∈ b :: bs, isSeparator d = true) (hw : Opens w)
      (ih : ∀ {c : Cursor}, c.rest = w ++ '\x27' :: r → QuotedReads '\x27' c cs (c.skip (w.length + 1))) {c : Cursor}
      (hc : c.rest = b :: bs ++ (List.replicate indent ' ' ++ (w ++ '\x27' :: r))) :
      QuotedReads '\x27' c (folded [b] bs ++ cs) (c.skip ((b :: bs ++ (List.replicate indent ' ' ++ w)).length + 1)) := by
    have hlength : (b :: bs ++ (List.replicate indent ' ' ++ w)).length + 1 =
        ((b :: bs).length + indent) + (w.length + 1) := by
      simp only [List.length_append, List.length_replicate]
      omega
    have hrest : (c.skip ((b :: bs).length + indent)).rest = w ++ '\x27' :: r := by
      have := Cursor.rest_skip_append (c := c) (w := b :: bs ++ List.replicate indent ' ') (r := w ++ '\x27' :: r)
        (by rw [hc, List.append_assoc])
      rwa [List.length_append, List.length_replicate] at this
    rw [hlength, Cursor.skip_add]
    exact .separators hpos hb (hw.before_quote hquote r) hquote hc (ih hrest)
  induction h with
  | nil =>
    intro c hc
    exact .close hc fun _ => hr
  | @char ch cs w hch h ih =>
    intro c hc
    exact .char hc hch (ih (by rw [Cursor.rest_next, hc]; rfl))
  | @apostrophe cs w h ih =>
    intro c hc
    exact .apostrophe hc (ih (by rw [Cursor.rest_skip, hc]; rfl))
  | @blank cs r' n hr' h ih =>
    intro c hc
    refine .blank (n := n) (r := r' ++ '\x27' :: r) (by rw [hc]; simp) (hr'.before_quote hquote r) (by decide) ?_
    exact ih (by rw [Cursor.rest_next, hc]; rfl)
  | @fold cs w hw h ih =>
    intro c hc
    have hb : ∀ d ∈ ['\n'], isSeparator d = true := List.forall_mem_singleton.2 rfl
    exact lines hb hw ih (by rw [hc, newline]; simp)
  | @separators b bs cs w hb hw h ih =>
    intro c hc
    by_cases hn : b = '\n'
    · subst hn
      have hb' : ∀ d ∈ '\n' :: '\n' :: bs, isSeparator d = true := List.forall_mem_cons.2 ⟨by decide, hb⟩
      exact lines hb' hw ih (by rw [hc]; simp)
    · have hfold : folded [b] bs = b :: bs := by
        unfold folded
        rw [if_pos (by simpa using hn)]
        rfl
      have := lines hb hw ih (c := c) (by rw [hc, if_neg hn]; simp)
      rw [hfold] at this
      rw [if_neg hn]
      exact this

theorem quotedScalar_single {indent : Nat} (hpos : 0 < indent) {cs w : List Char} (h : SingleWritten indent cs w)
    {r : List Char} (hr : r.head? ≠ some '\x27') {c : Cursor} (hc : c.rest = '\x27' :: w ++ '\x27' :: r) :
    quotedScalar c = .ok (cs, c.skip (w.length + 2)) := by
  have hreads := h.reads hpos hr (c := c.next) (by rw [Cursor.rest_next, hc]; rfl)
  unfold quotedScalar
  rw [Cursor.peek_eq hc]
  refine hreads c.fuel [] ?_
  unfold Cursor.fuel
  rw [Cursor.rest_next, List.length_tail]
  omega

/-! ## Texts between apostrophes -/

theorem hasPair_cons {p q : Char → Bool} {a b : Char} {cs : List Char} :
    hasPair p q (a :: b :: cs) = (p a && q b || hasPair p q (b :: cs)) := rfl

/-- a text that apostrophes can hold, and that reads back from between them -/
structure SingleText (cs : List Char) : Prop where
  chars : ∀ c ∈ cs, isPlainChar c = true ∧ c.toNat ≠ 0x85
  spaceBreak : hasPair isSpace isBreak cs = false
  breakSpace : hasPair isBreak isSpace cs = false

theorem singleText_of_allowsSingle {cs : List Char} (h : (Traits.ofText cs).allowsSingle = true)
    (h85 : ∀ c ∈ cs, c.toNat ≠ 0x85) : SingleText cs := by
  simp only [Traits.allowsSingle, Traits.ofText, Bool.and_eq_true, Bool.not_eq_true', Bool.or_eq_false_iff] at h
  obtain ⟨hbreak, hspace, hplain⟩ := h
  exact ⟨fun c hc => ⟨List.all_eq_true.1 (by simpa using hplain) c hc, h85 c hc⟩, hspace, hbreak⟩

namespace SingleText

variable {a : Char} {cs : List Char}

theorem tail (h : SingleText (a :: cs)) : SingleText cs := by
  refine ⟨fun c hc => h.chars c (List.mem_cons_of_mem _ hc), ?_, ?_⟩
  · have := h.spaceBreak
    cases cs with
    | nil => rfl
    | cons b cs => exact (Bool.or_eq_false_iff.1 (hasPair_cons.symm.trans this)).2
  · have := h.breakSpace
    cases cs with
    | nil => rfl
    | cons b cs => exact (Bool.or_eq_false_iff.1 (hasPair_cons.symm.trans this)).2

/-- a character is a space, a separator of lines, or no spacing -/
theorem cases_head (h : SingleText (a :: cs)) : a = ' ' ∨ isSeparator a = true ∨ isSpacing a = false := by
  have hc := h.chars a List.mem_cons_self
  cases hb : isBreak a with
  | true => exact .inr (.inl (by simp [isSeparator, hb, hc.2]))
  | false =>
    by_cases ha : a = ' '
    · exact .inl ha
    · refine .inr (.inr ?_)
      rw [isSpacing_eq_of_plain hc.1 hb]
      simpa [isSpace] using ha

theorem after_space {b : Char} (h : SingleText (' ' :: b :: cs)) : isBreak b = false := by
  have := (Bool.or_eq_false_iff.1 (hasPair_cons.symm.trans h.spaceBreak)).1
  simpa [isSpace] using this

theorem after_separator {b : Char} (ha : isBreak a = true) (h : SingleText (a :: b :: cs)) : b ≠ ' ' := by
  have := (Bool.or_eq_false_iff.1 (hasPair_cons.symm.trans h.breakSpace)).1
  rw [ha] at this
  rintro rfl
  exact absurd this (by decide)

theorem run (h : SingleText (a :: cs)) (ha : isSeparator a = true) :
    (∀ d ∈ a :: cs.takeWhile isBreak, isSeparator d = true) ∧ SingleText (cs.dropWhile isBreak) ∧
      Opens (cs.dropWhile isBreak) := by
  induction cs generalizing a with
  | nil => exact ⟨by simpa using ha, h.tail, .inl rfl⟩
  | cons b cs ih =>
    rcases h.tail.cases_head with hb | hb | hb
    · exact absurd hb (h.after_separator (isBreak_of_isSeparator ha))
    · obtain ⟨hseps, hrest, hopens⟩ := ih h.tail hb
      rw [List.takeWhile_cons, if_pos (isBreak_of_isSeparator hb), List.dropWhile_cons,
        if_pos (isBreak_of_isSeparator hb)]
      exact ⟨List.forall_mem_cons.2 ⟨ha, hseps⟩, hrest, hopens⟩
    · have hbreak := not_isBreak_of_not_isSpacing hb
      rw [List.takeWhile_cons, if_neg (by simp [hbreak]), List.dropWhile_cons, if_neg (by simp [hbreak])]
      exact ⟨by simpa using ha, h.tail, opens_cons hb⟩

end SingleText

/-! ## Writing between apostrophes -/

theorem standsQuoted_of_not_spacing {ch : Char} (hs : isSpacing ch = false) (hq : ch ≠ '\x27') :
    standsQuoted '\x27' ch = true := by
  simp [standsQuoted, hs, hq]

theorem singleInside_cons (indent column : Nat) {previous : Option Char} (hp : (previous.map isBreak).getD false = false)
    {ch : Char} (hs : isSpacing ch = false) (cs : List Char) : ∃ column', singleInside indent previous column (ch :: cs) =
      (if ch = '\x27' then ['\x27', '\x27'] else [ch]) ++ singleInside indent (some ch) column' cs := by
  have hb := not_isBreak_of_not_isSpacing hs
  have hspace : (ch == ' ') = false := beq_eq_false_iff_ne.2 (ne_space_of_not_isSpacing hs)
  rw [singleInside]
  simp only [hb, hp, hspace, Bool.false_eq_true, Bool.false_and, if_false, List.nil_append]
  by_cases hq : ch = '\x27'
  · subst hq
    exact ⟨_, rfl⟩
  · have : (ch == '\x27') = false := beq_eq_false_iff_ne.2 hq
    simp only [this, Bool.false_eq_true, if_false, if_neg hq]
    exact ⟨_, rfl⟩

/-- after a separator comes the indentation, before what is no separator itself -/
theorem singleInside_after_separator {indent : Nat} {b : Char} (hb : isBreak b = true) {cs : List Char} (hcs : Opens cs) :
    singleInside indent (some b) 0 cs = List.replicate indent ' ' ++ singleInside indent none indent cs := by
  have hprev : ((some b).map isBreak).getD false = true := hb
  have hnone : ((none : Option Char).map isBreak).getD false = false := rfl
  cases cs with
  | nil =>
    rw [singleInside, singleInside, if_pos hprev, if_neg (by simp), List.append_nil]
  | cons ch cs =>
    have hs : isSpacing ch = false := by
      rcases hcs with h | h
      · cases h
      · exact h
    have hbreak := not_isBreak_of_not_isSpacing hs
    have hspace : (ch == ' ') = false := beq_eq_false_iff_ne.2 (ne_space_of_not_isSpacing hs)
    rw [singleInside, singleInside]
    simp only [hbreak, hprev, hnone, hspace, Bool.false_eq_true, Bool.false_and, if_false, if_true, List.nil_append]
    split <;> rfl

theorem singleInside_separators (indent : Nat) {b : Char} (hb : isBreak b = true) {bs : List Char}
    (hbs : ∀ d ∈ bs, isBreak d = true) (cs : List Char) : ∃ d, isBreak d = true ∧
      singleInside indent (some b) 0 (bs ++ cs) = bs ++ singleInside indent (some d) 0 cs := by
  induction bs generalizing b with
  | nil => exact ⟨b, hb, rfl⟩
  | cons e bs ih =>
    obtain ⟨he, hbs⟩ := List.forall_mem_cons.1 hbs
    obtain ⟨d, hd, hwrite⟩ := ih he hbs
    have hprev : ((some b).map isBreak).getD false = true := hb
    refine ⟨d, hd, ?_⟩
    rw [List.cons_append, singleInside]
    simp only [he, hprev, if_true, Bool.not_true, Bool.and_false, Bool.false_eq_true, if_false, List.nil_append, hwrite,
      List.cons_append]

/-- after a space come further spaces as they are, and then no end of a line -/
theorem singleInside_after_space (indent : Nat) {cs : List Char} (h : SingleText (' ' :: cs)) (column : Nat) :
    ∃ n r, singleInside indent (some ' ') column cs = List.replicate n ' ' ++ r ∧ Opens r := by
  induction cs generalizing column with
  | nil =>
    refine ⟨0, [], ?_, .inl rfl⟩
    rw [singleInside]
    rfl
  | cons ch cs ih =>
    have hprev : ((some ' ').map isBreak).getD false = false := by decide
    by_cases hch : ch = ' '
    · subst hch
      obtain ⟨n, r, hwrite, hr⟩ := ih h.tail (column + 1)
      have hbreak : isBreak ' ' = false := by decide
      have hquote : ((' ' : Char) == '\x27') = false := by decide
      refine ⟨n + 1, r, ?_, hr⟩
      rw [singleInside]
      simp only [hbreak, hprev, bne_self_eq_false, Bool.and_false, Bool.false_and, hquote,
        Bool.false_eq_true, if_false, List.nil_append, hwrite, List.replicate_succ, List.cons_append]
    · have hs : isSpacing ch = false := by
        rcases h.tail.cases_head with h' | h' | h'
        · exact absurd h' hch
        · have := h.after_space
          rw [isBreak_of_isSeparator h'] at this
          cases this
        · exact h'
      obtain ⟨column', hwrite⟩ := singleInside_cons indent column hprev hs cs
      refine ⟨0, _, hwrite, ?_⟩
      by_cases hq : ch = '\x27'
      · subst hq
        exact opens_cons (by decide)
      · rw [if_neg hq]
        exact opens_cons hs

/-- what is written of a separator and of those after it -/
theorem singleInside_break (indent column : Nat) {previous : Option Char} (hp : (previous.map isBreak).getD false = false)
    {b : Char} (hb : isBreak b = true) {bs : List Char} (hbs : ∀ d ∈ bs, isBreak d = true) {cs : List Char}
    (hcs : Opens cs) :
    singleInside indent previous column (b :: (bs ++ cs)) = (if b = '\n' then ['\n'] else []) ++
      (b :: bs ++ (List.replicate indent ' ' ++ singleInside indent none indent cs)) := by
  obtain ⟨d, hd, hrest⟩ := singleInside_separators indent hb hbs cs
  rw [singleInside]
  simp only [hb, hp, if_true, Bool.not_false, Bool.and_true, beq_iff_eq, hrest, singleInside_after_separator hd hcs,
    List.cons_append]

/-- at a text that opens with no spacing, what is written opens with none -/
theorem opens_singleInside {indent column : Nat} {previous : Option Char} (hp : (previous.map isBreak).getD false = false)
    {cs : List Char} (h : Opens cs) : Opens (singleInside indent previous column cs) := by
  cases cs with
  | nil =>
    rw [singleInside, if_neg (by simp [hp])]
    exact .inl rfl
  | cons ch cs =>
    have hs : isSpacing ch = false := by
      rcases h with h | h
      · cases h
      · exact h
    obtain ⟨column', hwrite⟩ := singleInside_cons indent column hp hs cs
    rw [hwrite]
    by_cases hq : ch = '\x27'
    · subst hq
      exact opens_cons (by decide)
    · rw [if_neg hq]
      exact opens_cons hs

/-- what is written of a space: itself, or a new line before what opens with no spacing -/
theorem singleInside_space (indent column : Nat) {previous : Option Char} (hp : (previous.map isBreak).getD false = false)
    {cs : List Char} (h : SingleText (' ' :: cs)) :
    (∃ column', singleInside indent previous column (' ' :: cs) = ' ' :: singleInside indent (some ' ') column' cs) ∨
    (Opens cs ∧
      singleInside indent previous column (' ' :: cs) = newline indent ++ singleInside indent (some ' ') indent cs) := by
  have hbreak : isBreak ' ' = false := by decide
  have hquote : ((' ' : Char) == '\x27') = false := by decide
  rw [singleInside]
  simp only [hbreak, hp, Bool.false_eq_true, if_false, beq_self_eq_true, Bool.true_and, hquote, List.nil_append]
  split
  · rename_i hfold
    refine .inr ⟨?_, rfl⟩
    simp only [Bool.and_eq_true, Bool.not_eq_true', bne_iff_ne] at hfold
    obtain ⟨⟨⟨-, hne⟩, hhead⟩, -⟩ := hfold
    cases cs with
    | nil => cases hne
    | cons ch cs =>
      rcases h.tail.cases_head with hch | hch | hch
      · exact absurd (congrArg some hch) hhead
      · have := h.after_space
        rw [isBreak_of_isSeparator hch] at this
        cases this
      · exact opens_cons hch
  · exact .inl ⟨_, rfl⟩

/-- **What apostrophes can hold is written between them in one of the ways that read back.** -/
theorem SingleText.written {cs : List Char} (h : SingleText cs) (indent : Nat) {previous : Option Char}
    (hp : (previous.map isBreak).getD false = false) (column : Nat) :
    SingleWritten indent cs (singleInside indent previous column cs) := by
  -- a run of separators is written at once, so the induction is on the length
  induction hn : cs.length using Nat.strongRecOn generalizing cs previous column with
  | ind n ih =>
  cases cs with
  | nil =>
    rw [singleInside, if_neg (by simp [hp])]
    exact .nil
  | cons ch cs =>
    have hlt : cs.length < n := by rw [← hn]; exact Nat.lt_succ_self _
    rcases h.cases_head with rfl | hsep | hs
    · have hsome : ((some ' ').map isBreak).getD false = false := by decide
      rcases singleInside_space indent column hp h with ⟨column', hwrite⟩ | ⟨hopens, hwrite⟩
      · have hrest := ih _ hlt h.tail hsome column' rfl
        obtain ⟨k, r, hform, hr⟩ := singleInside_after_space indent h column'
        rw [hwrite, hform]
        rw [hform] at hrest
        exact .blank k hr hrest
      · rw [hwrite]
        exact .fold (opens_singleInside hsome hopens) (ih _ hlt h.tail hsome indent rfl)
    · -- separators up to a character that is neither a separator nor, after one, a space
      have hb := isBreak_of_isSeparator hsep
      have hbs : ∀ d ∈ cs.takeWhile isBreak, isBreak d = true := fun d hd => List.all_eq_true.1 List.all_takeWhile d hd
      obtain ⟨hseps, hrest, hopens⟩ := h.run hsep
      have hlength : (cs.dropWhile isBreak).length < n :=
        Nat.lt_of_le_of_lt (List.dropWhile_sublist isBreak).length_le hlt
      have hnone : ((none : Option Char).map isBreak).getD false = false := rfl
      have hwrite := singleInside_break indent column hp hb hbs hopens
      rw [List.takeWhile_append_dropWhile] at hwrite
      rw [hwrite]
      have := SingleWritten.separators hseps (opens_singleInside hnone hopens)
        (ih _ hlength hrest hnone indent rfl)
      rwa [List.cons_append, List.takeWhile_append_dropWhile] at this
    · obtain ⟨column', hwrite⟩ := singleInside_cons indent column hp hs cs
      have hsome : ((some ch).map isBreak).getD false = false := not_isBreak_of_not_isSpacing hs
      have hrest := ih _ hlt h.tail hsome column' rfl
      rw [hwrite]
      by_cases hq : ch = '\x27'
      · subst hq
        exact .apostrophe hrest
      · rw [if_neg hq]
        exact .char (standsQuoted_of_not_spacing hs hq) hrest

/-! ## Keys between apostrophes -/

/-- the inside of apostrophes in a key, which stands on one line -/
def keyInside (cs : List Char) : List Char := cs.flatMap fun c => if c == '\x27' then [c, c] else [c]

theorem keyInside_cons {ch : Char} (hq : ch ≠ '\x27') (cs : List Char) : keyInside (ch :: cs) = ch :: keyInside cs := by
  have : (ch == '\x27') = false := beq_eq_false_iff_ne.2 hq
  rw [keyInside, List.flatMap_cons, this]
  rfl

theorem keyInside_apostrophe (cs : List Char) : keyInside ('\x27' :: cs) = '\x27' :: '\x27' :: keyInside cs := rfl

/-- blanks come before something else, or before the end -/
theorem keyInside_spaces {cs : List Char} (h : ∀ c ∈ cs, isPlainChar c = true ∧ isBreak c = false) :
    ∃ n r, keyInside cs = List.replicate n ' ' ++ r ∧ Opens r := by
  induction cs with
  | nil => exact ⟨0, [], rfl, .inl rfl⟩
  | cons ch cs ih =>
    obtain ⟨⟨hplain, hb⟩, hcs⟩ := List.forall_mem_cons.1 h
    by_cases hspace : ch = ' '
    · subst hspace
      obtain ⟨n, r, hwrite, hr⟩ := ih hcs
      refine ⟨n + 1, r, ?_, hr⟩
      rw [keyInside_cons (by decide), hwrite, List.replicate_succ]
      rfl
    · have hs : isSpacing ch = false := by
        rw [isSpacing_eq_of_plain hplain hb]
        simpa [isSpace] using hspace
      by_cases hq : ch = '\x27'
      · subst hq
        exact ⟨0, _, keyInside_apostrophe cs, opens_cons (by decide)⟩
      · exact ⟨0, _, keyInside_cons hq cs, opens_cons hs⟩

theorem singleWritten_keyInside (indent : Nat) {cs : List Char} (h : ∀ c ∈ cs, isPlainChar c = true ∧ isBreak c = false) :
    SingleWritten indent cs (keyInside cs) := by
  induction cs with
  | nil => exact .nil
  | cons ch cs ih =>
    obtain ⟨⟨hplain, hb⟩, hcs⟩ := List.forall_mem_cons.1 h
    by_cases hspace : ch = ' '
    · subst hspace
      obtain ⟨n, r, hwrite, hr⟩ := keyInside_spaces hcs
      have hrest := ih hcs
      rw [keyInside_cons (by decide), hwrite]
      rw [hwrite] at hrest
      exact .blank n hr hrest
    · have hs : isSpacing ch = false := by
        rw [isSpacing_eq_of_plain hplain hb]
        simpa [isSpace] using hspace
      by_cases hq : ch = '\x27'
      · subst hq
        exact .apostrophe (ih hcs)
      · rw [keyInside_cons hq]
        exact .char (standsQuoted_of_not_spacing hs hq) (ih hcs)

/-! ## Between double quotes -/

/-- a text and how it may be written between double quotes -/
inductive DoubleWritten (indent : Nat) : List Char → List Char → Prop where
  | nil : DoubleWritten indent [] []
  | char {ch : Char} {cs w : List Char} (hc : standsQuoted '"' ch = true) (hp : isPlainChar ch = true)
    (h : DoubleWritten indent cs w) : DoubleWritten indent (ch :: cs) (ch :: w)
  | blank {cs w : List Char} (h : DoubleWritten indent cs w) : DoubleWritten indent (' ' :: cs) (' ' :: w)
  | escape {ch : Char} {e cs w : List Char} (he : doubleEscape ch = some e) (h : DoubleWritten indent cs w) :
    DoubleWritten indent (ch :: cs) (e ++ w)
  | line {cs w : List Char} (hw : Opens w) (h : DoubleWritten indent cs w) :
    DoubleWritten indent cs ('\\' :: newline indent ++ w)
  | escapedBlank {cs w : List Char} (h : DoubleWritten indent cs w) :
    DoubleWritten indent (' ' :: cs) ('\\' :: ' ' :: w)

theorem visible_of_mem_doubleEscape {ch : Char} {e : List Char} (h : doubleEscape ch = some e) :
    ∀ x ∈ e, isVisible x = true := by
  have hletters : ∀ x ∈ letterEscapes, isVisible x.2 = true := by decide
  have hall : ∀ x :
    Fin 128, Uuid.isHexChar (Char.ofNat x.1) = true → isVisible (Char.ofNat x.1).toUpper = true := by decide
  have hhex {width n : Nat} : ∀ x ∈ upperHex width n, isVisible x = true := by
    intro x hx
    obtain ⟨c, hc, rfl⟩ := List.mem_map.1 hx
    have hc := Uuid.hexDigits_all width n c hc
    have hv := Uuid.visible_of_isHexChar hc
    simp only [isVisible, decide_eq_true_eq] at hv
    have := hall ⟨c.toNat, by omega⟩
    rw [Char.ofNat_toNat] at this
    exact this hc
  have hslash : isVisible '\\' = true := by decide
  unfold doubleEscape at h
  dsimp only at h
  split at h
  · cases h
  · split at h
    · rename_i letter hlookup
      cases h
      have hmem : (ch.toNat, letter) ∈ letterEscapes := by
        obtain ⟨before, after, heq, -⟩ := List.lookup_eq_some_iff.1 hlookup
        rw [heq]
        simp
      simpa using ⟨hslash, hletters _ hmem⟩
    · split at h
      · cases h
        exact List.forall_mem_cons.2 ⟨hslash, List.forall_mem_cons.2 ⟨by decide, hhex⟩⟩
      · split at h
        · cases h
          exact List.forall_mem_cons.2 ⟨hslash, List.forall_mem_cons.2 ⟨by decide, hhex⟩⟩
        · cases h
          exact List.forall_mem_cons.2 ⟨hslash, List.forall_mem_cons.2 ⟨by decide, hhex⟩⟩

theorem isPlainChar_of_visible {c : Char} (h : isVisible c = true) : isPlainChar c = true := by
  simp only [isVisible, decide_eq_true_eq] at h
  have h1 : 0x20 ≤ c.toNat := by omega
  simp [isPlainChar, h1, h.2]

theorem not_isBreak_of_visible {c : Char} (h : isVisible c = true) : isBreak c = false := by
  simp only [isVisible, decide_eq_true_eq] at h
  have hn : c ≠ '\n' := by
    rintro rfl
    exact absurd h.1 (by decide)
  simp only [isBreak, Bool.or_eq_false_iff, beq_eq_false_iff_ne]
  exact ⟨⟨⟨hn, by omega⟩, by omega⟩, by omega⟩

/-- what is written between double quotes can all be written as it is -/
theorem DoubleWritten.chars {indent : Nat} {cs w : List Char} (h : DoubleWritten indent cs w) :
    ∀ ch ∈ w, isPlainChar ch = true := by
  have hspace : isPlainChar ' ' = true := by decide
  have hslash : isPlainChar '\\' = true := by decide
  induction h with
  | nil => nofun
  | char hc hp h ih => exact List.forall_mem_cons.2 ⟨hp, ih⟩
  | blank h ih => exact List.forall_mem_cons.2 ⟨hspace, ih⟩
  | escape he h ih =>
    exact List.forall_mem_append.2 ⟨fun x hx => isPlainChar_of_visible (visible_of_mem_doubleEscape he x hx), ih⟩
  | line hw h ih =>
    exact List.forall_mem_cons.2 ⟨hslash, List.forall_mem_append.2 ⟨isPlainChar_of_mem_newline indent, ih⟩⟩
  | escapedBlank h ih => exact List.forall_mem_cons.2 ⟨hslash, List.forall_mem_cons.2 ⟨hspace, ih⟩⟩

theorem doubleEscape_ne_nil {ch : Char} {e : List Char} (h : doubleEscape ch = some e) :
    ∃ letters, e = '\\' :: letters := by
  obtain ⟨letters, rfl, -⟩ := quotedEscape_doubleEscape h (c := Cursor.start (e ++ [])) rfl
  exact ⟨letters, rfl⟩

/-- blanks come before something else, or before the end -/
theorem DoubleWritten.spaces {indent : Nat} {cs w : List Char} (h : DoubleWritten indent cs w) :
    ∃ n r, w = List.replicate n ' ' ++ r ∧ Opens r := by
  have hescape : isSpacing '\\' = false := by decide
  cases h with
  | nil => exact ⟨0, [], rfl, .inl rfl⟩
  | @char ch cs w hc hp h =>
    simp only [standsQuoted, Bool.and_eq_true, Bool.not_eq_true'] at hc
    exact ⟨0, _, rfl, opens_cons hc.1.1⟩
  | @blank cs w h =>
    obtain ⟨n, r, rfl, hr⟩ := h.spaces
    exact ⟨n + 1, r, rfl, hr⟩
  | @escape ch e cs w he h =>
    obtain ⟨letters, rfl⟩ := doubleEscape_ne_nil he
    exact ⟨0, _, rfl, opens_cons hescape⟩
  | line hw h => exact ⟨0, _, rfl, opens_cons hescape⟩
  | escapedBlank h => exact ⟨0, _, rfl, opens_cons hescape⟩

/-- **What is written between double quotes is read as the text.** -/
theorem DoubleWritten.reads {indent : Nat} (hpos : 0 < indent) {cs w : List Char} (h : DoubleWritten indent cs w)
    {r : List Char} : ∀ {c : Cursor}, c.rest = w ++ '"' :: r → QuotedReads '"' c cs (c.skip (w.length + 1)) := by
  have hquote : isSpacing '"' = false := by decide
  have shorter {c : Cursor} {n : Nat} {w : List Char} (hn : 0 < n) (hc : c.rest = '\\' :: w) :
      (c.skip n).rest.length < c.rest.length := by
    rw [Cursor.rest_skip, List.length_drop, hc, List.length_cons]
    omega
  induction h with
  | nil =>
    intro c hc
    exact .close hc (fun h => absurd h (by decide))
  | @char ch cs w hch hp h ih =>
    intro c hc
    exact .char hc hch (ih (by rw [Cursor.rest_next, hc]; rfl))
  | @blank cs w h ih =>
    intro c hc
    obtain ⟨n, r', rfl, hr'⟩ := h.spaces
    refine .blank (n := n) (r := r' ++ '"' :: r) (by rw [hc]; simp) (hr'.before_quote hquote r) (by decide) ?_
    exact ih (by rw [Cursor.rest_next, hc]; rfl)
  | @escape ch e cs w he h ih =>
    intro c hc
    rw [List.append_assoc] at hc
    obtain ⟨letters, rfl, hread⟩ := quotedEscape_doubleEscape he hc
    have hrest : (c.skip ('\\' :: letters).length).rest = w ++ '"' :: r := Cursor.rest_skip_append hc
    rw [List.length_append, Nat.add_assoc, Cursor.skip_add]
    exact .escape [ch] hc hread (shorter (Nat.succ_pos _) hc) (ih hrest)
  | @line cs w hw h ih =>
    intro c hc
    have hnext : c.next.rest = newline indent ++ (w ++ '"' :: r) := by rw [Cursor.rest_next, hc]; simp
    have hread := quotedEscape_newline hpos hnext (hw.before_quote hquote r)
    have hlength : ('\\' :: newline indent ++ w).length + 1 = (1 + (indent + 1)) + (w.length + 1) := by
      simp only [newline, List.length_append, List.length_cons, List.length_replicate]
      omega
    have hrest : (c.skip (1 + (indent + 1))).rest = w ++ '"' :: r := by
      rw [Cursor.skip_add]
      have := Cursor.rest_skip_append hnext
      rwa [newline, List.length_cons, List.length_replicate] at this
    rw [hlength, Cursor.skip_add]
    refine .escape [] hc ?_ (shorter (by omega) hc) (ih hrest)
    rw [hread, Cursor.skip_add c 1]
    rfl
  | @escapedBlank cs w h ih =>
    intro c hc
    have hnext : c.next.rest = ' ' :: (w ++ '"' :: r) := by rw [Cursor.rest_next, hc]; rfl
    have hletter : escapeLetters.lookup ' ' = some ' '.toNat := by decide
    have hread : quotedEscape c.next = .ok ([' '], c.next.next) := quotedEscape_letter hletter hnext
    have hrest : (c.skip 2).rest = w ++ '"' :: r := by rw [Cursor.rest_skip, hc]; rfl
    have hlength : ('\\' :: ' ' :: w).length + 1 = 2 + (w.length + 1) := by
      simp only [List.length_cons]
      omega
    rw [hlength, Cursor.skip_add]
    exact .escape [' '] hc hread (shorter (n := 2) (by omega) hc) (ih hrest)

theorem quotedScalar_double {indent : Nat} (hpos : 0 < indent) {cs w : List Char} (h : DoubleWritten indent cs w)
    {r : List Char} {c : Cursor} (hc : c.rest = '"' :: w ++ '"' :: r) :
    quotedScalar c = .ok (cs, c.skip (w.length + 2)) := by
  have hreads := h.reads hpos (r := r) (c := c.next) (by rw [Cursor.rest_next, hc]; rfl)
  unfold quotedScalar
  rw [Cursor.peek_eq hc]
  refine hreads c.fuel [] ?_
  unfold Cursor.fuel
  rw [Cursor.rest_next, List.length_tail]
  omega

/-! ## Writing between double quotes -/

/-- a character that needs an escape between double quotes -/
def isEscaped (c : Char) : Bool := (doubleEscape c).isSome

/-- no character with an escape comes before a space that is not the last. Where the lines are indented to the width
the line would be broken there twice -/
def NoTwiceBroken (cs : List Char) : Prop := hasPair isEscaped isSpace cs.dropLast = false

theorem NoTwiceBroken.tail {a : Char} {cs : List Char} (h : NoTwiceBroken (a :: cs)) : NoTwiceBroken cs := by
  unfold NoTwiceBroken at *
  cases cs with
  | nil => rfl
  | cons b cs =>
    cases cs with
    | nil => rfl
    | cons d cs => exact (Bool.or_eq_false_iff.1 (hasPair_cons.symm.trans h)).2

/-- after a character with an escape a space is the last -/
theorem NoTwiceBroken.nil_after_escape {ch : Char} {e cs : List Char} (h : NoTwiceBroken (ch :: ' ' :: cs))
    (he : doubleEscape ch = some e) : cs = [] := by
  cases cs with
  | nil => rfl
  | cons d cs =>
    have := (Bool.or_eq_false_iff.1 (hasPair_cons.symm.trans h)).1
    rw [isEscaped, he] at this
    cases this

/-- what stands as it is between double quotes can be written and ends no line -/
theorem plain_of_not_escaped {ch : Char} (h : doubleEscape ch = none) : isPlainChar ch = true ∧ isBreak ch = false ∧
    ch ≠ '"' ∧ ch ≠ '\\' := by
  unfold doubleEscape at h
  dsimp only at h
  split at h
  · rename_i hplain
    simp only [Bool.and_eq_true, Bool.not_eq_true', bne_iff_ne] at hplain
    obtain ⟨⟨⟨⟨⟨hplain, -⟩, hq⟩, he⟩, hb⟩, -⟩ := hplain
    exact ⟨hplain, hb, hq, he⟩
  · split at h
    · cases h
    · split at h
      · cases h
      · split at h <;> cases h

theorem space_or_standsQuoted {ch : Char} (h : doubleEscape ch = none) : ch = ' ' ∨ standsQuoted '"' ch = true := by
  obtain ⟨hplain, hb, hq, he⟩ := plain_of_not_escaped h
  by_cases hspace : ch = ' '
  · exact .inl hspace
  · have hs : isSpacing ch = false := by
      rw [isSpacing_eq_of_plain hplain hb]
      simpa [isSpace] using hspace
    exact .inr (by simp [standsQuoted, hs, hq, he])

/-- what is written of a character that stands as it is: itself, or itself after a new line -/
theorem doubleInside_none (indent column : Nat) (fold isFirst afterEscape : Bool) {ch : Char}
    (he : doubleEscape ch = none)
    (cs : List Char) : ∃ gap column', doubleInside indent fold isFirst afterEscape column (ch :: cs) =
      gap ++ ch :: doubleInside indent fold false false column' cs ∧
      (gap = [] ∨ gap = (doubleBreak indent (some ch)).1 ∧ cs ≠ [] ∧ fold = true ∧ width < column) := by
  rw [doubleInside, he]
  dsimp only
  split
  · rename_i hfold
    simp only [Bool.and_eq_true, Bool.not_eq_true', decide_eq_true_eq] at hfold
    obtain ⟨⟨⟨⟨hf, -⟩, hne⟩, -⟩, hwidth⟩ := hfold
    exact ⟨_, _, rfl, .inr ⟨rfl, List.isEmpty_eq_false_iff.1 hne, hf, hwidth⟩⟩
  · exact ⟨[], _, rfl, .inl rfl⟩

/-- what is written of a character with an escape: the escape, and a new line after it or none -/
theorem doubleInside_some (indent column : Nat) (fold isFirst afterEscape : Bool) {ch : Char} {e : List Char}
    (he : doubleEscape ch = some e) (cs : List Char) :
    (∃ column', doubleInside indent fold isFirst afterEscape column (ch :: cs) =
      e ++ doubleInside indent fold false true column' cs) ∨
    (cs ≠ [] ∧ fold = true ∧ isFirst = false ∧ doubleInside indent fold isFirst afterEscape column (ch :: cs) =
      e ++ ((doubleBreak indent cs.head?).1 ++ doubleInside indent fold false true
          (doubleBreak indent cs.head?).2 cs)) := by
  rw [doubleInside, he]
  dsimp only
  split
  · rename_i hfold
    simp only [Bool.and_eq_true, Bool.not_eq_true'] at hfold
    obtain ⟨⟨⟨hf, hfirst⟩, hne⟩, -⟩ := hfold
    exact .inr ⟨List.isEmpty_eq_false_iff.1 hne, hf, hfirst, List.append_assoc ..⟩
  · exact .inl ⟨_, rfl⟩

/-- at a text that opens with no space, what is written opens with none -/
theorem opens_doubleInside {indent column : Nat} {fold isFirst afterEscape : Bool} {ch : Char} (hspace : ch ≠ ' ')
    (cs : List Char) : Opens (doubleInside indent fold isFirst afterEscape column (ch :: cs)) := by
  have hescape : isSpacing '\\' = false := by decide
  cases he : doubleEscape ch with
  | none =>
    obtain ⟨gap, column', hwrite, hgap⟩ := doubleInside_none indent column fold isFirst afterEscape he cs
    rw [hwrite]
    rcases hgap with rfl | ⟨rfl, -⟩
    · have hstands := (space_or_standsQuoted he).resolve_left hspace
      simp only [standsQuoted, Bool.and_eq_true, Bool.not_eq_true'] at hstands
      exact opens_cons hstands.1.1
    · have : (doubleBreak indent (some ch)).1 = '\\' :: newline indent := by simp [doubleBreak, hspace]
      rw [this]
      exact opens_cons hescape
  | some e =>
    obtain ⟨letters, rfl⟩ := doubleEscape_ne_nil he
    rcases doubleInside_some indent column fold isFirst afterEscape he cs with ⟨column', hwrite⟩ | ⟨-, -, -, hwrite⟩ <;>
    · rw [hwrite]
      exact opens_cons hescape

/-- after a blank that stands as it is the text goes on -/
theorem DoubleWritten.of_blank {indent : Nat} {cs w : List Char} (h : DoubleWritten indent (' ' :: cs) (' ' :: w)) :
    DoubleWritten indent cs w := by
  have hspace : doubleEscape ' ' = none := by decide
  generalize hw : ' ' :: w = w' at h
  cases h with
  | char hc hp h => exact absurd hc (by decide)
  | blank h =>
    cases hw
    exact h
  | escape he h =>
    rw [hspace] at he
    cases he
  | line hw' h => cases hw
  | escapedBlank h => cases hw

/-- A line that is broken before a text reads back: a text that begins with a space, which is escaped then, does so if
that line is not broken again. -/
theorem doubleWritten_broken {indent : Nat} {d : Char} {cs : List Char}
    (h : d = ' ' → indent < width ∨ cs = [])
    (hrest : DoubleWritten indent (d :: cs)
      (doubleInside indent true false true (doubleBreak indent (some d)).2 (d :: cs))) :
    DoubleWritten indent (d :: cs) ((doubleBreak indent (some d)).1 ++
      doubleInside indent true false true (doubleBreak indent (some d)).2 (d :: cs)) := by
  by_cases hd : d = ' '
  · subst hd
    obtain ⟨gap, column, hwrite, hgap⟩ := doubleInside_none indent (doubleBreak indent (some ' ')).2 true false true
      (show doubleEscape ' ' = none by decide) cs
    have hgap' : gap = [] := by
      refine hgap.resolve_right ?_
      rintro ⟨-, hcs, -, hwidth⟩
      have hindent : indent + 1 > width := hwidth
      rcases h rfl with h | h
      · omega
      · exact hcs h
    subst hgap'
    rw [hwrite] at hrest ⊢
    have : (doubleBreak indent (some ' ')).1 ++ ([] ++ ' ' :: doubleInside indent true false false column cs) =
        '\\' :: newline indent ++ ('\\' :: ' ' :: doubleInside indent true false false column cs) := by
      simp [doubleBreak]
    rw [this]
    exact .line (opens_cons (by decide)) (.escapedBlank hrest.of_blank)
  · have : (doubleBreak indent (some d)).1 = '\\' :: newline indent := by simp [doubleBreak, hd]
    rw [this]
    exact .line (opens_doubleInside hd cs) hrest

/-- **A text is written between double quotes in one of the ways that read back**: a key always, and a value if its lines
are not indented to the width, or none of them is broken twice. -/
theorem doubleWritten_doubleInside {indent : Nat} {fold : Bool} {cs : List Char} (isFirst afterEscape : Bool)
    (column : Nat)
    (h : fold = false ∨ indent < width ∨ NoTwiceBroken (if isFirst then cs.tail else cs)) :
    DoubleWritten indent cs (doubleInside indent fold isFirst afterEscape column cs) := by
  have hescape : isSpacing '\\' = false := by decide
  induction cs generalizing isFirst afterEscape column with
  | nil =>
    rw [doubleInside]
    exact .nil
  | cons ch cs ih =>
    have htail : fold = false ∨ indent < width ∨ NoTwiceBroken cs := by
      refine h.imp_right (Or.imp_right fun h => ?_)
      cases isFirst with
      | true => exact h
      | false => exact NoTwiceBroken.tail h
    have hrest (afterEscape : Bool) (column : Nat) :
        DoubleWritten indent cs (doubleInside indent fold false afterEscape column cs) :=
        ih false afterEscape column htail
    cases he : doubleEscape ch with
    | none =>
      obtain ⟨gap, column', hwrite, hgap⟩ := doubleInside_none indent column fold isFirst afterEscape he cs
      rw [hwrite]
      by_cases hspace : ch = ' '
      · subst hspace
        rcases hgap with rfl | ⟨rfl, -⟩
        · exact .blank (hrest false column')
        · have : (doubleBreak indent (some ' ')).1 ++ ' ' :: doubleInside indent fold false false column' cs =
              '\\' :: newline indent ++ ('\\' :: ' ' :: doubleInside indent fold false false column' cs) := by
            simp [doubleBreak]
          rw [this]
          exact .line (opens_cons hescape) (.escapedBlank (hrest false column'))
      · have hstands := (space_or_standsQuoted he).resolve_left hspace
        have hs : isSpacing ch = false := by
          simp only [standsQuoted, Bool.and_eq_true, Bool.not_eq_true'] at hstands
          exact hstands.1.1
        rcases hgap with rfl | ⟨rfl, -⟩
        · exact .char hstands (plain_of_not_escaped he).1 (hrest false column')
        · have : (doubleBreak indent (some ch)).1 = '\\' :: newline indent := by
            simp [doubleBreak, hspace]
          rw [this]
          exact .line (opens_cons hs) (.char hstands (plain_of_not_escaped he).1 (hrest false column'))
    | some e =>
      rcases doubleInside_some indent column fold isFirst afterEscape he cs with ⟨column', hwrite⟩ | ⟨hne, hf,
        hfirst, hwrite⟩
      · rw [hwrite]
        exact .escape he (hrest true column')
      · rw [hwrite]
        refine .escape he ?_
        subst hf hfirst
        cases cs with
        | nil => exact absurd rfl hne
        | cons d cs =>
          refine doubleWritten_broken ?_ (hrest true _)
          rintro rfl
          rcases h with h | h | h
          · cases h
          · exact .inl h
          · exact .inr (NoTwiceBroken.nil_after_escape h he)

end Intake.Yaml
