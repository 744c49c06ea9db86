/-
Lower case, taken twice and taken beside stripping.

A table of runs says which letters have a lower case. None of the characters it leads to stands in the table itself,
and none is blank, so a text in lower case is its own lower case (`lower_lower`), though the Greek sigma has two lower
cases and one letter becomes two characters. Blanks are letters of no word: they change nothing of what the letters
beside them become, and lower case and stripping may be taken in either order (`lower_strip`).

The facts about the table are computed run by run, not letter by letter: two runs lie apart, or they take every second
letter and are out of step.
-/
import Intake.Text.Blank
import Intake.Text.LetterCase
import Mathlib.Data.List.Basic
import Mathlib.Data.List.TakeWhile
import Mathlib.Tactic.SplitIfs

namespace Intake.Text

variable {s before blanks : List Char} {c x : Char}

/-! ## The letters that change -/

/-- a run has a letter at a code point -/
def CaseRun.Has (r : CaseRun) (n : Nat) : Prop := r.first ≤ n ∧ n ≤ r.last ∧ (n - r.first) % r.step = 0

instance (r : CaseRun) (n : Nat) : Decidable (r.Has n) := inferInstanceAs (Decidable (_ ∧ _ ∧ _))

/-- where the lower case of a run's first letter is -/
def CaseRun.low (r : CaseRun) : Nat := (r.first + r.shift).toNat

def CaseRun.high (r : CaseRun) : Nat := (r.last + r.shift).toNat

/-- all letters with a lower case of their own: those of ASCII, the dotted capital I, whose lower case begins with an
`i`, and those of the table -/
def capitals : List CaseRun := ⟨65, 90, 1, 32⟩ :: ⟨0x130, 0x130, 1, -199⟩ :: lowerRuns

/-- a character that is its own lower case wherever it stands -/
def Steady (c : Char) : Prop := ∀ r ∈ capitals, ¬ r.Has c.toNat

instance (c : Char) : Decidable (Steady c) := inferInstanceAs (Decidable (∀ r ∈ capitals, ¬ r.Has c.toNat))

/-- the lower case of a run's letters are characters -/
def CaseRun.Lands (r : CaseRun) : Prop :=
  0 ≤ r.first + r.shift ∧ (r.high < 0xd800 ∨ 0xe000 ≤ r.low ∧ r.high < 0x110000)

/-- the lower case of a run's letters are no letters of another run: the two lie apart, or the other run takes every
second letter and the lower case of this one's are those between -/
def CaseRun.misses (r s : CaseRun) : Bool :=
  Nat.blt r.high s.first || Nat.blt s.last r.low ||
    Nat.beq s.step 2 && (Nat.beq r.step 2 || Nat.beq r.first r.last) && Nat.beq ((r.low + s.first) % 2) 1

instance (r : CaseRun) : Decidable r.Lands := inferInstanceAs (Decidable (_ ∧ (_ ∨ _ ∧ _)))

theorem capitals_land : ∀ r ∈ capitals, r.Lands := by decide +kernel

theorem capitals_miss : (capitals.all fun r => capitals.all fun s => r.misses s) = true := by decide +kernel

theorem CaseRun.map?_eq (r : CaseRun) (c : Char) :
    r.map? c = if r.Has c.toNat then some (Char.ofNat (c.toNat + r.shift).toNat) else none := rfl

/-- the lower case of a letter of a run is the character at the run's distance, and it is steady -/
theorem steady_shifted {r : CaseRun} (hr : r ∈ capitals) (hc : r.Has c.toNat) :
    ((Char.ofNat (c.toNat + r.shift).toNat).toNat : Int) = c.toNat + r.shift ∧
      Steady (Char.ofNat (c.toNat + r.shift).toNat) := by
  obtain ⟨hnonneg, hland⟩ := capitals_land r hr
  obtain ⟨hfirst, hlast, hstep⟩ := hc
  simp only [CaseRun.low, CaseRun.high] at hnonneg hland
  have hvalid : (c.toNat + r.shift).toNat.isValidChar := by
    unfold Nat.isValidChar
    omega
  have hnum : ((Char.ofNat (c.toNat + r.shift).toNat).toNat : Int) = c.toNat + r.shift := by
    have hkept : (Char.ofNat (c.toNat + r.shift).toNat).toNat = (c.toNat + r.shift).toNat := by
      rw [Char.ofNat, dif_pos hvalid]
      rfl
    omega
  refine ⟨hnum, fun s hs hin => ?_⟩
  obtain ⟨hsfirst, hslast, hsstep⟩ := hin
  have hmiss := List.all_eq_true.1 (List.all_eq_true.1 capitals_miss r hr) s hs
  simp only [CaseRun.misses, CaseRun.low, CaseRun.high, Bool.or_eq_true, Bool.and_eq_true, Nat.blt_eq,
    Nat.beq_eq] at hmiss
  rcases hmiss with (h | h) | ⟨⟨htwo, hr2 | hr2⟩, hodd⟩
  · omega
  · omega
  · rw [htwo] at hsstep
    rw [hr2] at hstep
    omega
  · rw [htwo] at hsstep
    omega

theorem lowerRuns_beyond : ∀ r ∈ lowerRuns, 0x80 ≤ r.first := by decide +kernel

theorem toLower_ascii (hc : c.toNat < 0x80) : c.toLower = ((CaseRun.mk 65 90 1 32).map? c).getD c := by
  have hall : ∀ n < 0x80, (Char.ofNat n).toLower = ((CaseRun.mk 65 90 1 32).map? (Char.ofNat n)).getD (Char.ofNat n) := by
    decide
  have := hall c.toNat hc
  rwa [Char.ofNat_toNat] at this

/-- what a character is in lower case: itself, if it is steady, and otherwise the character that its run leads to, once
with an accent behind it -/
theorem lowerChar_cases (c : Char) :
    Steady c ∧ lowerChar c = [c] ∨
      ∃ r ∈ capitals, r.Has c.toNat ∧ ∃ accent, (accent = [] ∨ accent = [Char.ofNat 0x307]) ∧
        lowerChar c = Char.ofNat (c.toNat + r.shift).toNat :: accent := by
  unfold lowerChar
  split_ifs with hascii hdotted
  · rw [toLower_ascii hascii, CaseRun.map?_eq]
    split_ifs with hin
    · exact .inr ⟨_, .head _, hin, [], .inl rfl, rfl⟩
    · refine .inl ⟨fun r hr => ?_, rfl⟩
      obtain _ | ⟨_, _ | ⟨_, hr⟩⟩ := hr
      · exact hin
      · exact fun h => absurd (show 0x130 ≤ c.toNat from h.1) (by omega)
      · have := lowerRuns_beyond r hr
        exact fun h => absurd h.1 (by omega)
  · exact .inr ⟨_, .tail _ (.head _), by rw [hdotted]; decide, _, .inr rfl, by rw [hdotted]; rfl⟩
  · cases hfind : lowerRuns.findSome? (·.map? c) with
    | none =>
      rw [List.findSome?_eq_none_iff] at hfind
      refine .inl ⟨fun r hr => ?_, rfl⟩
      obtain _ | ⟨_, _ | ⟨_, hr⟩⟩ := hr
      · exact fun h => absurd (show c.toNat ≤ 90 from h.2.1) (by omega)
      · exact fun h => hdotted (Nat.le_antisymm h.2.1 h.1)
      · intro h
        have := hfind r hr
        rw [CaseRun.map?_eq, if_pos h] at this
        cases this
    | some y =>
      obtain ⟨r, hr, hy⟩ := List.exists_of_findSome?_eq_some hfind
      rw [CaseRun.map?_eq] at hy
      split_ifs at hy with hin
      exact .inr ⟨r, .tail _ (.tail _ hr), hin, [], .inl rfl, by rw [Option.getD_some, Option.some.inj hy]⟩

theorem Steady.lowerChar (h : Steady c) : lowerChar c = [c] := by
  obtain ⟨-, heq⟩ | ⟨r, hr, hin, -⟩ := lowerChar_cases c
  · exact heq
  · exact absurd hin (h r hr)

theorem steady_of_mem_lowerChar (h : x ∈ lowerChar c) : Steady x := by
  obtain ⟨hc, heq⟩ | ⟨r, hr, hin, accent, haccent, heq⟩ := lowerChar_cases c
  · rw [heq, List.mem_singleton] at h
    rwa [h]
  · rw [heq, List.mem_cons] at h
    obtain rfl | h := h
    · exact (steady_shifted hr hin).2
    · obtain rfl | rfl := haccent
      · cases h
      · rw [List.mem_singleton.1 h]
        decide +kernel

/-! ## Lower case of lower case -/

/-- a text in lower case is made of steady characters, the two lower cases of sigma among them -/
theorem steady_of_mem_lowerAfter (h : x ∈ lowerAfter before s) : Steady x := by
  induction s generalizing before with
  | nil => cases h
  | cons c s ih =>
    rw [lowerAfter, List.mem_append] at h
    obtain h | h := h
    · split_ifs at h with hsigma hends
      · rw [List.mem_singleton.1 h]
        decide +kernel
      · rw [List.mem_singleton.1 h]
        decide +kernel
      · exact steady_of_mem_lowerChar h
    · exact ih h

/-- steady characters stay as they are, and what follows is read with them before it -/
theorem lowerAfter_steady_append (h : ∀ c ∈ s, Steady c) (before rest : List Char) :
    lowerAfter before (s ++ rest) = s ++ lowerAfter (s.reverse ++ before) rest := by
  induction s generalizing before with
  | nil => rfl
  | cons c s ih =>
    have hc : Steady c := h c (.head _)
    have hsigma : c ≠ capitalSigma := by
      rintro rfl
      exact absurd hc (by decide +kernel)
    rw [List.cons_append, lowerAfter, if_neg hsigma, hc.lowerChar, ih fun x hx => h x (.tail _ hx)]
    simp

theorem lowerAfter_of_steady (h : ∀ c ∈ s, Steady c) : lowerAfter before s = s := by
  have := lowerAfter_steady_append h before []
  rwa [lowerAfter, List.append_nil] at this

theorem lower_lower (s : List Char) : lower (lower s) = lower s := lowerAfter_of_steady fun _ => steady_of_mem_lowerAfter

/-! ## Lower case beside blanks -/

/-- the members of a set that closes every range it opens, one by one -/
def CharSet.codes : List Nat → List Nat
  | first :: stop :: bounds => List.range' first (stop - first) ++ codes bounds
  | _ => []

theorem CharSet.mem_codes {n : Nat} {bounds : List Nat} (heven : bounds.length % 2 = 0) (h : walk n false bounds = true) :
    n ∈ codes bounds := by
  match bounds with
  | [] => cases h
  | [_] => cases heven
  | first :: stop :: bounds =>
    rw [walk] at h
    split_ifs at h with hfirst
    rw [Bool.not_false, walk] at h
    rw [codes, List.mem_append, List.mem_range'_1]
    split_ifs at h with hstop
    · rw [List.length_cons, List.length_cons] at heven
      exact .inr (mem_codes (by omega) h)
    · exact .inl ⟨hfirst, by omega⟩

/-- the code points of the blank characters, one by one -/
def blankCodes : List Nat := CharSet.codes blankTable.bounds

theorem mem_blankCodes (h : isBlank c = true) : c.toNat ∈ blankCodes := CharSet.mem_codes rfl h

theorem blankCodes_apart : ∀ n ∈ blankCodes,
    Steady (Char.ofNat n) ∧ isCaseIgnorable (Char.ofNat n) = false ∧ isCased (Char.ofNat n) = false := by decide +kernel

theorem capitals_miss_blankCodes : ∀ n ∈ blankCodes, ∀ r ∈ capitals, n < r.low ∨ r.high < n := by decide +kernel

/-- a blank is its own lower case, and neither has a case nor stands inside a word -/
theorem blank_apart (h : isBlank c = true) : Steady c ∧ isCaseIgnorable c = false ∧ isCased c = false := by
  have := blankCodes_apart c.toNat (mem_blankCodes h)
  rwa [Char.ofNat_toNat] at this

theorem not_blank_of_mem_lowerChar (hc : isBlank c = false) (h : x ∈ lowerChar c) : isBlank x = false := by
  obtain ⟨-, heq⟩ | ⟨r, hr, hin, accent, haccent, heq⟩ := lowerChar_cases c
  · rw [heq, List.mem_singleton] at h
    rwa [h]
  · rw [heq, List.mem_cons] at h
    obtain rfl | h := h
    · rw [Bool.eq_false_iff]
      intro hb
      have := capitals_miss_blankCodes _ (mem_blankCodes hb) r hr
      have hnum := (steady_shifted hr hin).1
      obtain ⟨hfirst, hlast, -⟩ := hin
      simp only [CaseRun.low, CaseRun.high] at this
      omega
    · obtain rfl | rfl := haccent
      · cases h
      · rw [List.mem_singleton.1 h]
        decide +kernel

/-- blanks beyond the rest of a word change nothing of whether it goes on -/
theorem nextIsCased_append (h : ∀ c ∈ blanks, isBlank c = true) (s : List Char) :
    nextIsCased (s ++ blanks) = nextIsCased s := by
  induction s with
  | nil =>
    cases blanks with
    | nil => rfl
    | cons b blanks =>
      obtain ⟨-, hignore, hcased⟩ := blank_apart (h b (.head _))
      simp [nextIsCased, hignore, hcased]
  | cons c s ih =>
    cases hc : isCaseIgnorable c with
    | true => simpa [nextIsCased, hc] using ih
    | false => simp [nextIsCased, hc]

/-- blanks before a text change nothing of its lower case -/
theorem lowerAfter_blanks_before (h : ∀ c ∈ blanks, isBlank c = true) (before s : List Char) :
    lowerAfter (before ++ blanks) s = lowerAfter before s := by
  induction s generalizing before with
  | nil => rfl
  | cons c s ih => rw [lowerAfter, lowerAfter, nextIsCased_append h, ← List.cons_append, ih]

theorem lowerAfter_append_blanks (h : ∀ c ∈ blanks, isBlank c = true) (before s : List Char) :
    lowerAfter before (s ++ blanks) = lowerAfter before s ++ blanks := by
  induction s generalizing before with
  | nil => exact lowerAfter_of_steady fun c hc => (blank_apart (h c hc)).1
  | cons c s ih => rw [List.cons_append, lowerAfter, lowerAfter, nextIsCased_append h, ih, List.append_assoc]

theorem lower_between {front back : List Char} (hf : ∀ c ∈ front, isBlank c = true) (hb : ∀ c ∈ back, isBlank c = true)
    (s : List Char) : lower (front ++ (s ++ back)) = front ++ (lower s ++ back) := by
  have hsteady : ∀ c ∈ front, Steady c := fun c hc => (blank_apart (hf c hc)).1
  have hrev : ∀ c ∈ front.reverse, isBlank c = true := fun c hc => hf c (List.mem_reverse.1 hc)
  have hskip : lowerAfter ([] ++ front.reverse) s = lowerAfter [] s := lowerAfter_blanks_before hrev [] s
  rw [lower, lowerAfter_steady_append hsteady, List.append_nil, lowerAfter_append_blanks hb,
    ← List.nil_append front.reverse,
    hskip, lower]

/-! ## Lower case beside stripping -/

/-- stripping takes the blanks before a text and those behind it -/
theorem strip_parts (s : List Char) : ∃ front back, (∀ c ∈ front, isBlank c = true) ∧ (∀ c ∈ back, isBlank c = true) ∧
    s = front ++ (strip s ++ back) := by
  refine ⟨s.takeWhile isBlank, ((stripLeft s).reverse.takeWhile isBlank).reverse, fun c => List.mem_takeWhile_imp,
    fun c hc => List.mem_takeWhile_imp (List.mem_reverse.1 hc), ?_⟩
  rw [strip, stripRight, ← List.reverse_append, List.takeWhile_append_dropWhile, List.reverse_reverse, stripLeft,
    List.takeWhile_append_dropWhile]

/-- neither end of a text is blank -/
structure Bare (s : List Char) : Prop where
  head : ∀ c, s.head? = some c → isBlank c = false
  last : ∀ c, s.getLast? = some c → isBlank c = false

theorem not_blank_of_head?_dropWhile (h : (s.dropWhile isBlank).head? = some c) : isBlank c = false := by
  have := List.head?_dropWhile_not isBlank s
  rwa [h] at this

/-- stripping leaves a text neither end of which is blank -/
theorem bare_strip (s : List Char) : Bare (strip s) where
  head c hc := by
    have hprefix : strip s <+: stripLeft s := by
      refine ⟨((stripLeft s).reverse.takeWhile isBlank).reverse, ?_⟩
      rw [strip, stripRight, ← List.reverse_append, List.takeWhile_append_dropWhile, List.reverse_reverse]
    obtain ⟨back, hback⟩ := hprefix
    refine not_blank_of_head?_dropWhile (s := s) ?_
    rw [← stripLeft, ← hback, List.head?_append, hc, Option.some_or]
  last c hc := by
    rw [strip, stripRight, List.getLast?_reverse] at hc
    exact not_blank_of_head?_dropWhile hc

/-- a text between blanks, neither end of which is blank, is what stripping leaves -/
theorem Bare.strip_between (hs : Bare s) {front back : List Char} (hf : ∀ c ∈ front, isBlank c = true)
    (hb : ∀ c ∈ back, isBlank c = true) : strip (front ++ (s ++ back)) = s := by
  have hleft : stripLeft (front ++ (s ++ back)) = stripLeft (s ++ back) := List.dropWhile_append_of_pos hf
  cases s with
  | nil =>
    have hnil : stripLeft back = [] := List.dropWhile_eq_nil_iff.2 hb
    rw [strip, hleft, List.nil_append, hnil]
    rfl
  | cons c s =>
    have hkeep (t : List Char) : stripLeft (c :: t) = c :: t := List.dropWhile_cons_of_neg (by simp [hs.head c rfl])
    have hright : stripRight (c :: s ++ back) = stripRight (c :: s) := by
      rw [stripRight, List.reverse_append, List.dropWhile_append_of_pos fun c hc => hb c (List.mem_reverse.1 hc),
        ← stripRight]
    have hself := strip_eq_self hs.head hs.last
    rw [strip, hkeep] at hself
    rw [strip, hleft, List.cons_append, hkeep, ← List.cons_append, hright, hself]

/-- the lower case of a character that is not blank is some characters that are not blank -/
theorem lowerAfter_cons (hc : isBlank c = false) (before rest : List Char) :
    ∃ y low, lowerAfter before (c :: rest) = y :: low ++ lowerAfter (c :: before) rest ∧
    ∀ x ∈ y :: low, isBlank x = false := by
  rw [lowerAfter]
  split_ifs
  · exact ⟨_, [], rfl, fun x hx => by rw [List.mem_singleton.1 hx]; decide +kernel⟩
  · exact ⟨_, [], rfl, fun x hx => by rw [List.mem_singleton.1 hx]; decide +kernel⟩
  · obtain ⟨-, heq⟩ | ⟨r, -, -, accent, -, heq⟩ := lowerChar_cases c
    · exact ⟨c, [], by rw [heq], fun x hx => by rwa [List.mem_singleton.1 hx]⟩
    · exact ⟨_, accent, by rw [heq], fun x hx => not_blank_of_mem_lowerChar hc (heq ▸ hx)⟩

/-- the lower case of two texts ends in that of the second -/
theorem lowerAfter_append (before s rest : List Char) :
    ∃ front, lowerAfter before (s ++ rest) = front ++ lowerAfter (s.reverse ++ before) rest := by
  induction s generalizing before with
  | nil => exact ⟨[], rfl⟩
  | cons c s ih =>
    obtain ⟨front, hfront⟩ := ih (c :: before)
    rw [List.cons_append, lowerAfter, hfront, List.reverse_cons, List.append_assoc s.reverse, List.singleton_append,
      ← List.append_assoc]
    exact ⟨_, rfl⟩

/-- neither end of a text is blank in lower case if it is not before -/
theorem Bare.lower (hs : Bare s) : Bare (lower s) where
  head x hx := by
    cases s with
    | nil => cases hx
    | cons c s =>
      obtain ⟨y, low, heq, hlow⟩ := lowerAfter_cons (hs.head c rfl) [] s
      rw [Text.lower, heq, List.cons_append, List.head?_cons] at hx
      exact Option.some.inj hx ▸ hlow y (.head _)
  last x hx := by
    obtain rfl | ⟨s, c, rfl⟩ := List.eq_nil_or_concat s
    · cases hx
    · rw [List.concat_eq_append] at hs hx
      obtain ⟨y, low, heq, hlow⟩ := lowerAfter_cons (hs.last c (by simp)) (s.reverse ++ []) []
      obtain ⟨front, hfront⟩ := lowerAfter_append [] s [c]
      rw [Text.lower, hfront, heq, lowerAfter, List.append_nil, List.getLast?_append_of_ne_nil _ (by simp)] at hx
      exact hlow x (List.mem_of_getLast? hx)

/-- lower case and stripping may be taken in either order -/
theorem lower_strip (s : List Char) : lower (strip s) = strip (lower s) := by
  obtain ⟨front, back, hf, hb, hs⟩ := strip_parts s
  calc lower (strip s)
      = strip (front ++ (lower (strip s) ++ back)) := ((bare_strip s).lower.strip_between hf hb).symm
    _ = strip (lower (front ++ (strip s ++ back))) := by rw [lower_between hf hb]
    _ = strip (lower s) := by rw [← hs]

end Intake.Text
