/-
Scalars that YAML reads as JSON does.

Between double quotes the two notations read alike, character by character and escape by escape, if a text is shared
(`TextWritten.quoted`): each escape of JSON is one of YAML too, and the only blanks are spaces, which are kept.

A number or a name is a word: it stands apart from the marks of both notations (`ScalarWritten.wordChars`). A shared
word has the same value in both. A name of nothing or of a boolean is a name there too; an integer has no zero in front
that would make it octal; and a number with an exponent has a point before it and a sign in it, without which it would
be a text (`makes_of_sharedWord`).
-/
import Intake.Proofs.Json.SharedText
import Intake.Proofs.Yaml.FlowLexing
import Intake.Proofs.Yaml.Making

namespace Intake.Json

open Intake.Text Intake.Number Intake.Outcome

variable {w s : List Char} {c : Char} {v : Value} {negative : Bool}

/-! ## Texts -/

theorem printed_of_baseDigit? {base d : Nat} (h : baseDigit? base c = some d) : 0x20 ≤ c.toNat := by
  obtain ⟨hhex, -⟩ := Option.filter_eq_some_iff.1 h
  have hc : c.toNat = c.val.toNat := rfl
  unfold hexValue? at hhex
  simp only [Char.isDigit, Bool.and_eq_true, decide_eq_true_eq, ge_iff_le, UInt32.le_iff_toNat_le, Char.le_def] at hhex
  have h0 : '0'.val.toNat = 48 := rfl
  have ha : 'a'.val.toNat = 97 := rfl
  have hA : 'A'.val.toNat = 65 := rfl
  split at hhex
  · omega
  · split at hhex
    · omega
    · split at hhex
      · omega
      · cases hhex

/-- the letters that stand for a character after a backslash, with its number -/
def letters : List (Char × Nat) := [
  ('"', 0x22), ('\\', 0x5c), ('/', 0x2f), ('b', 8), ('f', 12), ('n', 10), ('r', 13), ('t', 9)]

theorem mem_letters {e : Char} (h : shortEscape? e = some c) : (e, c.toNat) ∈ letters := by
  unfold shortEscape? at h
  split at h
  · next he =>
    obtain rfl := Option.some.inj h
    rcases he with rfl | rfl | rfl <;> decide
  · repeat' split at h
    all_goals cases h
    all_goals
      subst_vars
      decide

/-- no character of a text is a control character as it is written -/
theorem TextWritten.printed (h : TextWritten w s) : ∀ c ∈ w, 0x20 ≤ c.toNat := by
  have hmark : 0x20 ≤ '\\'.toNat ∧ 0x20 ≤ 'u'.toNat := by decide
  have hletters : ∀ x ∈ letters, 0x20 ≤ x.1.toNat := by decide
  have digits {ds : List Char} {n : Nat} (h : ofBaseDigits? 16 ds = some n) : ∀ c ∈ ds, 0x20 ≤ c.toNat := by
    intro c hc
    obtain ⟨d, hd⟩ := baseDigit?_of_mem h hc
    exact printed_of_baseDigit? hd
  induction h with
  | nil => exact List.forall_mem_nil _
  | char _ _ hc _ ih => exact List.forall_mem_cons.2 ⟨hc, ih⟩
  | letter he _ ih => exact List.forall_mem_cons.2 ⟨hmark.1, List.forall_mem_cons.2 ⟨hletters _ (mem_letters he), ih⟩⟩
  | number hn _ ih =>
    have hdigits := digits hn
    simp only [List.forall_mem_cons] at hdigits ⊢
    exact ⟨hmark.1, hmark.2, hdigits.1, hdigits.2.1, hdigits.2.2.1, hdigits.2.2.2.1, ih⟩
  | pair hn hm _ _ _ ih =>
    have hdigits := digits hn
    have hdigits' := digits hm
    simp only [List.forall_mem_cons] at hdigits hdigits' ⊢
    exact ⟨hmark.1, hmark.2, hdigits.1, hdigits.2.1, hdigits.2.2.1, hdigits.2.2.2.1, hmark.1, hmark.2, hdigits'.1,
      hdigits'.2.1,
      hdigits'.2.2.1, hdigits'.2.2.2.1, ih⟩

/-- between quotes a shared text has no blank but spaces -/
theorem TextWritten.spacing (h : TextWritten w s) (hs : ∀ c ∈ w, isSharedChar c = true) :
    ∀ c ∈ w, c = ' ' ∨ Yaml.isSpacing c = false := by
  intro c hc
  have hprinted := h.printed c hc
  have hshared := hs c hc
  have hno {d : Char} (hd : d.toNat < 0x20) : (c == d) = false := by
    refine beq_eq_false_iff_ne.2 ?_
    rintro rfl
    omega
  simp only [isSharedChar, hno (d := '\n') (by decide), Bool.false_or, Bool.and_eq_true, Bool.not_eq_true'] at hshared
  simp only [Yaml.isSpacing, hno (d := '\t') (by decide), hno (d := '\r') (by decide),
    hno (d := Char.ofNat 0) (by decide),
    hshared.2, Bool.or_false, beq_eq_false_iff_ne]
  exact Decidable.em _

/-- the spaces that a text begins with end at a character that is no blank -/
theorem exists_spaces (hw : ∀ c ∈ w, c = ' ' ∨ Yaml.isSpacing c = false) (rest : List Char) : ∃ n r,
    w ++ '"' :: rest = List.replicate n ' ' ++ r ∧ Yaml.isSpacing (r.headD Yaml.endChar) = false := by
  induction w with
  | nil => exact ⟨0, '"' :: rest, rfl, (by decide : Yaml.isSpacing '"' = false)⟩
  | cons c w ih =>
    obtain ⟨hc, hafter⟩ := List.forall_mem_cons.1 hw
    rcases hc with rfl | hc
    · obtain ⟨n, r, heq, hr⟩ := ih hafter
      exact ⟨n + 1, r, by rw [List.cons_append, heq]; rfl, hr⟩
    · exact ⟨0, _, rfl, hc⟩

/-- digits denote a number below the power of their base -/
theorem lt_of_ofBaseDigits? {base n : Nat} {ds : List Char} (h : ofBaseDigits? base ds = some n) :
    n < base ^ ds.length := by
  have general (acc : Nat) (hn : ds.foldlM (fun n c => (baseDigit? base c).map (base * n + ·)) acc = some n) :
      n < base ^ ds.length * (acc + 1) := by
    clear h
    induction ds generalizing acc with
    | nil =>
      obtain rfl := Option.some.inj hn
      simp
    | cons d ds ih =>
      rw [List.foldlM_cons] at hn
      obtain ⟨m, hm, hn⟩ := Option.bind_eq_some_iff.1 hn
      obtain ⟨x, hx, rfl⟩ := Option.map_eq_some_iff.1 hm
      have hlt : x < base := of_decide_eq_true (Option.filter_eq_some_iff.1 hx).2
      calc n < base ^ ds.length * (base * acc + x + 1) := ih _ hn
        _ ≤ base ^ ds.length * (base * acc + base) := Nat.mul_le_mul_left _ (by omega)
        _ = base ^ (d :: ds).length * (acc + 1) := by rw [List.length_cons, Nat.pow_succ]; ring
  simpa using general 0 h

/-- the character of an escape by its number is the same in YAML -/
theorem charOfCode_eq {a b c d : Char} {n : Nat} (h : ofBaseDigits? 16 [a, b, c, d] = some n) :
    Yaml.charOfCode n = .ok (charOf n) := by
  have hn : n < 16 ^ 4 := lt_of_ofBaseDigits? h
  have hsurrogate : (isHigh n || isLow n) = decide (0xd800 ≤ n ∧ n < 0xe000) := by
    simp only [isHigh, isLow, ← Bool.decide_or]
    exact decide_eq_decide.2 (by omega)
  rw [Yaml.charOfCode, if_pos (by omega), charOf, hsurrogate]
  simp only [decide_eq_true_eq]

/-- **A shared text between quotes is the same text in YAML.** -/
theorem TextWritten.quoted (h : TextWritten w s) (hs : ∀ c ∈ w, isSharedChar c = true) (hp : hasEscapedPair w = false) :
    Yaml.Quoted w s := by
  induction h with
  | nil => exact ⟨fun hc => .close hc nofun⟩
  | @char ch w s hquote hescape hch h ih =>
    have hspacing := (TextWritten.char hquote hescape hch h).spacing hs
    rw [hasEscapedPair_cons hescape] at hp
    have hrest := ih (List.forall_mem_cons.1 hs).2 hp
    refine ⟨fun {c r} hc => ?_⟩
    have hnext : c.next.rest = w ++ '"' :: r := by rw [Yaml.Cursor.rest_next, hc]; rfl
    rcases (List.forall_mem_cons.1 hspacing).1 with rfl | hstands
    · obtain ⟨n, r', heq, hr'⟩ := exists_spaces (List.forall_mem_cons.1 hspacing).2 r
      refine .blank (n := n) (r := r') ?_ hr' (by decide) (hrest.reads hnext)
      rw [hc, List.cons_append, heq]
    · refine .char hc ?_ (hrest.reads hnext)
      simp [Yaml.standsQuoted, hstands, hquote, hescape]
  | @letter e ch w s he h ih =>
    have hrest := ih (List.forall_mem_cons.1 (List.forall_mem_cons.1 hs).2).2 (hasEscapedPair_escape hp)
    have hletters : ∀ x ∈ letters, Yaml.escapeLetters.lookup x.1 = some x.2 := by decide
    refine ⟨fun {c r} hc => ?_⟩
    have hnext : c.next.rest = e :: (w ++ '"' :: r) := by rw [Yaml.Cursor.rest_next, hc]; rfl
    have hafter : c.next.next.rest = w ++ '"' :: r := by rw [Yaml.Cursor.rest_next, hnext]; rfl
    refine .escape [ch] hc (Yaml.quotedEscape_letter (hletters _ (mem_letters he)) hnext) ?_ (hrest.reads hafter)
    rw [hafter, hc]
    simp only [List.length_cons, List.length_append]
    omega
  | @number a b c' d n w s hn h ih =>
    have hdigits := hasEscapedPair_digits hn w
    have hrest := ih (fun x hx => hs x (by simp [hx])) (by rw [← hdigits]; exact hasEscapedPair_escape hp)
    refine ⟨fun {c r} hc => ?_⟩
    have hnext : c.next.rest = 'u' :: ([a, b, c', d] ++ (w ++ '"' :: r)) := by rw [Yaml.Cursor.rest_next, hc]; rfl
    have hwidth : Yaml.escapeWidths.lookup 'u' = some 4 := rfl
    have hafter : (c.next.next.skip 4).rest = w ++ '"' :: r := by
      rw [Yaml.Cursor.rest_skip, Yaml.Cursor.rest_next, hnext]
      rfl
    have hescape := Yaml.quotedEscape_digits (by decide) hwidth rfl hn (charOfCode_eq hn) hnext
    refine .escape [charOf n] hc hescape ?_ (hrest.reads hafter)
    rw [hafter, hc]
    simp only [List.length_cons, List.length_append]
    omega
  | pair hn hm hhigh hlow _ _ =>
    rw [hasEscapedPair_pair hn hm hhigh hlow] at hp
    cases hp

/-! ## Words -/

theorem PlacesWritten.marks {ps places : List Char} (h : PlacesWritten ps places) :
    ∀ c ∈ places, Decimal.isMark c = true := by
  cases h with
  | none => exact fun c hc => absurd hc List.not_mem_nil
  | point hd _ => exact Decimal.point_marks hd

theorem ExponentWritten.marks {e : Option Int} {tail : List Char} (h : ExponentWritten e tail) :
    ∀ c ∈ tail, Decimal.isMark c = true := by
  cases h with
  | none => exact fun c hc => absurd hc List.not_mem_nil
  | @mark mark sign ds negative hmark hsign hd _ =>
    have hsigns : ∀ c ∈ sign, Decimal.isMark c = true := by cases hsign <;> simp [Decimal.isMark]
    refine List.forall_mem_cons.2 ⟨?_, append_all hsigns fun c hc => Decimal.isMark_of_isDigit (hd c hc)⟩
    rcases hmark with rfl | rfl <;> decide

theorem NumberWritten.opens (h : NumberWritten negative w v) : Decimal.Opens w := by
  cases h with
  | integer h _ => exact Yaml.opens_whole h
  | binary h hp he _ => exact Decimal.opens_append (Yaml.opens_whole h) (append_all hp.marks he.marks)

theorem isWordChar_of_isMark {c : Char} (h : Decimal.isMark c = true) : isWordChar c = true := by
  simp only [Decimal.isMark, Bool.or_eq_true, beq_iff_eq] at h
  rcases h with ((((h | rfl) | rfl) | rfl) | rfl) | rfl
  · simp [isWordChar, Char.isAlphanum, h]
  all_goals decide

/-- a number or a name under its sign: what is read without quotes -/
theorem ScalarWritten.cases (h : ScalarWritten w v) : (∃ name, (name, v) ∈ names ∧ w = name.toList) ∨
    ∃ s body, w = Yaml.Numeral s body ∧ NumberWritten s body v := by
  cases h with
  | name h => exact .inl ⟨_, h, rfl⟩
  | number h => exact .inr ⟨false, _, rfl, h⟩
  | negative h => exact .inr ⟨true, _, rfl, h⟩

/-- **A number or a name consists of word characters**, and has some. -/
theorem ScalarWritten.wordChars (h : ScalarWritten w v) : (∀ c ∈ w, isWordChar c = true) ∧ w ≠ [] := by
  rcases h.cases with ⟨name, hname, rfl⟩ | ⟨s, body, rfl, hbody⟩
  · have all : ∀ n ∈ names.map Prod.fst, n.toList.all isWordChar = true ∧ n.toList ≠ [] := by decide
    obtain ⟨hchars, hne⟩ := all name (List.mem_map_of_mem hname)
    exact ⟨List.all_eq_true.1 hchars, hne⟩
  · refine ⟨fun c hc => isWordChar_of_isMark (Yaml.marks_numeral hbody.opens c hc), ?_⟩
    obtain ⟨c, rest, hw, -⟩ := Yaml.head_numeral (s := s) hbody.opens
    rw [hw]
    exact List.cons_ne_nil c rest

theorem isFlowWord_of_isWordChar (h : isWordChar c = true) : Yaml.isFlowWord c = true := by
  have all : ∀ n : Fin 128, isWordChar (Char.ofNat n.1) = true → Yaml.isFlowWord (Char.ofNat n.1) = true := by decide
  have hlt : c.toNat < 128 := by
    simp only [isWordChar, Bool.or_eq_true, beq_iff_eq] at h
    rcases h with ((h | rfl) | rfl) | rfl
    · exact Yaml.Lexer.toNat_lt_of_isAlphanum h
    all_goals decide
  have := all ⟨c.toNat, hlt⟩
  rw [Char.ofNat_toNat] at this
  exact this h

theorem NumberWritten.head (h : NumberWritten negative w v) : ∃ d rest, w = d :: rest ∧ d.isDigit = true := by
  have digit {ds : List Char} (h : WholeDigits ds) (rest : List Char) :
      ∃ d rest', ds ++ rest = d :: rest' ∧ d.isDigit = true := by
    obtain ⟨d, ds, rfl⟩ := List.exists_cons_of_ne_nil h.nonempty
    exact ⟨d, ds ++ rest, rfl, h.digits d List.mem_cons_self⟩
  cases h with
  | integer h _ => simpa using digit h []
  | binary h _ _ _ => exact digit h _

/-- a number or a name stands as it is between the brackets of YAML -/
theorem ScalarWritten.flowWord (h : ScalarWritten w v) : Yaml.Lexer.FlowWord w := by
  refine ⟨fun c hc => isFlowWord_of_isWordChar (h.wordChars.1 c hc), ?_⟩
  have alphanum {d : Char} (h : d.isDigit = true) : d.isAlphanum = true := by simp [Char.isAlphanum, h]
  rcases h.cases with ⟨name, hname, rfl⟩ | ⟨s, body, rfl, hbody⟩
  · simp only [names, List.mem_cons, Prod.mk.injEq, List.not_mem_nil, or_false] at hname
    rcases hname with ⟨rfl, -⟩ | ⟨rfl, -⟩ | ⟨rfl, -⟩ | ⟨rfl, -⟩ | ⟨rfl, -⟩ | ⟨rfl, -⟩
    all_goals first
      | exact .inl ⟨_, _, rfl, by decide⟩
      | exact .inr ⟨_, _, rfl, by decide⟩
  · obtain ⟨d, rest, rfl, hd⟩ := hbody.head
    cases s with
    | false => exact .inl ⟨d, rest, rfl, alphanum hd⟩
    | true => exact .inr ⟨d, rest, rfl, alphanum hd⟩

/-! ## Values -/

/-- a character of the digits of a number, before its exponent -/
theorem not_exponent_mark {s : Bool} {ds ps places : List Char} (h : WholeDigits ds) (hp : PlacesWritten ps places) :
    ∀ c ∈ Yaml.Numeral s (ds ++ places), (c != 'e' && c != 'E') = true := by
  have hdigit {c : Char} (hc : c.isDigit = true) : (c != 'e' && c != 'E') = true := by
    simp only [Bool.and_eq_true, bne_iff_ne]
    constructor
    all_goals
      rintro rfl
      exact absurd hc (by decide)
  refine append_all ?_ (append_all (fun c hc => hdigit (h.digits c hc)) ?_)
  · cases s <;> simp
  · cases hp with
    | none => simp
    | point hd _ => exact List.forall_mem_cons.2 ⟨by decide, fun c hc => hdigit (hd c hc)⟩

theorem point_not_mem {ds : List Char} (h : ∀ c ∈ ds, c.isDigit = true) : '.' ∉ ds :=
  fun hmem => absurd (h _ hmem) (by decide)

/-- a number whose exponent is full, or that has none, has a point -/
theorem pointed_of_fullExponent {s : Bool} {ds ps places tail : List Char} {e : Option Int} (h : WholeDigits ds)
    (hp : PlacesWritten ps places) (he : ExponentWritten e tail) (hn : places ++ tail ≠ [])
    (hfull : hasFullExponent (Yaml.Numeral s (ds ++ (places ++ tail))) = true) :
    places = '.' :: ps ∧ Yaml.Pointed (e.getD 0) ds ps tail := by
  have hexponent : Stops (fun c => c != 'e' && c != 'E') tail := by
    cases he with
    | none => exact stops_nil
    | mark hmark => rcases hmark with rfl | rfl <;> exact stops_cons (by decide)
  have hsplit : Yaml.Numeral s (ds ++ (places ++ tail)) = Yaml.Numeral s (ds ++ places) ++ tail := by
    simp only [Yaml.Numeral, List.append_assoc]
  unfold hasFullExponent at hfull
  rw [hsplit, dropWhile_append_of_stops (not_exponent_mark h hp) hexponent] at hfull
  cases he with
  | none =>
    cases hp with
    | none => exact absurd rfl hn
    | point hd _ => exact ⟨rfl, h.digits, h.nonempty, hd, .none⟩
  | @mark mark sign digits negative hmark hsign hdigits hnonempty =>
    -- an exponent without a sign is not full, and one with a sign comes after a point
    have signed {c : Char} (hc : c = if negative then '-' else '+') (hcontains : (Yaml.Numeral s (ds ++ places) ++
        mark :: c :: digits).contains '.' = true) : places = '.' :: ps ∧
          Yaml.Pointed (signed negative (ofDigits digits)) ds ps
          (mark :: c :: digits) := by
      cases hp with
      | none =>
        have hmem := List.contains_iff_mem.1 hcontains
        simp only [Yaml.Numeral, List.append_nil, List.mem_append, List.mem_cons] at hmem
        rcases hmem with (hmem | hmem) | hmem | hmem | hmem
        · cases s <;> simp at hmem
        · exact absurd hmem (point_not_mem h.digits)
        · rcases hmark with rfl | rfl <;> cases hmem
        · rw [hc] at hmem
          cases negative <;> cases hmem
        · exact absurd hmem (point_not_mem hdigits)
      | point hd _ => exact ⟨rfl, h.digits, h.nonempty, hd, hc ▸ .mark hmark negative hdigits hnonempty⟩
    cases hsign with
    | unsigned =>
      obtain ⟨d, digits, rfl⟩ := List.exists_cons_of_ne_nil hnonempty
      obtain ⟨hminus, hplus⟩ := ne_sign_of_isDigit (hdigits d List.mem_cons_self)
      rw [List.nil_append] at hfull
      simp [hminus, hplus] at hfull
    | plus => exact signed rfl (Bool.and_eq_true_iff.1 hfull).2
    | minus => exact signed rfl (Bool.and_eq_true_iff.1 hfull).2

/-- a number that is a shared word is the same number in YAML -/
theorem makes_number {s : Bool} (h : NumberWritten s w v) (hs : isSharedWord (Yaml.Numeral s w) = true) :
    Yaml.Makes (.scalar (Yaml.Tag.ofPlain (Yaml.Numeral s w)) (Yaml.Numeral s w)) v := by
  have hopens := h.opens
  rw [isSharedWord, Yaml.not_word (by decide) hopens, Bool.false_or, Bool.and_eq_true] at hs
  cases h with
  | @integer _ n h hn =>
    have hvalue : Yaml.scalarValue .integer (Yaml.Numeral s w) = .ok (.int (signed s n)) := by
      rw [Yaml.scalarValue, Yaml.integerValue_whole h hn]
      rfl
    rw [Yaml.ofPlain_integer hopens (Yaml.not_isPointed_of_digits h.digits) (Yaml.isIntegerText_whole h s)]
    exact @Yaml.makes_scalar .integer _ _ rfl hvalue
  | binary h hp he hn =>
    obtain ⟨rfl, hpointed⟩ := pointed_of_fullExponent h hp he hn hs.2
    rw [List.cons_append] at hopens ⊢
    have hvalue := congrArg (fun x => Yaml.made (x.map Value.float)) (hpointed.value s)
    rw [Yaml.ofPlain_float hopens hpointed.isPointed]
    exact @Yaml.makes_scalar .float _ _ rfl hvalue

/-- **A shared word has the same value in YAML.** -/
theorem makes_of_sharedWord (h : ScalarWritten w v) (hs : isSharedWord w = true) :
    Yaml.Makes (.scalar (Yaml.Tag.ofPlain w) w) v := by
  rcases h.cases with ⟨name, hname, rfl⟩ | ⟨s, body, rfl, hbody⟩
  · simp only [names, List.mem_cons, Prod.mk.injEq, List.not_mem_nil, or_false] at hname
    rcases hname with ⟨rfl, rfl⟩ | ⟨rfl, rfl⟩ | ⟨rfl, rfl⟩ | ⟨rfl, rfl⟩ | ⟨rfl, rfl⟩ | ⟨rfl, rfl⟩
    · exact @Yaml.makes_scalar .null _ _ rfl rfl
    · exact @Yaml.makes_scalar .boolean _ _ rfl rfl
    · exact @Yaml.makes_scalar .boolean _ _ rfl rfl
    all_goals exact absurd hs (by decide)
  · exact makes_number hbody hs

end Intake.Json
