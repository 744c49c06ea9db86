/-
Scalars as values and as keys.

A scalar whose tag is told by its style stands without a tag (`Scalar.Told`). As a value it is one token, up to the next
line (`Scalar.Told.lexes`), if its text is legible where it stands; so it is as a key on a line with its value, if what
is written is not too long (`Scalar.Told.keyWritten`).

A text is legible where it stands without quotes; between apostrophes, if it holds no next line character; between
double quotes, if its lines are not indented to the width, or none of them is broken twice (`legibleText`).
-/
import Intake.Proofs.Yaml.Lexing

namespace Intake.Yaml

open Intake.Number Intake.Text Lexer

/-- what is written of a text at an indentation reads back -/
def legibleText (style : Style) (indent : Nat) (cs : List Char) : Bool :=
  match style with
  | .plain | .block => true
  | .single => cs.all fun c => c.toNat != 0x85
  | .double => decide (indent < width) || !hasPair isEscaped isSpace cs.tail.dropLast

namespace Scalar

variable {s : Scalar}

/-- no tag needs to be written: the scalar is a text, or it stands without quotes and is read with its own tag -/
structure Told (s : Scalar) : Prop where
  lines : s.wantsBlock = false
  told : s.tag = .text ∨ (s.readsPlain = true ∧ (Traits.ofText s.text).allowsPlain = true ∧ s.text ≠ [])

/-- the style of a scalar is one of three -/
inductive Styled (s : Scalar) (inKey : Bool) : Style → Prop where
  | plain (hr : s.readsPlain = true) (h : PlainText s.text) : Styled s inKey .plain
  | single (h : (Traits.ofText s.text).allowsSingle = true) : Styled s inKey .single
  | double : Styled s inKey .double

theorem text_ne_nil_of_readsPlain (h : s.tag = .text) (hr : s.readsPlain = true) : s.text ≠ [] := by
  intro hn
  rw [readsPlain, hn, h] at hr
  exact absurd hr (by decide)

theorem Told.text_ne_nil (h : s.Told) (hr : s.readsPlain = true) : s.text ≠ [] := by
  rcases h.told with ht | ht
  · exact text_ne_nil_of_readsPlain ht hr
  · exact ht.2.2

theorem Told.styled (h : s.Told) (inKey : Bool) : s.Styled inKey (s.style inKey) := by
  unfold style
  dsimp only
  rw [h.lines]
  simp only [Bool.false_eq_true, if_false]
  split
  · rename_i hplain
    simp only [Bool.and_eq_true] at hplain
    exact .plain hplain.1.1 (plainText_of_allowsPlain (h.text_ne_nil hplain.1.1) hplain.1.2)
  · split
    · rename_i hsingle
      simp only [Bool.and_eq_true] at hsingle
      exact .single hsingle.1
    · exact .double

theorem Told.writtenTag_style (h : s.Told) (inKey : Bool) (hkey : inKey = true → (Traits.ofText s.text).empty = false ∧
    (Traits.ofText s.text).multiline = false) : s.writtenTag (s.style inKey) = [] := by
  have hstyled := h.styled inKey
  unfold writtenTag
  rcases h.told with ht | ⟨hr, hp, -⟩
  · cases hstyle : s.style inKey with
    | plain =>
      rw [hstyle] at hstyled
      cases hstyled with
      | plain hr _ => simp [hr]
    | _ => simp [ht]
  · have hplain : s.style inKey = .plain := by
      unfold style
      dsimp only
      rw [h.lines, hr, hp]
      cases inKey with
      | false => rfl
      | true => rw [(hkey rfl).1, (hkey rfl).2]; rfl
    rw [hplain]
    simp [hr]

/-! ## Values -/

/-- **A scalar is one token where it stands as a value.** -/
theorem Told.lexes (h : s.Told) (p : Place) (hl : legibleText (s.style false) (p.indent + 2) s.text = true) :
    Lexes p (s.asValue p.indent p.column) [.scalar s.text (s.style false == .plain)] := by
  have hstyled := h.styled false
  have htag : s.writtenTag (s.style false) = [] := h.writtenTag_style false nofun
  have hvalue :
      s.asValue p.indent p.column = ' ' :: (s.style false).write false (p.indent + 2) (p.column + 1) s.text := by
    unfold asValue
    dsimp only
    rw [htag]
    rfl
  rw [hvalue]
  refine ⟨⟨_, _, rfl, by decide⟩, ?_⟩
  intro c found out outer k body hc hk hb hcol hcompact ha
  generalize s.style false = style at *
  -- to the scalar, past the blank before it
  have hnext :
    c.next = ⟨style.write false (p.indent + 2) (p.column + 1) s.text ++ (newline k ++ body), c.index + 1, c.line,
      c.column + 1⟩ := Cursor.next_of_steady hc space_isSteady
  have hrest : c.next.rest = style.write false (p.indent + 2) (p.column + 1) s.text ++ (newline k ++ body) := by
    rw [hnext]
  have hcol' : p.indent < c.next.column := by
    rw [hnext]
    exact Nat.lt_succ_of_lt hcol
  have hskip (n : Nat) (w : List Char) (hw : w.length = n) :
      c.skip ((' ' :: w).length + (k + 1)) = c.next.skip (n + (k + 1)) := by
    rw [List.length_cons, hw, Nat.succ_add]
    rfl
  rw [hskip _ _ rfl] at ha
  have arrives (hbegins : Begins (style.write false (p.indent + 2) (p.column + 1) s.text ++ (newline k ++ body)))
      (harrives : (inBlock c.next found p.indent outer p.compact []).Arrives out) :
      (inBlock c found p.indent outer p.compact []).Runs out :=
    .spaces (n := 1) (hc.trans rfl) hbegins nofun harrives
  cases hstyled with
  | plain hr hp =>
    obtain ⟨a, w', hw, -, hbegins⟩ := beginsPlain_of_written hp
      (plainWritten_plainWords (p.indent + 2) _ (Nat.le_refl _) hp.after_letter (p.column + 1)) (newline k ++ body)
    have hwrite : Style.plain.write false (p.indent + 2) (p.column + 1) s.text = a :: w' := hw
    refine arrives (by rw [hwrite]; exact begins_cons hbegins.opensToken _) ?_
    exact .plainValue hp (by omega) hk hb hcol' hrest ha
  | single hsingle =>
    have hquote : opensToken '\x27' = true := by decide
    have hsafe : ∀ c ∈ s.text, c.toNat ≠ 0x85 := fun d hd => by simpa using List.all_eq_true.1 hl d hd
    have hnone : ((none : Option Char).map isBreak).getD false = false := rfl
    have hwritten := (singleText_of_allowsSingle hsingle hsafe).written (p.indent + 2) hnone (p.column + 2)
    refine arrives (begins_cons hquote _) (.quotedValue (.inl rfl) hb hcol' rfl ?_ hrest ha)
    have hread := quotedScalar_single (Nat.succ_pos _) hwritten (r := newline k ++ body) (fun h => by cases h)
      (c := c.next) (by rw [hrest]; simp [Style.write])
    rw [hread]
    simp [Style.write]
  | double =>
    have hquote : opensToken '"' = true := by decide
    have hwritten :
        DoubleWritten (p.indent + 2) s.text (doubleInside (p.indent + 2) true true false (p.column + 2) s.text) := by
      refine doubleWritten_doubleInside true false _ (.inr ?_)
      simpa [legibleText, NoTwiceBroken] using hl
    refine arrives (begins_cons hquote _) (.quotedValue (.inr rfl) hb hcol' rfl ?_ hrest ha)
    have hread := quotedScalar_double (Nat.succ_pos _) hwritten (r := newline k ++ body) (c := c.next)
      (by rw [hrest]; simp [Style.write])
    rw [hread]
    simp [Style.write]

theorem isPlainChar_quoted {q : Char} (hq : isPlainChar q = true) {w : List Char} (hw : ∀ ch ∈ w, isPlainChar ch = true) :
    ∀ ch ∈ q :: w ++ [q], isPlainChar ch = true :=
  List.forall_mem_append.2 ⟨List.forall_mem_cons.2 ⟨hq, hw⟩, List.forall_mem_singleton.2 hq⟩

theorem Told.chars (h : s.Told) {indent column : Nat} (hl : legibleText (s.style false) (indent + 2) s.text = true) :
    ∀ ch ∈ s.asValue indent column, isPlainChar ch = true := by
  have hstyled := h.styled false
  have htag : s.writtenTag (s.style false) = [] := h.writtenTag_style false nofun
  have hvalue : s.asValue indent column = ' ' :: (s.style false).write false (indent + 2) (column + 1) s.text := by
    unfold asValue
    dsimp only
    rw [htag]
    rfl
  rw [hvalue]
  refine List.forall_mem_cons.2 ⟨by decide, ?_⟩
  generalize s.style false = style at *
  cases hstyled with
  | plain hr hp =>
    exact (plainWritten_plainWords (indent + 2) _ (Nat.le_refl _) hp.after_letter (column + 1)).chars fun ch hch =>
      (hp.chars ch hch).1
  | single hsingle =>
    have hsafe : ∀ c ∈ s.text, c.toNat ≠ 0x85 := fun d hd => by simpa using List.all_eq_true.1 hl d hd
    have hnone : ((none : Option Char).map isBreak).getD false = false := rfl
    have htext := singleText_of_allowsSingle hsingle hsafe
    exact isPlainChar_quoted (by decide)
      ((htext.written (indent + 2) hnone (column + 2)).chars fun ch hch => (htext.chars ch hch).1)
  | double =>
    have hwritten :
        DoubleWritten (indent + 2) s.text (doubleInside (indent + 2) true true false (column + 2) s.text) := by
      refine doubleWritten_doubleInside true false _ (.inr ?_)
      simpa [legibleText, NoTwiceBroken] using hl
    exact isPlainChar_quoted (by decide) hwritten.chars

/-! ## Keys -/

theorem not_opensAsMark_append {cs : List Char} (h : opensAsMark cs = false) {ch : Char} (h1 : ch ≠ '-') (h2 : ch ≠ '.')
    (r : List Char) : opensAsMark (cs ++ ch :: r) = false := by
  rcases cs with - | ⟨a, - | ⟨b, - | ⟨c, cs⟩⟩⟩
  · exact not_opensAsMark_of_space h1 h2
  · simp [opensAsMark, h1, h2]
  · simp [opensAsMark, h1, h2]
  · simpa [opensAsMark] using h

theorem isSteady_of_mem_keyInside {cs : List Char} (h : ∀ c ∈ cs, isPlainChar c = true ∧ isBreak c = false) :
    ∀ ch ∈ keyInside cs, isSteady ch = true := by
  intro ch hch
  obtain ⟨c, hc, hmem⟩ := List.mem_flatMap.1 hch
  have hsteady := isSteady_of_plain (h c hc).1 (h c hc).2
  split at hmem
  · obtain rfl : ch = c := by simpa using hmem
    exact hsteady
  · obtain rfl : ch = c := by simpa using hmem
    exact hsteady

theorem isSteady_of_visible {c : Char} (h : isVisible c = true) : isSteady c = true :=
  isSteady_of_plain (isPlainChar_of_visible h) (not_isBreak_of_visible h)

/-- a line that is not broken is what is written at every indentation -/
theorem doubleInside_key (indent indent' : Nat) (isFirst afterEscape : Bool) (column column' : Nat) (cs : List Char) :
    doubleInside indent false isFirst afterEscape column cs =
    doubleInside indent' false isFirst afterEscape column' cs := by
  induction cs generalizing isFirst afterEscape column column' with
  | nil => rw [doubleInside, doubleInside]
  | cons ch cs ih =>
    rw [doubleInside, doubleInside]
    cases doubleEscape ch with
    | none => simp only [Bool.false_and, Bool.false_eq_true, if_false, ih false false (column + 1) (column' + 1)]
    | some e =>
      simp only [Bool.false_and, Bool.false_eq_true, if_false, ih false true (column + e.length) (column' + e.length)]

theorem isSteady_of_mem_doubleInside (indent column : Nat) (isFirst afterEscape : Bool) (cs : List Char) :
    ∀ ch ∈ doubleInside indent false isFirst afterEscape column cs, isSteady ch = true := by
  induction cs generalizing isFirst afterEscape column with
  | nil =>
    rw [doubleInside]
    exact fun ch hch => absurd hch List.not_mem_nil
  | cons ch cs ih =>
    rw [doubleInside]
    cases he : doubleEscape ch with
    | none =>
      simp only [Bool.false_and, Bool.false_eq_true, if_false]
      have hplain := plain_of_not_escaped he
      exact List.forall_mem_cons.2 ⟨isSteady_of_plain hplain.1 hplain.2.1, ih _ _ _⟩
    | some e =>
      simp only [Bool.false_and, Bool.false_eq_true, if_false]
      exact List.forall_mem_append.2 ⟨fun x hx => isSteady_of_visible (visible_of_mem_doubleEscape he x hx), ih _ _ _⟩

def keyText (s : Scalar) : List Char := (s.style true).write true 0 0 s.text

theorem Told.asKey?_eq (h : s.Told) {w : List Char} (hw : s.asKey? = some w) : w = s.keyText ∧
    (Traits.ofText s.text).empty = false ∧ (Traits.ofText s.text).multiline = false := by
  unfold asKey? at hw
  dsimp only at hw
  split at hw
  · rename_i hshort
    simp only [Bool.and_eq_true, Bool.not_eq_true'] at hshort
    rw [h.writtenTag_style true fun _ => ⟨hshort.1.2, hshort.2⟩] at hw
    exact ⟨(Option.some.inj hw).symm, hshort.1.2, hshort.2⟩
  · cases hw

/-- what may stand on one line between single quotes can be written, and ends no line -/
theorem chars_of_allowsSingle {cs : List Char} (hsingle : (Traits.ofText cs).allowsSingle = true)
    (hlines : (Traits.ofText cs).multiline = false) : ∀ c ∈ cs, isPlainChar c = true ∧ isBreak c = false := by
  have hbreak : ∀ c ∈ cs, isBreak c = false := fun c hc => by simpa using List.any_eq_false.1 hlines c hc
  have hsafe : ∀ c ∈ cs, c.toNat ≠ 0x85 := by
    intro c hc h85
    have := hbreak c hc
    simp [isBreak, h85] at this
  exact fun c hc => ⟨((singleText_of_allowsSingle hsingle hsafe).chars c hc).1, hbreak c hc⟩

theorem plain_keyWritten {cs : List Char} (hp : PlainText cs)
    (hreach : (Style.plain.write true 0 0 cs).length ≤ keyReach) :
    KeyWritten cs true (Style.plain.write true 0 0 cs) := by
  have hwritten := plainWritten_self 1 _ (Nat.le_refl _) hp.after_letter
  have hbegins (r : List Char) : ∃ a w', cs = a :: w' ∧ cs.head? = some a ∧ BeginsPlain a (w' ++ r) :=
    beginsPlain_of_written hp hwritten r
  have hcolon : (':' : Char) ≠ '-' ∧ (':' : Char) ≠ '.' := by decide
  constructor
  case steady => exact fun ch hch => isSteady_of_plain (hp.chars ch hch).1 (hp.chars ch hch).2
  case reach => exact hreach
  case begins =>
    refine fun r => ⟨?_, not_opensAsMark_append hp.mark hcolon.1 hcolon.2 r⟩
    obtain ⟨a, w', hw', -, hplain⟩ := hbegins (':' :: r)
    change Begins (cs ++ ':' :: r)
    rw [hw']
    exact begins_cons hplain.opensToken _
  case first => exact List.exists_cons_of_ne_nil hp.nonempty
  case reads =>
    intro c d r found indent outer hc hd hi
    obtain ⟨a, w', hw', -, hplain⟩ := hbegins (':' :: d :: r)
    have hmark := not_opensAsMark_append hp.mark hcolon.1 hcolon.2 (d :: r)
    change c.rest = cs ++ ':' :: d :: r at hc
    have hread := hp.plainScalar_key (r := d :: r) hd hi hc
    rw [hw'] at hmark
    have hcons : c.rest = a :: (w' ++ ':' :: d :: r) := by rw [hc, hw']; rfl
    exact (dispatch_plain (s := inBlock c found indent outer true []) hcons hplain (fun _ => hmark)
      fun h => absurd rfl h).trans (plainToken_eq hread)

theorem single_keyWritten {cs : List Char} (hchars : ∀ c ∈ cs, isPlainChar c = true ∧ isBreak c = false)
    (hreach : (Style.single.write true 0 0 cs).length ≤ keyReach) :
    KeyWritten cs false (Style.single.write true 0 0 cs) := by
  have hquote : ∀ ch ∈ ['\x27'], isSteady ch = true := List.forall_mem_singleton.2 rfl
  refine ⟨?_, hreach, fun r => beginsLine_cons (by decide) (by decide) (by decide) _, ⟨_, _, rfl⟩, ?_⟩
  · exact List.forall_mem_append.2 ⟨List.forall_mem_append.2 ⟨hquote, isSteady_of_mem_keyInside hchars⟩, hquote⟩
  · intro c d r found indent outer hc hd hi
    have hrest : c.rest = '\x27' :: keyInside cs ++ '\x27' :: (':' :: d :: r) := by
      rw [hc]
      simp [Style.write, keyInside]
    have hread := quotedScalar_single (Nat.succ_pos 0) (singleWritten_keyInside 1 hchars) (by simp) hrest
    have hlength : (keyInside cs).length + 2 = (Style.single.write true 0 0 cs).length := by
      simp [Style.write, keyInside]
    rw [hlength] at hread
    exact (dispatch_quoted (s := inBlock c found indent outer true []) hrest (.inl rfl)).trans (quotedToken_eq hread)

theorem doubleWritten_key (cs : List Char) : DoubleWritten 1 cs (doubleInside 0 false true false 1 cs) := by
  rw [doubleInside_key 0 1 true false 1 1]
  exact doubleWritten_doubleInside true false 1 (.inl rfl)

theorem double_keyWritten {cs : List Char} (hreach : (Style.double.write true 0 0 cs).length ≤ keyReach) :
    KeyWritten cs false (Style.double.write true 0 0 cs) := by
  have hquote : ∀ ch ∈ ['"'], isSteady ch = true := List.forall_mem_singleton.2 rfl
  refine ⟨?_, hreach, fun r => beginsLine_cons (by decide) (by decide) (by decide) _, ⟨_, _, rfl⟩, ?_⟩
  · exact List.forall_mem_append.2 ⟨List.forall_mem_append.2 ⟨hquote, isSteady_of_mem_doubleInside _ _ _ _ _⟩, hquote⟩
  · intro c d r found indent outer hc hd hi
    have hrest : c.rest = '"' :: doubleInside 0 false true false 1 cs ++ '"' :: (':' :: d :: r) := by
      rw [hc]
      simp [Style.write]
    have hread := quotedScalar_double (Nat.succ_pos 0) (doubleWritten_key cs) hrest
    have hlength : (doubleInside 0 false true false 1 cs).length + 2 = (Style.double.write true 0 0 cs).length := by
      simp [Style.write]
    rw [hlength] at hread
    exact (dispatch_quoted (s := inBlock c found indent outer true []) hrest (.inr rfl)).trans (quotedToken_eq hread)

/-- **A scalar is read as a key on a line with its value**, if what is written of it is not too long. -/
theorem Told.keyWritten (h : s.Told) {w : List Char} (hw : s.asKey? = some w) (hreach : w.length ≤ keyReach) :
    KeyWritten s.text (s.style true == .plain) w := by
  obtain ⟨rfl, hempty, hlines⟩ := h.asKey?_eq hw
  have hstyled := h.styled true
  unfold keyText at *
  generalize s.style true = style at *
  cases hstyled with
  | plain hr hp => exact plain_keyWritten hp hreach
  | single hsingle => exact single_keyWritten (chars_of_allowsSingle hsingle hlines) hreach
  | double => exact double_keyWritten hreach

theorem Told.keyChars (h : s.Told) {w : List Char} (hw : s.asKey? = some w) : ∀ ch ∈ w, isPlainChar ch = true := by
  obtain ⟨rfl, hempty, hlines⟩ := h.asKey?_eq hw
  have hstyled := h.styled true
  unfold keyText
  generalize s.style true = style at *
  cases hstyled with
  | plain hr hp => exact fun ch hch => (hp.chars ch hch).1
  | single hsingle =>
    have hchars := chars_of_allowsSingle hsingle hlines
    exact isPlainChar_quoted (by decide) ((singleWritten_keyInside 1 hchars).chars fun ch hch => (hchars ch hch).1)
  | double => exact isPlainChar_quoted (by decide) (doubleWritten_key s.text).chars

end Scalar

end Intake.Yaml
