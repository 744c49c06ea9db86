/-
What is printed as JSON.

A value is printed if its integers are short enough for a numeral and the keys of its mappings have texts
(`Json.print_ok`): the style for readers writes whatever JSON does not know by its text. What is printed on one line is
clear of control characters, since a text escapes its own (`Json.print_clear`), so a terminal takes nothing out of it.

Induction is on the value by what stands directly in it (`Value.byChildren`); the items of a list and the entries of a
mapping are printed one by one (`Json.printAll_eq_mapM`, `Json.printEntries_eq_mapM`).
-/
import Intake.Json.Printer
import Intake.Proofs.BinaryText
import Intake.Proofs.CanonicalText
import Intake.Proofs.Outcome
import Intake.Proofs.ShownValues

namespace Intake

open Intake.Text Intake.Number Intake.Outcome

namespace Json

variable {style : Style} {level : Nat} {v : Value}

/-! ## Items and entries -/

theorem printAll_eq_mapM (xs : List Value) : printAll style level xs = xs.mapM (print style level) := by
  induction xs with
  | nil => rfl
  | cons x xs ih =>
    rw [printAll, List.mapM_cons, ih]
    rfl

def printEntry (style : Style) (level : Nat) (e : Value × Value) : Outcome (List Char) := do
  let key ← keyText e.1
  let value ← print style level e.2
  .ok (textJson style.ascii key ++ style.colon.toList ++ value)

theorem printEntries_eq_mapM (es : List (Value × Value)) :
    printEntries style level es = es.mapM (printEntry style level) := by
  induction es with
  | nil => rfl
  | cons e es ih =>
    obtain ⟨k, v⟩ := e
    simp only [printEntries, List.mapM_cons, ih, printEntry, bind_assoc, ok_bind]
    rfl

/-! ## Which values are printed -/

theorem intJson_ok {n : Int} (h : (intText? n).isSome) : ∃ cs, intJson n = .ok cs := by
  obtain ⟨cs, hcs⟩ := Option.isSome_iff_exists.1 h
  exact ⟨cs, by rw [intJson, hcs]⟩

theorem foreign_ok (hs : style.lenient = true) (hv : v.Writable) : ∃ cs, foreign style v = .ok cs := by
  obtain ⟨s, hplain⟩ := Option.isSome_iff_exists.1 (Value.plain?_isSome_of_shown? (Value.shown?_isSome hv))
  exact ⟨_, by rw [foreign, if_pos hs, hplain]⟩

end Json

namespace Value

/-- the integers of a value have numerals, and the keys of a mapping have texts -/
def HasJson (v : Value) : Prop :=
  v.Short ∧ ∀ readOnly es, v = .map readOnly es → ∀ e ∈ es, ∃ cs, Json.keyText e.1 = .ok cs

/-- every value inside has a text in JSON -/
abbrev Printable : Value → Prop := Throughout HasJson

theorem Printable.writable {v : Value} (h : v.Printable) : v.Writable := h.imp fun _ hx => hx.1

end Value

namespace Json

variable {style : Style} {level : Nat} {v : Value}

/-- **A value is printed**, if its integers have numerals and its keys have texts. -/
theorem print_ok (hs : style.lenient = true) (hv : v.Printable) (level : Nat) : ∃ cs, print style level v = .ok cs := by
  induction v using Value.byChildren generalizing level with
  | parts v ih =>
    have hwritable := hv.writable
    have items (xs : List Value) (hxs : ∀ x ∈ xs, Value.Child x v) : ∃ l, printAll style (level + 1) xs = .ok l := by
      rw [printAll_eq_mapM]
      exact mapM_ok_of_forall fun x hx => ih x (hxs x hx) (hv.child (hxs x hx)) (level + 1)
    cases v with
    | null => exact ⟨_, rfl⟩
    | bool b => exact ⟨_, rfl⟩
    | int n => exact intJson_ok hv.here.1
    | float x => exact ⟨_, rfl⟩
    | text s => exact ⟨_, rfl⟩
    | textMember s => exact ⟨_, rfl⟩
    | list xs =>
      obtain ⟨l, hl⟩ := items xs fun x hx => .item hx
      exact ⟨_, by rw [print, hl, ok_bind]⟩
    | tuple xs =>
      obtain ⟨l, hl⟩ := items xs fun x hx => .place hx
      exact ⟨_, by rw [print, hl, ok_bind]⟩
    | map readOnly es =>
      cases readOnly with
      | true => exact foreign_ok hs hwritable
      | false =>
        obtain ⟨l, hl⟩ : ∃ l, printEntries style (level + 1) es = .ok l := by
          rw [printEntries_eq_mapM]
          refine mapM_ok_of_forall fun e he => ?_
          obtain ⟨key, hkey⟩ := hv.here.2 _ es rfl e he
          obtain ⟨value, hvalue⟩ := ih e.2 (.entry he) (hv.child (.entry he)) (level + 1)
          exact ⟨_, by rw [printEntry, hkey, ok_bind, hvalue, ok_bind]⟩
        exact ⟨_, by rw [print, hl, ok_bind]⟩
    | _ => exact foreign_ok hs hwritable

/-! ## Control characters -/

def isClear (c : Char) : Bool := decide (0x20 ≤ c.toNat)

theorem isClear_of_visible {c : Char} (h : isVisible c = true) : isClear c = true := by
  simp only [isVisible, isClear, decide_eq_true_eq] at h ⊢
  omega

theorem isClear_of_isDigit {c : Char} (h : c.isDigit = true) : isClear c = true :=
  isClear_of_visible (isVisible_of_isDigit h)

/-- a style that breaks no lines and has nothing but blanks and marks between items -/
structure Style.OnOneLine (style : Style) : Prop where
  indent : style.indent = none
  comma : ∀ c ∈ style.comma.toList, isClear c = true
  colon : ∀ c ∈ style.colon.toList, isClear c = true

theorem Style.compact_onOneLine : Style.compact.OnOneLine :=
  ⟨rfl, List.all_eq_true.1 (by decide), List.all_eq_true.1 (by decide)⟩

theorem Style.line_onOneLine : Style.line.OnOneLine :=
  ⟨rfl, List.all_eq_true.1 (by decide), List.all_eq_true.1 (by decide)⟩

theorem clear_unitEscape (n : Nat) : ∀ c ∈ unitEscape n, isClear c = true := by
  refine List.forall_mem_cons.2 ⟨rfl, List.forall_mem_cons.2 ⟨rfl, fun c hc => ?_⟩⟩
  exact isClear_of_visible (Uuid.visible_of_isHexChar (Uuid.hexDigits_all 4 n c hc))

/-- a control character is escaped, and no escape holds one -/
theorem clear_escape (ascii : Bool) (c : Char) : ∀ d ∈ escape ascii c, isClear d = true := by
  unfold escape
  split
  · next h => rcases h with rfl | rfl <;> exact List.all_eq_true.1 (by decide)
  · split_ifs with _ _ _ _ _ hcontrol
    iterate 5 exact List.all_eq_true.1 (by decide)
    · unfold numberEscape
      split
      · exact clear_unitEscape _
      · exact List.forall_mem_append.2 ⟨clear_unitEscape _, clear_unitEscape _⟩
    · refine List.forall_mem_singleton.2 (decide_eq_true ?_)
      omega

theorem clear_textJson (ascii : Bool) (s : List Char) : ∀ c ∈ textJson ascii s, isClear c = true := by
  refine List.forall_mem_append.2 ⟨List.forall_mem_cons.2 ⟨rfl, fun c hc => ?_⟩, List.all_eq_true.1 (by decide)⟩
  obtain ⟨d, -, hc⟩ := List.mem_flatMap.1 hc
  exact clear_escape ascii d c hc

theorem clear_intJson {n : Int} {cs : List Char} (h : intJson n = .ok cs) : ∀ c ∈ cs, isClear c = true := by
  have hdigits : ∀ c ∈ digits n.natAbs, isClear c = true := fun c hc => isClear_of_isDigit (digits_all _ c hc)
  unfold intJson intText? intText at h
  split at h
  · next hs =>
    obtain ⟨-, hs⟩ := Option.ite_none_right_eq_some.1 hs
    cases h
    cases hs
    split
    · exact List.forall_mem_cons.2 ⟨rfl, hdigits⟩
    · exact hdigits
  · cases h

theorem clear_floatJson (x : Binary64) : ∀ c ∈ floatJson x, isClear c = true := by
  cases x with
  | nan p => exact List.all_eq_true.1 rfl
  | infinite s => cases s <;> exact List.all_eq_true.1 (by decide)
  | finite s m e =>
    have hbody : ∀ c ∈ (if m = 0 then "0.0".toList else Binary64.positiveText m e), isClear c = true := by
      split
      · exact List.all_eq_true.1 (by decide)
      · exact fun c hc => isClear_of_visible (Decimal.visible_of_isMark ((Binary64.opens_positiveText m e).1 c hc))
    show ∀ c ∈ (if s then '-' :: _ else _), isClear c = true
    split
    · exact List.forall_mem_cons.2 ⟨rfl, hbody⟩
    · exact hbody

theorem clear_foreign {cs : List Char} (h : foreign style v = .ok cs) : ∀ c ∈ cs, isClear c = true := by
  unfold foreign at h
  split at h
  · split at h
    · cases h
      exact clear_textJson _ _
    · cases h
  · cases h

theorem clear_bracketed (hs : style.OnOneLine) {opening closing : Char} (ho : isClear opening = true)
    (hc : isClear closing = true)
    {items : List (List Char)} (h : ∀ item ∈ items, ∀ c ∈ item, isClear c = true) :
    ∀ c ∈ bracketed style level opening closing items, isClear c = true := by
  have hline (k : Nat) : newline style k = [] := by rw [newline, hs.indent]
  cases items with
  | nil => exact List.forall_mem_cons.2 ⟨ho, List.forall_mem_singleton.2 hc⟩
  | cons first rest =>
    obtain ⟨hfirst, hrest⟩ := List.forall_mem_cons.1 h
    simp only [bracketed, hline, List.append_nil, List.cons_append, List.nil_append, List.forall_mem_cons,
      List.forall_mem_append,
      List.mem_flatMap, forall_exists_index, and_imp]
    refine ⟨ho, ⟨hfirst, fun c item hitem hc => ?_⟩, hc, by simp⟩
    rcases List.mem_append.1 hc with hc | hc
    · exact hs.comma c hc
    · exact hrest item hitem c hc

/-- **What is printed on one line is clear of control characters.** -/
theorem print_clear (hs : style.OnOneLine) {cs : List Char} (h : print style level v = .ok cs) :
    ∀ c ∈ cs, isClear c = true := by
  induction v using Value.byChildren generalizing level cs with
  | parts v ih =>
    have items {xs : List Value} {l : List (List Char)} (hxs : ∀ x ∈ xs, Value.Child x v)
        (hl : printAll style (level + 1) xs = .ok l) : ∀ item ∈ l, ∀ c ∈ item, isClear c = true := by
      rw [printAll_eq_mapM, mapM_eq_ok] at hl
      intro item hitem
      obtain ⟨x, hx, hprint⟩ := exists_of_mem_right hl hitem
      exact ih x (hxs x hx) hprint
    cases v with
    | null => cases h; exact List.all_eq_true.1 (by decide)
    | bool b => cases h; cases b <;> exact List.all_eq_true.1 (by decide)
    | int n => exact clear_intJson h
    | float x => cases h; exact clear_floatJson x
    | text s => cases h; exact clear_textJson _ _
    | textMember s => cases h; exact clear_textJson _ _
    | list xs =>
      obtain ⟨l, hl, h⟩ := bind_eq_ok.1 (show printAll style (level + 1) xs >>= _ = _ from h)
      cases h
      exact clear_bracketed hs rfl rfl (items (fun x hx => .item hx) hl)
    | tuple xs =>
      obtain ⟨l, hl, h⟩ := bind_eq_ok.1 (show printAll style (level + 1) xs >>= _ = _ from h)
      cases h
      exact clear_bracketed hs rfl rfl (items (fun x hx => .place hx) hl)
    | map readOnly es =>
      cases readOnly with
      | true => exact clear_foreign h
      | false =>
        rw [print] at h
        obtain ⟨l, hl, h⟩ := bind_eq_ok.1 h
        cases h
        refine clear_bracketed hs rfl rfl ?_
        rw [printEntries_eq_mapM, mapM_eq_ok] at hl
        intro item hitem
        obtain ⟨e, he, hprint⟩ := exists_of_mem_right hl hitem
        obtain ⟨key, -, hprint⟩ := bind_eq_ok.1 hprint
        obtain ⟨value, hvalue, hprint⟩ := bind_eq_ok.1 hprint
        cases hprint
        exact List.forall_mem_append.2 ⟨List.forall_mem_append.2 ⟨clear_textJson _ _, hs.colon⟩,
          ih e.2 (.entry he) hvalue⟩
    | _ =>
      simp only [print] at h
      exact clear_foreign h

end Json

end Intake
