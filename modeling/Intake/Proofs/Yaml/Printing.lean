/-
Documents read back from what is written of them.

What is written of plain data is read as that data (`read_of_print`), if every text in it is legible where it stands
and no key that stands on a line with its value is too long (`legibleNode`). A value is written where it stands as its
tokens, the tokens stand for a node, and the node makes the value (`Printed`); lists and mappings are put together from
what is written of their parts (`exists_items`, `exists_entries`).
-/
import Intake.Proofs.Yaml.Blocks
import Intake.Proofs.Yaml.Parsing
import Intake.Proofs.Yaml.Spelling

namespace Intake.Yaml

open Intake.Number Intake.Text Intake.Outcome Lexer

/-! ## Legible values -/

/-- a text is legible as a value inside a collection of some indentation -/
def legibleAt (indent : Nat) (s : String) : Bool :=
  legibleText ((textScalar s).style false) (indent + 2) s.toList

/-- a key is legible: on a line with its value within the reach of the colon, or as a value behind a mark -/
def legibleKey (indent : Nat) (s : String) : Bool :=
  match (textScalar s).asKey? with
  | some w => decide (w.length ≤ keyReach)
  | none => legibleAt indent s

mutual

def legibleNode (p : Place) : Value → Bool
  | .text s => legibleAt p.indent s
  | .list xs => legibleItems p.listIndent xs
  | .map _ es => legibleEntries p.mappingIndent es
  | _ => true

def legibleItems (indent : Nat) : List Value → Bool
  | [] => true
  | x :: xs => legibleNode (afterMark indent false) x && legibleItems indent xs

def legibleEntries (indent : Nat) : List (Value × Value) → Bool
  | [] => true
  | (.text s, v) :: es =>
    legibleKey indent s && legibleNode (valuePlace indent (textScalar s).asKey?) v && legibleEntries indent es
  | _ :: es => legibleEntries indent es

end

/-! ## Values -/

/-- **What is written of a value is read as the value where it stands.** -/
structure Printed (p : Place) (v : Value) (w : List Char) : Prop where
  written : printNode p v = .ok w
  chars : ∀ ch ∈ w, isPlainChar ch = true
  reads : ∃ ts n, Lexes p w ts ∧ Parses p.inMapping ts n ∧ Makes n v

/-- a place after a mark is one column further than the mark -/
def Place.Regular (p : Place) : Prop := p.compact = true → p.column = p.indent + 1

/-- what is written of a value is read as the value, wherever it is legible -/
def Prints (v : Value) : Prop := ∀ p : Place, p.Regular → legibleNode p v = true → ∃ w, Printed p v w

namespace Scalar

variable {s : Scalar}

/-- the tag of a scalar is told from its spelling or from its quotes -/
theorem Told.scalarTag (h : s.Told) (inKey : Bool) (hkey : inKey = true → s.tag = .text) :
    Yaml.scalarTag none (s.style inKey == .plain) s.text = s.tag := by
  have hstyled := h.styled inKey
  by_cases hplain : s.style inKey = .plain
  · rw [hplain] at hstyled ⊢
    cases hstyled with
    | plain hr _ => exact beq_iff_eq.1 hr
  · have htext : s.tag = .text := by
      rcases h.told with ht | ⟨hr, hp, -⟩
      · exact ht
      · cases inKey with
        | true => exact hkey rfl
        | false => exact absurd (style_eq_plain h.lines hr hp) hplain
    rw [htext, beq_eq_false_iff_ne.2 hplain]
    rfl

theorem Spells.reads {v : Value} (h : s.Spells v) (p : Place)
    (hl : legibleText (s.style false) (p.indent + 2) s.text = true) :
    ∃ ts n, Lexes p (s.asValue p.indent p.column) ts ∧ Parses p.inMapping ts n ∧ Makes n v := by
  refine ⟨_, _, h.told.lexes p hl, parses_scalar _ _ _, ?_⟩
  rw [h.told.scalarTag false nofun]
  exact makes_scalar h.single h.value

end Scalar

/-- plain data that is not a collection is read from what is written of it -/
theorem prints_atom {v : Value} (h : Atom v) : Prints v := by
  intro p hp hl
  obtain ⟨s, hs, hspells, hstyle⟩ := exists_spelled h
  have hlegible : legibleText (s.style false) (p.indent + 2) s.text = true := by
    rcases hstyle with hplain | ⟨t, rfl, rfl⟩
    · rw [hplain]
      rfl
    · exact hl
  refine ⟨s.asValue p.indent p.column, ?_, hspells.told.chars hlegible, hspells.reads p hlegible⟩
  have hprint : printNode p v = (Scalar.ofValue v).map fun s => s.asValue p.indent p.column := by
    cases h <;> rfl
  rw [hprint, hs]
  rfl

/-! ## Blocks -/

theorem isPlainChar_newline (k : Nat) : ∀ ch ∈ newline k, isPlainChar ch = true :=
  List.forall_mem_cons.2 ⟨by decide, fun ch hch => by rw [List.eq_of_mem_replicate hch]; decide⟩

theorem isPlainChar_lead (p : Place) (k : Nat) : ∀ ch ∈ p.lead k, isPlainChar ch = true := by
  unfold Place.lead
  split
  · intro ch hch
    rw [List.eq_of_mem_replicate hch]
    decide
  · exact isPlainChar_newline k

theorem regular_afterMark (indent : Nat) (inMapping : Bool) : (afterMark indent inMapping).Regular := fun _ => rfl

theorem regular_valuePlace (indent : Nat) (key : Option (List Char)) : (valuePlace indent key).Regular := by
  cases key with
  | some k => rintro ⟨⟩
  | none => exact regular_afterMark indent true

/-- **What is written of items is read as their values**, whatever leads to the first of them. -/
structure PrintedItems (indent : Nat) (xs : List Value) (w : List Char) : Prop where
  written : ∀ lead, printItems indent lead xs = .ok (lead ++ w)
  chars : ∀ ch ∈ w, isPlainChar ch = true
  reads : ∃ ts ns, LexesBlock .blockList indent w ts ∧ ItemTokens ts ns ∧ List.Forall₂ Makes ns xs

theorem exists_items {indent : Nat} {xs : List Value} (hne : xs ≠ []) (h : ∀ x ∈ xs, Prints x)
    (hl : legibleItems indent xs = true) : ∃ w, PrintedItems indent xs w := by
  induction xs with
  | nil => exact absurd rfl hne
  | cons x xs ih =>
    obtain ⟨hx, hxs⟩ := List.forall_mem_cons.1 h
    rw [legibleItems, Bool.and_eq_true] at hl
    obtain ⟨item, hitem⟩ := hx _ (regular_afterMark indent false) hl.1
    obtain ⟨ts, n, hlexes, hparses, hmakes⟩ := hitem.reads
    have hmark : ∀ ch ∈ '-' :: item, isPlainChar ch = true := List.forall_mem_cons.2 ⟨by decide, hitem.chars⟩
    rcases eq_or_ne xs [] with rfl | hmore
    · refine ⟨'-' :: item, fun lead => ?_, hmark, _, _, lexesBlock_item hlexes, ?_, .cons hmakes .nil⟩
      · simp only [printItems, hitem.written, ok_bind, List.append_nil]
      · have := ItemTokens.cons hparses .nil
        rwa [List.append_nil] at this
    · obtain ⟨w, hw⟩ := ih hmore hxs hl.2
      obtain ⟨ts', ns, hblock, htokens, hall⟩ := hw.reads
      refine ⟨'-' :: item ++ (newline indent ++ w), fun lead => ?_, ?_, _, _, (lexesBlock_item hlexes).append hblock,
        .cons hparses htokens, .cons hmakes hall⟩
      · simp only [printItems, hitem.written, hw.written, ok_bind, List.append_assoc, List.cons_append]
      · exact List.forall_mem_append.2 ⟨hmark, List.forall_mem_append.2 ⟨isPlainChar_newline indent, hw.chars⟩⟩

/-- what is written of an entry is read as its key and its value -/
structure PrintedEntry (indent : Nat) (f : String × Value) (w : List Char) : Prop where
  written : ∀ {lead rest : List Char} {es : List (Value × Value)}, printEntries indent (newline indent) es = .ok rest →
    printEntries indent lead ((.text f.1, f.2) :: es) = .ok (lead ++ w ++ rest)
  chars : ∀ ch ∈ w, isPlainChar ch = true
  reads : ∃ ts ts' k v, LexesBlock .blockMapping indent w (.key :: ts ++ .value :: ts') ∧ Parses true ts k ∧
    Parses true ts' v ∧ MakesEntry (k, v) f

theorem parses_text (inKey : Bool) (s : String) :
    Parses true [.scalar s.toList ((textScalar s).style inKey == .plain)] (.scalar .text s.toList) := by
  have h := parses_scalar true ((textScalar s).style inKey == .plain) s.toList
  rwa [show scalarTag none ((textScalar s).style inKey == .plain) s.toList = .text from
    (told_textScalar s).scalarTag inKey fun _ => rfl] at h

theorem exists_entry {indent : Nat} {s : String} {v : Value} (hv : Prints v) (hk : legibleKey indent s = true)
    (hl : legibleNode (valuePlace indent (textScalar s).asKey?) v = true) : ∃ w, PrintedEntry indent (s, v) w := by
  obtain ⟨value, hvalue⟩ := hv _ (regular_valuePlace indent _) hl
  obtain ⟨ts, n, hlexes, hparses, hmakes⟩ := hvalue.reads
  have hsimple : simpleKey? (.text s) = .ok (textScalar s).asKey? := rfl
  unfold legibleKey at hk
  have hwritten := hvalue.written
  have hchars := hvalue.chars
  cases hkey : (textScalar s).asKey? with
  | some key =>
    rw [hkey] at hk hlexes hparses hwritten hsimple
    have hreach : key.length ≤ keyReach := of_decide_eq_true hk
    refine ⟨key ++ ':' :: value, fun {lead rest es} hrest => ?_, ?_, [_], _, _, _,
      lexesBlock_simple ((told_textScalar s).keyWritten hkey hreach) hlexes, parses_text true s, hparses, rfl, hmakes⟩
    · simp only [printEntries, hsimple, hwritten, hrest, ok_bind, entry]
    · exact List.forall_mem_append.2 ⟨(told_textScalar s).keyChars hkey, List.forall_mem_cons.2 ⟨by decide, hchars⟩⟩
  | none =>
    rw [hkey] at hk hlexes hparses hwritten hsimple
    have hmarked : printNode (afterMark indent true) (.text s) = .ok ((textScalar s).asValue indent (indent + 1)) := rfl
    refine ⟨_, fun {lead rest es} hrest => ?_, ?_, _, _, _, _,
      lexesBlock_marked ((told_textScalar s).lexes (afterMark indent true) hk) hlexes, parses_text false s, hparses,
        rfl, hmakes⟩
    · simp only [printEntries, hsimple, hwritten, hmarked, hrest, ok_bind, entry]
      rfl
    · refine List.forall_mem_append.2
        ⟨List.forall_mem_append.2 ⟨List.forall_mem_cons.2 ⟨by decide, ?_⟩, isPlainChar_newline indent⟩,
        List.forall_mem_cons.2 ⟨by decide, hchars⟩⟩
      exact (told_textScalar s).chars hk

/-- **What is written of entries is read as their keys and values**, whatever leads to the first of them. -/
structure PrintedEntries (indent : Nat) (fs : Fields) (w : List Char) : Prop where
  written : ∀ lead, printEntries indent lead fs.entries = .ok (lead ++ w)
  chars : ∀ ch ∈ w, isPlainChar ch = true
  reads : ∃ ts es, LexesBlock .blockMapping indent w ts ∧ EntryTokens ts es ∧ List.Forall₂ MakesEntry es fs

theorem exists_entries {indent : Nat} {fs : Fields} (hne : fs ≠ []) (h : ∀ f ∈ fs, Prints f.2)
    (hl : legibleEntries indent fs.entries = true) : ∃ w, PrintedEntries indent fs w := by
  induction fs with
  | nil => exact absurd rfl hne
  | cons f fs ih =>
    obtain ⟨hf, hfs⟩ := List.forall_mem_cons.1 h
    obtain ⟨s, v⟩ := f
    rw [Fields.entries_cons, legibleEntries, Bool.and_eq_true, Bool.and_eq_true] at hl
    obtain ⟨w, hw⟩ := exists_entry hf hl.1.1 hl.1.2
    obtain ⟨ts, ts', k, n, hlexes, hkey, hvalue, hmakes⟩ := hw.reads
    rcases eq_or_ne fs [] with rfl | hmore
    · refine ⟨w, fun lead => ?_, hw.chars, _, _, hlexes, ?_, .cons hmakes .nil⟩
      · have hlast : printEntries indent lead [(.text s, v)] = .ok (lead ++ w ++ []) := hw.written rfl
        rwa [List.append_nil] at hlast
      · have := EntryTokens.cons hkey hvalue .nil
        rwa [List.append_nil] at this
    · obtain ⟨w', hw'⟩ := ih hmore hfs hl.2
      obtain ⟨us, es, hblock, htokens, hall⟩ := hw'.reads
      refine ⟨w ++ (newline indent ++ w'), fun lead => ?_, ?_, _, _, hlexes.append hblock, .cons hkey hvalue htokens,
        .cons hmakes hall⟩
      · rw [Fields.entries_cons, hw.written (hw'.written _), List.append_assoc]
      · exact List.forall_mem_append.2 ⟨hw.chars, List.forall_mem_append.2 ⟨isPlainChar_newline indent, hw'.chars⟩⟩

/-! ## Collections -/

theorem Place.Regular.stands {p : Place} (h : p.Regular) {column : Nat} (hc : p.compact = true → column = p.indent + 2) :
    p.Stands column := fun hcompact => ⟨h hcompact, hc hcompact⟩

theorem prints_list {xs : List Value} (h : ∀ x ∈ xs, Prints x) : Prints (.list xs) := by
  intro p hp hl
  rcases eq_or_ne xs [] with rfl | hne
  · exact ⟨[' ', '[', ']'], rfl, List.all_eq_true.1 rfl, _, _, lexes_empty (.inl ⟨rfl, rfl⟩) (.inl ⟨rfl, rfl⟩),
      parses_emptyList _,
      makes_list .nil⟩
  obtain ⟨w, hw⟩ := exists_items hne h hl
  obtain ⟨ts, ns, hblock, htokens, hmakes⟩ := hw.reads
  refine ⟨p.lead p.listIndent ++ w, ?_, List.forall_mem_append.2 ⟨isPlainChar_lead p _, hw.chars⟩, ?_⟩
  · rw [printNode, List.isEmpty_eq_false_iff.2 hne, if_neg Bool.false_ne_true, hw.written]
  by_cases hbare : p.inMapping = true ∧ p.compact = false
  · -- at the level of its key
    have hindent : p.listIndent = p.indent := by simp [Place.listIndent, hbare.1, hbare.2]
    have hnodes : ns ≠ [] := by
      rintro rfl
      cases hmakes
      exact hne rfl
    rw [hindent] at hblock ⊢
    rw [hbare.1]
    exact ⟨_, _, hblock.lexes_bare hbare.2, htokens.parses_bare hnodes, makes_list hmakes⟩
  · have hindent : p.listIndent = p.indent + 2 := by
      rw [Place.listIndent, if_neg]
      simpa using hbare
    exact ⟨_, _, hblock.lexes (by omega) (hp.stands fun _ => hindent), htokens.parses _, makes_list hmakes⟩

theorem prints_mapping {fs : Fields} (hn : fs.names.Nodup) (h : ∀ f ∈ fs, Prints f.2) : Prints (.ofFields fs) := by
  intro p hp hl
  rcases eq_or_ne fs [] with rfl | hne
  · exact ⟨[' ', '\x7b', '\x7d'], rfl, List.all_eq_true.1 rfl, _, _, lexes_empty (.inr ⟨rfl, rfl⟩) (.inr ⟨rfl, rfl⟩),
      parses_emptyMapping _, makes_mapping .nil hn⟩
  have hlegible : legibleEntries p.mappingIndent fs.entries = true := hl
  obtain ⟨w, hw⟩ := exists_entries hne h hlegible
  obtain ⟨ts, es, hblock, htokens, hmakes⟩ := hw.reads
  have hentries : fs.entries.isEmpty = false := by
    cases fs with
    | nil => exact absurd rfl hne
    | cons f fs => rfl
  refine ⟨p.lead p.mappingIndent ++ w, ?_, List.forall_mem_append.2 ⟨isPlainChar_lead p _, hw.chars⟩, _, _,
    hblock.lexes (Nat.lt_add_of_pos_right (by decide)) (hp.stands fun _ => rfl), htokens.parses _,
    makes_mapping hmakes hn⟩
  rw [Value.ofFields_eq, printNode, hentries, if_neg Bool.false_ne_true, hw.written]

/-- **Plain data is read from what is written of it, wherever it is legible.** -/
theorem prints_of_plain {v : Value} (h : v.Plain) : Prints v := by
  induction h with
  | null => exact prints_atom .null
  | bool b => exact prints_atom (.bool b)
  | int h => exact prints_atom (.int h)
  | float hf hc => exact prints_atom (.float hf hc)
  | text s => exact prints_atom (.text s)
  | list _ ih => exact prints_list ih
  | map hn _ ih => exact prints_mapping hn ih

/-! ## Documents -/

/-- the tokens of a text that is one block, and the end of its last line -/
theorem tokens_of_block {opening : Token} {w : List Char} {ts : List Token} (h : LexesBlock opening 0 w ts) :
    tokens (w ++ ['\n']) = opening :: ts ++ [.blockEnd] := by
  have hruns : (inBlock (Cursor.start (w ++ ['\n'])) [] (-1) [] true []).Runs (opening :: ts ++ [.blockEnd]) := by
    generalize hc : Cursor.start (w ++ ['\n']) = c
    have hrest : c.rest = w ++ (newline 0 ++ []) := by rw [← hc]; rfl
    have hcol : c.column = 0 := by rw [← hc]; rfl
    refine .spaces (n := 0) hrest (h.begins 0 []).begins nofun ?_
    refine h.finds hrest (Nat.le_refl _) beginsLine_nil hcol (by decide) ?_
    -- at the end of the text
    have hskip := Cursor.skip_newline (Cursor.rest_skip_append hrest)
    rw [← Cursor.skip_add] at hskip
    have hend : (opening :: ts ++ [.blockEnd] : List Token) = (ts.reverse ++ [opening]).reverse ++ [.blockEnd] := by simp
    have hstart : (c.skip 0).skip (w.length + (0 + 1)) = c.skip (w.length + (0 + 1)) := rfl
    rw [hend, hstart, hskip]
    exact .finish (Int.le_refl 0) (Int.le_refl 0) rfl
  exact hruns _ (Nat.lt_succ_self _)

theorem isDocumentChar_of_plain {ch : Char} (h : isPlainChar ch = true) : isDocumentChar ch = true := by
  simp only [isPlainChar, isDocumentChar, Bool.or_eq_true, Bool.and_eq_true, decide_eq_true_eq, bne_iff_ne,
    beq_iff_eq] at h ⊢
  omega

/-- **A document written of plain data is read as that data**, if it is legible. -/
theorem read_of_print {fs : Fields} (hne : fs ≠ []) (hp : (Value.ofFields fs).Plain)
    (hl : legibleEntries 0 fs.entries = true) : ∃ text, print fs.entries = .ok text ∧ read text = .ok (.ofFields fs) := by
  obtain ⟨hn, hall⟩ := hp.fields
  obtain ⟨w, hw⟩ := exists_entries hne (fun f hf => prints_of_plain (hall f hf)) hl
  obtain ⟨ts, es, hblock, htokens, hmakes⟩ := hw.reads
  have hentries : fs.entries.isEmpty = false := by
    cases fs with
    | nil => exact absurd rfl hne
    | cons f fs => rfl
  have hchars : (w ++ ['\n']).all isDocumentChar = true := by
    refine List.all_eq_true.2 fun ch hch => isDocumentChar_of_plain ?_
    exact List.forall_mem_append.2 ⟨hw.chars, List.forall_mem_singleton.2 (by decide)⟩ ch hch
  refine ⟨String.ofList (w ++ ['\n']), ?_, read_of_makes ?_ (makes_mapping hmakes hn)⟩
  · rw [print, hentries, if_neg Bool.false_ne_true, hw.written]
    rfl
  · rw [String.toList_ofList, Node.ofText, hchars, if_pos rfl, tokens_of_block hblock]
    exact (htokens.parses false).ofTokens

end Intake.Yaml
