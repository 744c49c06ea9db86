/-
Blocks of items and entries.

The items of a list and the entries of a mapping stand one below the other, at one column. What is written of them is
found as their tokens one after another (`LexesBlock.append`), between a token that opens the block and one that closes
it (`LexesBlock.lexes`). Only a list that stands at the level of its key has neither (`LexesBlock.lexes_bare`).
-/
import Intake.Proofs.Yaml.Scalars

namespace Intake.Yaml

/-- a block may stand here: on the line of its mark, one column further, or on a line of its own -/
def Place.Stands (p : Place) (column : Nat) : Prop :=
  p.compact = true → p.column = p.indent + 1 ∧ column = p.indent + 2

namespace Lexer

variable {opening : Token} {column : Nat} {w w' : List Char} {ts ts' : List Token}

@[simp] theorem opened_self (opening : Token) (column : Nat) (found : List Token) :
    opened opening column column found = found :=
  if_neg (Int.lt_irrefl _)

@[simp] theorem outside_self (column : Nat) (outer : List Int) : outside column column outer = outer :=
  if_neg (Int.lt_irrefl _)

/-! ## One after another -/

theorem LexesBlock.append (h : LexesBlock opening column w ts) (h' : LexesBlock opening column w' ts') :
    LexesBlock opening column (w ++ (newline column ++ w')) (ts ++ ts') where
  begins k body := by
    have := h.begins column (w' ++ (newline k ++ body))
    rwa [List.append_assoc, List.append_assoc]
  finds {c found out indent outer k body} hc hk hb hcol hi ha := by
    rw [List.append_assoc, List.append_assoc] at hc
    have hrest := Cursor.rest_skip_append hc
    have hskip := Cursor.skip_newline hrest
    refine h.finds hc (Nat.le_refl _) (h'.begins k body) hcol hi ?_
    rw [Cursor.skip_add]
    refine h'.finds (by rw [hskip]) hk hb (by rw [hskip]) (Int.le_refl _) ?_
    rw [opened_self, outside_self, ← Cursor.skip_add, ← Cursor.skip_add, ← List.append_assoc, ← List.reverse_append]
    have hlength : w.length + (column + 1 + (w'.length + (k + 1))) = (w ++ (newline column ++ w')).length + (k + 1) := by
      simp only [newline, List.length_append, List.length_cons, List.length_replicate]
      omega
    rwa [hlength]

/-! ## Items and entries -/

theorem beginsLine_mark {ch d : Char} (h : opensToken ch = true) (hd : isSpacing d = true) (r : List Char) :
    BeginsLine (ch :: d :: r) := by
  refine ⟨begins_cons h _, ?_⟩
  have h1 : d ≠ '-' := by
    rintro rfl
    exact absurd hd (by decide)
  have h2 : d ≠ '.' := by
    rintro rfl
    exact absurd hd (by decide)
  cases r <;> simp [opensAsMark, h1, h2]

theorem lexesBlock_item (h : Lexes (afterMark column false) w ts) :
    LexesBlock .blockList column ('-' :: w) (.item :: ts) := by
  obtain ⟨d, r, rfl, hd⟩ := h.spaced
  refine ⟨fun k body => beginsLine_mark (by decide) hd _, fun {c found out indent outer k body} hc hk hb hcol hi ha => ?_⟩
  subst hcol
  have hnext := Cursor.next_of_steady hc (by decide)
  refine .item hc hd hi (h.finds (by rw [hnext]; rfl) hk hb ?_ ?_ ?_)
  · rw [hnext]
    exact Nat.lt_succ_self _
  · intro _
    rw [hnext]
    rfl
  · rw [List.reverse_cons, List.append_assoc, List.length_cons, Nat.succ_add] at ha
    exact ha

theorem lexesBlock_simple {cs key : List Char} {isPlain : Bool} (hk : KeyWritten cs isPlain key)
    (h : Lexes (afterKey column key) w ts) :
    LexesBlock .blockMapping column (key ++ ':' :: w) (.key :: .scalar cs isPlain :: .value :: ts) := by
  obtain ⟨d, r, rfl, hd⟩ := h.spaced
  refine ⟨fun k body => ?_, fun {c found out indent outer k body} hc hle hb hcol hi ha => ?_⟩
  · rw [List.append_assoc]
    exact hk.begins _
  · subst hcol
    rw [List.append_assoc] at hc
    have hskip := Cursor.skip_of_steady hc hk.steady
    have hrest : (c.skip key.length).rest = ':' :: (d :: r ++ (newline k ++ body)) := Cursor.rest_skip_append hc
    have hnext := Cursor.next_of_steady hrest (by decide)
    have hafter : c.skip (key.length + 1) = (c.skip key.length).next := Cursor.skip_add c key.length 1
    refine .simpleKey hk hc hd hi ?_
    rw [hafter]
    refine h.finds (by rw [hnext]) hle hb ?_ nofun ?_
    · rw [hnext, hskip]
      exact Nat.lt_succ_of_le (Nat.le_add_right ..)
    · have hlength : (key ++ ':' :: d :: r).length + (k + 1) = key.length + 1 + ((d :: r).length + (k + 1)) := by
        simp only [List.length_append, List.length_cons]
        omega
      rw [hlength, Cursor.skip_add, hafter] at ha
      simpa [afterKey] using ha

/-- an entry whose key is marked, with its value on a line of its own -/
theorem lexesBlock_marked (hk : Lexes (afterMark column true) w ts) (h : Lexes (afterMark column true) w' ts') :
    LexesBlock .blockMapping column ('?' :: w ++ newline column ++ ':' :: w') (.key :: ts ++ .value :: ts') := by
  obtain ⟨d, r, rfl, hd⟩ := hk.spaced
  obtain ⟨e, q, rfl, he⟩ := h.spaced
  refine ⟨fun k body => ?_, fun {c found out indent outer k body} hc hle hb hcol hi ha => ?_⟩
  · simp only [List.cons_append, List.append_assoc]
    exact beginsLine_mark (by decide) hd _
  · subst hcol
    have hcons : c.rest = '?' :: (d :: r ++ (newline c.column ++ (':' :: e :: (q ++ (newline k ++ body))))) := by
      rw [hc]
      simp
    have hnext := Cursor.next_of_steady hcons (by decide)
    have hrest : c.next.rest = d :: r ++ (newline c.column ++ (':' :: e :: (q ++ (newline k ++ body)))) := by rw [hnext]
    have hbegins : BeginsLine (':' :: e :: (q ++ (newline k ++ body))) := beginsLine_mark (by decide) he _
    refine .keyMark hcons hd hi (hk.finds hrest (Nat.le_refl _) hbegins ?_ (fun _ => by rw [hnext]; rfl) ?_)
    · rw [hnext]
      exact Nat.lt_succ_self _
    -- at the mark of the value
    have hskip := Cursor.skip_newline (Cursor.rest_skip_append hrest)
    rw [← Cursor.skip_add] at hskip
    generalize hvalue : c.next.skip ((d :: r).length + (c.column + 1)) = v at *
    have hmark : v.rest = ':' :: e :: (q ++ (newline k ++ body)) := by rw [hskip]
    have hcolumn : v.column = c.column := by rw [hskip]
    have hafter := Cursor.next_of_steady hmark (by decide)
    have hvalueCol : v.next.column = c.column + 1 := by rw [hafter, ← hcolumn]
    have hvalueRest : v.next.rest = e :: q ++ (newline k ++ body) := by rw [hafter]; rfl
    refine .valueMark hmark he (by rw [hcolumn]; rfl) (h.finds hvalueRest hle hb ?_ (fun _ => hvalueCol) ?_)
    · rw [hvalueCol]
      exact Nat.lt_succ_self _
    · have hlength : ('?' :: d :: r ++ newline c.column ++ ':' :: e :: q).length + (k + 1) =
          1 + ((d :: r).length + (c.column + 1)) + (1 + ((e :: q).length + (k + 1))) := by
        simp only [newline, List.length_append, List.length_cons, List.length_replicate]
        omega
      rw [hlength, Cursor.skip_add, Cursor.skip_add c 1] at ha
      have hv : (c.skip 1).skip ((d :: r).length + (c.column + 1)) = v := hvalue
      rw [hv, Cursor.skip_add v 1] at ha
      have htokens : (Token.key :: ts ++ .value :: ts').reverse ++ opened .blockMapping indent c.column found =
          ts'.reverse ++ (.value :: (ts.reverse ++ (.key :: opened .blockMapping indent c.column found))) := by
        simp
      rw [htokens] at ha
      exact ha

/-! ## Blocks as nodes -/

theorem lead_eq {p : Place} (hp : p.Stands column) :
    p.lead column = if p.compact then [' '] else newline column := by
  unfold Place.lead
  cases hc : p.compact with
  | false => rfl
  | true =>
    have hone : column - p.column = 1 := by
      have := hp hc
      omega
    rw [hone]
    rfl

/-- the lexer comes to the first item or entry of a block -/
theorem Runs.lead {p : Place} (hp : p.Stands column) {r : List Char} (hr : Begins r) {c : Cursor} {found out : List Token}
    {outer : List Int} (hc : c.rest = p.lead column ++ r) (hcompact : p.compact = true → c.column = p.indent + 1)
    (ha : (c.skip (p.lead column).length).column = column →
      (inBlock (c.skip (p.lead column).length) found p.indent outer true []).Arrives out) :
    (inBlock c found p.indent outer p.compact []).Runs out := by
  rw [lead_eq hp] at hc ha
  cases hpc : p.compact with
  | false =>
    rw [hpc] at hc ha
    have hskip := Cursor.skip_newline (k := column) hc
    have hlength : (Yaml.newline column).length = column + 1 := by simp [Yaml.newline]
    rw [if_neg Bool.false_ne_true, hlength] at ha
    exact .newline hc hr (by rintro _ ⟨⟩) (ha (by rw [hskip]))
  | true =>
    rw [hpc] at hc ha
    have hnext := Cursor.next_of_steady (c := c) hc space_isSteady
    refine .spaces (n := 1) hc hr (by rintro _ ⟨⟩) (ha ?_)
    have hcol := hcompact hpc
    have hcolumn := (hp hpc).2
    change c.next.column = column
    rw [hnext, hcolumn]
    exact congrArg (· + 1) hcol

/-- **A block further to the right than what is around it stands between its tokens.** -/
theorem LexesBlock.lexes {p : Place} (h : LexesBlock opening column w ts) (hi : p.indent < column)
    (hp : p.Stands column) :
    Lexes p (p.lead column ++ w) (opening :: ts ++ [.blockEnd]) := by
  refine ⟨?_, fun {c found out outer k body} hc hk hb hcol hcompact ha => ?_⟩
  · rw [lead_eq hp]
    split
    · exact ⟨_, _, rfl, by decide⟩
    · exact ⟨_, _, rfl, by decide⟩
  rw [List.append_assoc] at hc
  refine .lead hp (h.begins k body).begins hc hcompact fun hcolumn => ?_
  have hrest := Cursor.rest_skip_append hc
  have hlt : (p.indent : Int) < column := Int.ofNat_lt.2 hi
  refine h.finds hrest (by omega) hb hcolumn (Int.le_of_lt hlt) ?_
  -- the block ends at the next line
  have hskip := Cursor.skip_newline (Cursor.rest_skip_append hrest)
  rw [← Cursor.skip_add] at hskip
  rw [outside, if_pos hlt, opened, if_pos hlt]
  refine .close ?_ ?_
  · rw [hskip]
    push_cast
    omega
  · have hlength : (p.lead column ++ w).length + (k + 1) = (p.lead column).length + (w.length + (k + 1)) := by
      rw [List.length_append, Nat.add_assoc]
    rw [hlength, Cursor.skip_add] at ha
    simpa using ha

/-- a list that stands at the level of its key has no such tokens -/
theorem LexesBlock.lexes_bare {p : Place} (h : LexesBlock opening p.indent w ts) (hp : p.compact = false) :
    Lexes p (p.lead p.indent ++ w) ts := by
  have hstands : p.Stands p.indent := by
    intro hc
    rw [hp] at hc
    cases hc
  refine ⟨?_, fun {c found out outer k body} hc hk hb hcol hcompact ha => ?_⟩
  · rw [lead_eq hstands, hp]
    exact ⟨_, _, rfl, by decide⟩
  rw [List.append_assoc] at hc
  refine .lead hstands (h.begins k body).begins hc hcompact fun hcolumn => ?_
  refine h.finds (Cursor.rest_skip_append hc) hk hb hcolumn (Int.le_refl _) ?_
  rw [opened_self, outside_self, ← Cursor.skip_add]
  rwa [List.length_append, Nat.add_assoc] at ha

theorem lexes_empty {p : Place} {bracket closing : Char} {t t' : Token}
    (ht : bracket = '[' ∧ t = .flowList ∨ bracket = '\x7b' ∧ t = .flowMapping)
    (ht' : closing = ']' ∧ t' = .flowListEnd ∨ closing = '\x7d' ∧ t' = .flowMappingEnd) :
    Lexes p [' ', bracket, closing] [t, t'] := by
  refine ⟨⟨_, _, rfl, by decide⟩, fun {c found out outer k body} hc hk hb hcol hcompact ha => ?_⟩
  have hopens : opensToken bracket = true := by rcases ht with ⟨rfl, -⟩ | ⟨rfl, -⟩ <;> decide
  have hnext := Cursor.next_of_steady hc space_isSteady
  refine .spaces (n := 1) hc (begins_cons hopens _) nofun ?_
  refine .emptyValue ht ht' hb ?_ ((Cursor.rest_next c).trans (by rw [hc]; rfl)) ?_
  · change p.indent < c.next.column
    rw [hnext]
    exact Nat.lt_succ_of_lt hcol
  · rw [← Cursor.skip_add]
    have hlength : [' ', bracket, closing].length + (k + 1) = 1 + (2 + (k + 1)) := by
      simp only [List.length_cons, List.length_nil]
      omega
    rw [hlength] at ha
    exact ha

end Lexer

end Intake.Yaml
