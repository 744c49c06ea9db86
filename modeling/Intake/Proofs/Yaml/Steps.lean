/-
Steps through the text of a document.

A cursor passes over characters one by one. Where nothing ends a line it goes on in its line, a column a character
(`Cursor.skip_of_steady`); an end of a line and the indentation after it bring it to that column of a later line
(`Cursor.skip_newline`, `Cursor.skip_to_newline`).
-/
import Intake.Yaml.Printer
import Intake.Yaml.ScalarText
import Intake.Proofs.Numerals

namespace Intake.Yaml

/-! ## Characters -/

/-- a character that takes one column and ends no line -/
def isSteady (c : Char) : Bool := !isBreak c && c != '\r' && c.toNat != 0xfeff

theorem isSpacing_of_isBreak {c : Char} (h : isBreak c = true) : isSpacing c = true := by simp [isSpacing, h]

theorem not_isBreak_of_not_isSpacing {c : Char} (h : isSpacing c = false) : isBreak c = false := by
  cases hb : isBreak c with
  | false => rfl
  | true => rw [isSpacing_of_isBreak hb] at h; cases h

theorem newline_isBreak : isBreak '\n' = true := by decide

theorem space_isSteady : isSteady ' ' = true := by decide

namespace Cursor

/-! ## Rest -/

theorem rest_next (c : Cursor) : c.next.rest = c.rest.tail := by
  obtain ⟨rest, i, l, k⟩ := c
  cases rest with
  | nil => rfl
  | cons ch rest =>
    unfold next
    dsimp only
    split
    · rfl
    · split <;> rfl

theorem rest_skip (c : Cursor) (n : Nat) : (c.skip n).rest = c.rest.drop n := by
  induction n generalizing c with
  | zero => rfl
  | succ n ih => rw [skip, ih, rest_next, List.drop_tail]

theorem skip_add (c : Cursor) (m n : Nat) : c.skip (m + n) = (c.skip m).skip n := by
  induction m generalizing c with
  | zero => rw [Nat.zero_add]; rfl
  | succ m ih => rw [Nat.succ_add]; exact ih c.next

theorem rest_skip_append {c : Cursor} {w r : List Char} (h : c.rest = w ++ r) : (c.skip w.length).rest = r := by
  rw [rest_skip, h, List.drop_left]

theorem peek_eq {c : Cursor} {ch : Char} {cs : List Char} (h : c.rest = ch :: cs) : c.peek = ch := by
  rw [peek, h]
  rfl

/-! ## Lines and columns -/

theorem next_of_steady {c : Cursor} {ch : Char} {cs : List Char} (h : c.rest = ch :: cs) (hs : isSteady ch = true) :
    c.next = ⟨cs, c.index + 1, c.line, c.column + 1⟩ := by
  obtain ⟨rest, i, l, k⟩ := c
  obtain rfl : rest = ch :: cs := h
  simp only [isSteady, Bool.and_eq_true, Bool.not_eq_true', bne_iff_ne, ne_eq] at hs
  obtain ⟨⟨hb, hr⟩, hm⟩ := hs
  simp [next, hb, hr, hm]

theorem next_of_break {c : Cursor} {ch : Char} {cs : List Char} (h : c.rest = ch :: cs) (hb : isBreak ch = true) :
    c.next = ⟨cs, c.index + 1, c.line + 1, 0⟩ := by
  obtain ⟨rest, i, l, k⟩ := c
  obtain rfl : rest = ch :: cs := h
  simp [next, hb]

theorem skip_of_steady {c : Cursor} {w r : List Char} (h : c.rest = w ++ r) (hw : ∀ ch ∈ w, isSteady ch = true) :
    c.skip w.length = ⟨r, c.index + w.length, c.line, c.column + w.length⟩ := by
  induction w generalizing c with
  | nil =>
    obtain ⟨rest, i, l, k⟩ := c
    obtain rfl : rest = r := h
    rfl
  | cons ch w ih =>
    obtain ⟨hch, hw⟩ := List.forall_mem_cons.1 hw
    have hnext := next_of_steady h hch
    rw [List.length_cons, skip, ih (c := c.next) (by rw [hnext]; rfl) hw, hnext]
    simp only [Nat.add_assoc, Nat.add_comm 1]

/-- a run of characters that end no line is passed in its line -/
theorem skip_inLine {c : Cursor} {w r : List Char} (h : c.rest = w ++ r) (hw : ∀ ch ∈ w, isBreak ch = false ∧ ch ≠ '\r') :
    (c.skip w.length).index = c.index + w.length ∧ (c.skip w.length).line = c.line := by
  induction w generalizing c with
  | nil => exact ⟨rfl, rfl⟩
  | cons ch w ih =>
    obtain ⟨⟨hbreak, hreturn⟩, hw⟩ := List.forall_mem_cons.1 hw
    have hnext : c.next.index = c.index + 1 ∧ c.next.line = c.line := by
      obtain ⟨rest, i, l, k⟩ := c
      obtain rfl : rest = ch :: (w ++ r) := h
      simp only [next, hbreak, beq_eq_false_iff_ne.2 hreturn, Bool.false_and, Bool.or_false, Bool.false_eq_true, if_false]
      split <;> exact ⟨rfl, rfl⟩
    obtain ⟨hindex, hline⟩ := ih (c := c.next) (by rw [rest_next, h]; rfl) hw
    rw [List.length_cons, skip, hindex, hline, hnext.1, hnext.2]
    exact ⟨by rw [Nat.add_assoc, Nat.add_comm 1], rfl⟩

theorem replicate_space_steady (k : Nat) : ∀ ch ∈ List.replicate k ' ', isSteady ch = true := by
  intro ch h
  rw [List.eq_of_mem_replicate h]
  exact space_isSteady

theorem skip_newline {c : Cursor} {k : Nat} {r : List Char} (h : c.rest = newline k ++ r) :
    c.skip (k + 1) = ⟨r, c.index + 1 + k, c.line + 1, k⟩ := by
  have hline : c.rest = '\n' :: (List.replicate k ' ' ++ r) := h
  have hnext := next_of_break hline newline_isBreak
  have hskip := skip_of_steady (c := c.next) (w := List.replicate k ' ') (r := r) (by rw [hnext])
    (replicate_space_steady k)
  rw [List.length_replicate] at hskip
  rw [skip, hskip, hnext, Nat.zero_add]

theorem line_le_next (c : Cursor) : c.line ≤ c.next.line := by
  obtain ⟨rest, i, l, k⟩ := c
  cases rest with
  | nil => exact Nat.le_refl _
  | cons ch rest =>
    unfold next
    dsimp only
    split
    · exact Nat.le_succ _
    · split <;> exact Nat.le_refl _

theorem line_le_skip (c : Cursor) (n : Nat) : c.line ≤ (c.skip n).line := by
  induction n generalizing c with
  | zero => exact Nat.le_refl _
  | succ n ih => exact Nat.le_trans (line_le_next c) (ih c.next)

/-- past the end of a line the line is a later one, and the column is the indentation -/
theorem skip_to_newline {c : Cursor} {w r : List Char} {k : Nat} (h : c.rest = w ++ (newline k ++ r)) :
    (c.skip (w.length + (k + 1))).rest = r ∧ (c.skip (w.length + (k + 1))).column = k ∧
      c.line < (c.skip (w.length + (k + 1))).line := by
  have hrest := rest_skip_append h
  have hskip := skip_newline hrest
  rw [skip_add, hskip]
  exact ⟨rfl, rfl, Nat.lt_succ_of_le (line_le_skip c w.length)⟩

/-! ## Ends of lines -/

theorem lineBreak_of_not_break {c : Cursor} (h : endsLine c.peek = false ∨ c.peek = endChar) : c.lineBreak = ([], c) := by
  have hb : isBreak c.peek = false ∧ c.peek ≠ '\r' := by
    rcases h with h | h
    · simp only [endsLine, Bool.or_eq_false_iff, beq_eq_false_iff_ne] at h
      exact ⟨h.2, h.1.2⟩
    · rw [h]; decide
  have hn : c.peek ≠ '\n' ∧ c.peek.toNat ≠ 0x85 := by
    have := hb.1
    simp only [isBreak, Bool.or_eq_false_iff, beq_eq_false_iff_ne] at this
    exact ⟨this.1.1.1, this.1.1.2⟩
  simp [lineBreak, hb.1, hb.2, hn.1, hn.2]

theorem lineBreak_newline {c : Cursor} {r : List Char} (h : c.rest = '\n' :: r) : c.lineBreak = (['\n'], c.next) := by
  have hp : c.peek = '\n' := peek_eq h
  simp [lineBreak, hp]

theorem lineBreak_separator {c : Cursor} {ch : Char} {r : List Char} (h : c.rest = ch :: r) (hb : isBreak ch = true)
    (h85 : ch.toNat ≠ 0x85) : c.lineBreak = ([ch], c.next) := by
  have hp : c.peek = ch := peek_eq h
  by_cases hn : ch = '\n'
  · subst hn; exact lineBreak_newline h
  · have hr : ch ≠ '\r' := by rintro rfl; exact absurd hb (by decide)
    simp [lineBreak, hp, hr, hn, h85, hb]

theorem span_spaces {c : Cursor} {n : Nat} {r : List Char} (h : c.rest = List.replicate n ' ' ++ r)
    (hr : r.head? ≠ some ' ') : c.span isSpace = (List.replicate n ' ', c.skip n) := by
  have hstop : Stops isSpace r := by
    intro y hy
    have hne : y ≠ ' ' := fun e => hr (e ▸ hy)
    simpa [isSpace] using hne
  have hall : ∀ ch ∈ List.replicate n ' ', isSpace ch = true := by
    intro ch hch
    rw [List.eq_of_mem_replicate hch]
    rfl
  have hword : c.rest.takeWhile isSpace = List.replicate n ' ' := by
    rw [h]
    exact takeWhile_append_of_stops hall hstop
  simp only [span, hword, List.length_replicate]

end Cursor

end Intake.Yaml
