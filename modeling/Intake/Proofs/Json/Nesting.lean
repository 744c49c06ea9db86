/-
How deep JSON text is nested.

The brackets of a text that stand outside of the quotes tell how deep its values stand in one another (`nesting`). What
is read from it is nested no deeper than that (`calls_le_nesting`): by induction on the fuel, for the three readers at
once, the level that a reader begins on and the depth of what it makes stay below what is counted from there, and so
does what is left.
-/
import Intake.Proofs.Json.Notation
import Intake.Proofs.ShownValues
import Intake.Proofs.Outcome

namespace Intake.Json

open Intake.Number Intake.Outcome

variable {c : Char} {level : Nat}

/-- how deep brackets stand in one another from a level on, inside quotes or outside of them -/
def nesting : Nat → Bool → List Char → Nat
  | level, _, [] => level
  | level, true, '\\' :: _ :: cs => nesting level true cs
  | level, true, c :: cs => nesting level (c != '"') cs
  | level, false, c :: cs =>
    if c = '"' then nesting level true cs
    else if c = '[' ∨ c = '\x7b' then nesting (level + 1) false cs
    else if c = ']' ∨ c = '\x7d' then max level (nesting (level - 1) false cs)
    else nesting level false cs

theorem le_nesting (level : Nat) (quoted : Bool) (cs : List Char) : level ≤ nesting level quoted cs := by
  fun_induction nesting level quoted cs <;> omega

/-! ## What is passed over -/

/-- a character that is neither a quote nor a bracket -/
def IsFlat (c : Char) : Prop := c ≠ '"' ∧ c ≠ '[' ∧ c ≠ '\x7b' ∧ c ≠ ']' ∧ c ≠ '\x7d'

instance (c : Char) : Decidable (IsFlat c) := inferInstanceAs (Decidable (_ ∧ _))

theorem nesting_flat {w : List Char} (h : ∀ c ∈ w, IsFlat c) (rest : List Char) :
    nesting level false (w ++ rest) = nesting level false rest := by
  induction w with
  | nil => rfl
  | cons c w ih =>
    obtain ⟨⟨hquote, ho, hb, hc, hd⟩, hw⟩ := List.forall_mem_cons.1 h
    rw [List.cons_append, nesting, if_neg hquote, if_neg (by simp [ho, hb]), if_neg (by simp [hc, hd]), ih hw]

theorem nesting_skip (cs : List Char) : nesting level false (skip cs) = nesting level false cs := by
  have hblank : ∀ c ∈ cs.takeWhile isBlank, IsFlat c := by
    intro c hc
    have hb := List.mem_takeWhile_imp hc
    simp only [isBlank, Bool.or_eq_true, beq_iff_eq] at hb
    rcases hb with ((rfl | rfl) | rfl) | rfl <;> decide
  conv_rhs => rw [← List.takeWhile_append_dropWhile (p := isBlank) (l := cs), nesting_flat hblank]
  rfl

theorem isFlat_of_isDigit {c : Char} (h : c.isDigit = true) : IsFlat c := by
  refine ⟨?_, ?_, ?_, ?_, ?_⟩ <;> rintro rfl <;> exact absurd h (by decide)

/-- a character that ends nothing between quotes -/
def IsQuotable (c : Char) : Prop := c ≠ '"' ∧ c ≠ '\\'

theorem isQuotable_of_digits {ds : List Char} {n : Nat} (h : ofBaseDigits? 16 ds = some n) : ∀ c ∈ ds, IsQuotable c := by
  intro c hc
  obtain ⟨d, hd⟩ := baseDigit?_of_mem h hc
  constructor <;> rintro rfl <;> cases hd

theorem nesting_quotable {w : List Char} (h : ∀ c ∈ w, IsQuotable c) (rest : List Char) :
    nesting level true (w ++ rest) = nesting level true rest := by
  induction w with
  | nil => rfl
  | cons c w ih =>
    obtain ⟨⟨hquote, hescape⟩, hw⟩ := List.forall_mem_cons.1 h
    have hstep : nesting level true (c :: (w ++ rest)) = nesting level (c != '"') (w ++ rest) := by
      rw [nesting]
      exact fun _ _ hc _ => hescape hc
    rw [List.cons_append, hstep, bne_iff_ne.2 hquote, ih hw]

theorem nesting_text {w s : List Char} (h : TextWritten w s) (rest : List Char) :
    nesting level true (w ++ '"' :: rest) = nesting level false rest := by
  induction h with
  | nil => simp [nesting]
  | @char c w s hquote hescape _ _ ih =>
    rw [← ih]
    exact nesting_quotable (List.forall_mem_singleton.2 ⟨hquote, hescape⟩) (w ++ '"' :: rest)
  | letter _ _ ih => rw [← ih, List.cons_append, List.cons_append, nesting]
  | @number a b c d n w s hn _ ih =>
    rw [← ih]
    exact nesting_quotable (isQuotable_of_digits hn) (w ++ '"' :: rest)
  | @pair a b c d a' b' c' d' n m w s hn hm _ _ _ ih =>
    rw [← ih]
    exact (nesting_quotable (isQuotable_of_digits hn) _).trans
      (nesting_quotable (isQuotable_of_digits hm) (w ++ '"' :: rest))

theorem isFlat_of_scalar {w : List Char} {v : Value} (h : ScalarWritten w v) : ∀ c ∈ w, IsFlat c := by
  have hdigits {ds : List Char} (h : ∀ c ∈ ds, c.isDigit = true) : ∀ c ∈ ds, IsFlat c :=
    fun c hc => isFlat_of_isDigit (h c hc)
  have hplaces {ps w : List Char} (h : PlacesWritten ps w) : ∀ c ∈ w, IsFlat c := by
    cases h with
    | none => exact List.forall_mem_nil _
    | point digits _ => exact List.forall_mem_cons.2 ⟨by decide, hdigits digits⟩
  have hexponent {e : Option Int} {w : List Char} (h : ExponentWritten e w) : ∀ c ∈ w, IsFlat c := by
    cases h with
    | none => exact List.forall_mem_nil _
    | mark hmark hsign digits _ =>
      refine List.forall_mem_cons.2 ⟨by rcases hmark with rfl | rfl <;> decide,
        List.forall_mem_append.2 ⟨?_, hdigits digits⟩⟩
      cases hsign with
      | unsigned => exact List.forall_mem_nil _
      | plus => exact List.forall_mem_singleton.2 (by decide)
      | minus => exact List.forall_mem_singleton.2 (by decide)
  have hnumber {negative : Bool} {w : List Char} (h : NumberWritten negative w v) : ∀ c ∈ w, IsFlat c := by
    cases h with
    | integer hwhole _ => exact hdigits hwhole.digits
    | binary hwhole hp he _ =>
      exact List.forall_mem_append.2 ⟨hdigits hwhole.digits, List.forall_mem_append.2 ⟨hplaces hp, hexponent he⟩⟩
  cases h with
  | @name name _ hname =>
    have hall : ∀ n ∈ names.map (·.1), ∀ c ∈ n.toList, IsFlat c := by simp [names, IsFlat]
    exact hall name (List.mem_map_of_mem hname)
  | number h => exact hnumber h
  | negative h => exact List.forall_mem_cons.2 ⟨by decide, hnumber h⟩

/-! ## Collections -/

theorem callsOfEntries_ofEntries (es : List (Value × Value)) :
    Value.callsOfEntries (Value.ofEntries es) ≤ Value.callsOfEntries es := by
  refine Value.callsOfEntries_le fun e he => ?_
  obtain ⟨⟨f, hf, hkey⟩, g, hg, hvalue⟩ := Value.of_ofEntries.1 e he
  exact ⟨hkey ▸ (Value.calls_le_callsOfEntries hf).1, hvalue ▸ (Value.calls_le_callsOfEntries hg).2⟩

theorem nesting_open (hc : c = '[' ∨ c = '\x7b') (cs : List Char) :
    nesting level false (c :: cs) = nesting (level + 1) false cs := by
  rw [nesting, if_neg (by rcases hc with rfl | rfl <;> decide), if_pos hc]

theorem nesting_close (hc : c = ']' ∨ c = '\x7d') (cs : List Char) :
    nesting (level + 1) false (c :: cs) = max (level + 1) (nesting level false cs) := by
  rw [nesting, if_neg (by rcases hc with rfl | rfl <;> decide), if_neg (by rcases hc with rfl | rfl <;> decide),
    if_pos hc]
  rfl

theorem nesting_mark (hc : c = ',' ∨ c = ':') (cs : List Char) : nesting level false (c :: cs) = nesting level false cs :=
  nesting_flat (List.forall_mem_singleton.2 (by rcases hc with rfl | rfl <;> decide)) cs

theorem nesting_quote (cs : List Char) : nesting level false ('"' :: cs) = nesting level true cs := by
  rw [nesting, if_pos rfl]

theorem nesting_of_text {cs rest : List Char} {s : String} (h : text cs = .ok (s, rest)) :
    nesting level false ('"' :: cs) = nesting level false rest := by
  unfold text at h
  split at h
  · next hs =>
    cases h
    obtain ⟨w, rfl, hw⟩ := written_of_chars hs
    rw [nesting_quote, nesting_text hw]
  · cases h

theorem calls_of_scalar {w : List Char} {v : Value} (h : ScalarWritten w v) : v.calls = 0 := by
  have hnumber {negative : Bool} {w : List Char} (h : NumberWritten negative w v) : v.calls = 0 := by cases h <;> rfl
  cases h with
  | @name name _ hname =>
    have hall : ∀ n ∈ names, n.2.calls = 0 := by simp [names, Value.calls]
    exact hall _ hname
  | number h => exact hnumber h
  | negative h => exact hnumber h

/-- what each of the readers makes with some fuel is nested below what is counted from the level that it begins on, and
what is left is counted, too. Items and entries begin one level below the brackets around them -/
structure NestedWith (fuel : Nat) : Prop where
  value : ∀ cs v rest level, Json.value fuel cs = .ok (v, rest) →
    level + v.calls ≤ nesting level false cs ∧ nesting level false rest ≤ nesting level false cs
  items : ∀ cs xs rest level, Json.items fuel cs = .ok (xs, rest) →
    level + 1 + Value.callsOfAll xs ≤ nesting (level + 1) false cs ∧
    nesting level false rest ≤ nesting (level + 1) false cs
  entries : ∀ cs es rest level, Json.entries fuel cs = .ok (es, rest) →
    level + 1 + Value.callsOfEntries es ≤ nesting (level + 1) false cs ∧
      nesting level false rest ≤ nesting (level + 1) false cs

section Steps

variable {fuel : Nat} {cs rest : List Char}

theorem nested_value (ih : NestedWith fuel) {v : Value} (h : value (fuel + 1) cs = .ok (v, rest)) (level : Nat) :
    level + v.calls ≤ nesting level false cs ∧ nesting level false rest ≤ nesting level false cs := by
  unfold value at h
  split at h
  · obtain ⟨⟨s, r⟩, hs, h⟩ := map_eq_ok.1 h
    cases h
    rw [nesting_of_text hs]
    exact ⟨le_nesting _ _ _, Nat.le_refl _⟩
  · rw [nesting_open (.inl rfl), ← nesting_skip]
    split at h
    · next hskip =>
      cases h
      rw [hskip, nesting_close (.inl rfl)]
      exact ⟨Nat.le_max_left _ _, Nat.le_max_right _ _⟩
    · obtain ⟨⟨xs, r⟩, hxs, h⟩ := map_eq_ok.1 h
      cases h
      obtain ⟨hinside, hafter⟩ := ih.items _ _ _ level hxs
      rw [Value.calls]
      exact ⟨by omega, hafter⟩
  · rw [nesting_open (.inr rfl), ← nesting_skip]
    split at h
    · next hskip =>
      cases h
      rw [hskip, nesting_close (.inr rfl)]
      exact ⟨Nat.le_max_left _ _, Nat.le_max_right _ _⟩
    · obtain ⟨⟨es, r⟩, hes, h⟩ := map_eq_ok.1 h
      cases h
      obtain ⟨hinside, hafter⟩ := ih.entries _ _ _ level hes
      have honce := callsOfEntries_ofEntries es
      rw [Value.calls]
      exact ⟨by omega, hafter⟩
  · obtain ⟨w, rfl, hw⟩ := written_of_scalar h
    rw [nesting_flat (isFlat_of_scalar hw), calls_of_scalar hw]
    exact ⟨le_nesting _ _ _, Nat.le_refl _⟩

theorem nested_items (ih : NestedWith fuel) {xs : List Value} (h : items (fuel + 1) cs = .ok (xs, rest)) (level : Nat) :
    level + 1 + Value.callsOfAll xs ≤ nesting (level + 1) false cs ∧
      nesting level false rest ≤ nesting (level + 1) false cs := by
  unfold items at h
  obtain ⟨⟨x, r⟩, hx, h⟩ := bind_eq_ok.1 h
  obtain ⟨hfirst, hleft⟩ := ih.value _ _ _ (level + 1) hx
  rw [← nesting_skip] at hleft
  dsimp only at h
  split at h
  · next hskip =>
    cases h
    rw [hskip, nesting_close (.inl rfl)] at hleft
    simp only [Value.callsOfAll]
    omega
  · next hskip =>
    obtain ⟨⟨ys, r'⟩, hys, h⟩ := bind_eq_ok.1 h
    cases h
    obtain ⟨hothers, hafter⟩ := ih.items _ _ _ level hys
    rw [hskip, nesting_mark (.inl rfl), ← nesting_skip] at hleft
    simp only [Value.callsOfAll]
    omega
  · cases h

theorem nested_entries (ih : NestedWith fuel) {es : List (Value × Value)}
    (h : entries (fuel + 1) cs = .ok (es, rest)) (level : Nat) :
    level + 1 + Value.callsOfEntries es ≤ nesting (level + 1) false cs ∧
      nesting level false rest ≤ nesting (level + 1) false cs := by
  unfold entries at h
  split at h
  · obtain ⟨⟨key, r⟩, hkey, h⟩ := bind_eq_ok.1 h
    dsimp only at h
    split at h
    · next hcolon =>
      obtain ⟨⟨x, r'⟩, hx, h⟩ := bind_eq_ok.1 h
      obtain ⟨hfirst, hleft⟩ := ih.value _ _ _ (level + 1) hx
      have hopens : nesting (level + 1) false _ = _ := nesting_of_text hkey
      rw [hopens, ← nesting_skip, hcolon, nesting_mark (.inr rfl), ← nesting_skip]
      rw [← nesting_skip r'] at hleft
      dsimp only at h
      split at h
      · next hskip =>
        cases h
        rw [hskip, nesting_close (.inr rfl)] at hleft
        simp only [Value.callsOfEntries, Value.calls]
        omega
      · next hskip =>
        obtain ⟨⟨fs, r''⟩, hfs, h⟩ := bind_eq_ok.1 h
        cases h
        obtain ⟨hothers, hafter⟩ := ih.entries _ _ _ level hfs
        rw [hskip, nesting_mark (.inl rfl), ← nesting_skip] at hleft
        simp only [Value.callsOfEntries, Value.calls]
        omega
      · cases h
    · cases h
  · cases h

end Steps

theorem nestedWith (fuel : Nat) : NestedWith fuel := by
  induction fuel with
  | zero => constructor <;> rintro cs x rest level ⟨⟩
  | succ fuel ih => exact ⟨fun _ _ _ level h => nested_value ih h level, fun _ _ _ level h => nested_items ih h level,
      fun _ _ _ level h => nested_entries ih h level⟩

/-- **What is read from a text is nested no deeper than its brackets.** -/
theorem calls_le_nesting {s : String} {v : Value} (h : read s = .ok v) : v.calls ≤ nesting 0 false s.toList := by
  obtain ⟨⟨w, rest⟩, hw, h⟩ := bind_eq_ok.1 h
  dsimp only at h
  split at h
  · cases h
    have hvalue := ((nestedWith _).value _ _ _ 0 hw).1
    rwa [nesting_skip, Nat.zero_add] at hvalue
  · cases h

end Intake.Json
