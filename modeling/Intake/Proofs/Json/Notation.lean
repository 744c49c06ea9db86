/-
How scalars are written in JSON text.

What is read as a text, a number or a name stands in the notation of JSON, up to what is left: a text character by
character and escape by escape (`TextWritten`), a number as digits that do not open with a zero, with places and an
exponent perhaps (`NumberWritten`). A sign before a number is told apart from the number, and a name from both
(`ScalarWritten`).

Results:
- `written_of_chars`: what is read up to a closing quote is written before it;
- `written_of_scalar`: so is what is neither a text nor a collection.
-/
import Intake.Proofs.Json.Numbers

namespace Intake.Json

open Intake.Text Intake.Number

variable {cs rest : List Char}

/-! ## Texts -/

/-- what stands between quotes, as it is written and as it is read -/
inductive TextWritten : List Char → List Char → Prop where
  | nil : TextWritten [] []
  | char {c : Char} {w s : List Char} (hquote : c ≠ '"') (hescape : c ≠ '\\') (hc : 0x20 ≤ c.toNat)
    (h : TextWritten w s) :
    TextWritten (c :: w) (c :: s)
  | letter {e c : Char} {w s : List Char} (he : shortEscape? e = some c) (h : TextWritten w s) :
    TextWritten ('\\' :: e :: w) (c :: s)
  | number {a b c d : Char} {n : Nat} {w s : List Char} (hn : ofBaseDigits? 16 [a, b, c, d] = some n)
    (h : TextWritten w s) :
    TextWritten ('\\' :: 'u' :: a :: b :: c :: d :: w) (charOf n :: s)
  /-- two halves of a pair are one character -/
  | pair {a b c d a' b' c' d' : Char} {n m : Nat} {w s : List Char} (hn : ofBaseDigits? 16 [a, b, c, d] = some n)
    (hm : ofBaseDigits? 16 [a', b', c', d'] = some m) (hhigh : isHigh n = true) (hlow : isLow m = true)
    (h : TextWritten w s) :
    TextWritten ('\\' :: 'u' :: a :: b :: c :: d :: '\\' :: 'u' :: a' :: b' :: c' :: d' :: w)
      (Char.ofNat (0x10000 + (n - 0xD800) * 0x400 + (m - 0xDC00)) :: s)

theorem baseDigit?_of_mem {base n : Nat} {ds : List Char} {c : Char} (h : ofBaseDigits? base ds = some n) (hc : c ∈ ds) :
    ∃ d, baseDigit? base c = some d := by
  unfold ofBaseDigits? at h
  generalize 0 = acc at h
  induction ds generalizing acc with
  | nil => cases hc
  | cons x ds ih =>
    rw [List.foldlM_cons] at h
    obtain ⟨m, hm, h⟩ := Option.bind_eq_some_iff.1 h
    obtain ⟨d, hd, -⟩ := Option.map_eq_some_iff.1 hm
    rcases List.mem_cons.1 hc with rfl | hc
    · exact ⟨d, hd⟩
    · exact ih hc m h

theorem digits_of_unit? {n : Nat} (h : unit? cs = some (n, rest)) :
    ∃ a b c d, cs = a :: b :: c :: d :: rest ∧ ofBaseDigits? 16 [a, b, c, d] = some n := by
  unfold unit? at h
  split at h
  · next a b c d tail =>
    obtain ⟨m, hm, h⟩ := Option.map_eq_some_iff.1 h
    obtain ⟨rfl, rfl⟩ := Prod.mk.inj h
    exact ⟨a, b, c, d, rfl, hm⟩
  · cases h

/-- a numbered escape is four digits, or the two halves of a pair -/
theorem cases_of_numbered? {ch : Char} (h : numbered? cs = some (ch, rest)) :
    (∃ a b c d n, cs = a :: b :: c :: d :: rest ∧ ofBaseDigits? 16 [a, b, c, d] = some n ∧ ch = charOf n) ∨
    (∃ a b c d a' b' c' d' n m, cs = a :: b :: c :: d :: '\\' :: 'u' :: a' :: b' :: c' :: d' :: rest ∧
      ofBaseDigits? 16 [a, b, c, d] = some n ∧ ofBaseDigits? 16 [a', b', c', d'] = some m ∧ isHigh n = true ∧
      isLow m = true ∧
      ch = Char.ofNat (0x10000 + (n - 0xD800) * 0x400 + (m - 0xDC00))) := by
  obtain ⟨⟨n, after⟩, hunit, hrest⟩ := Option.bind_eq_some_iff.1 h
  clear h
  obtain ⟨a, b, c, d, rfl, hn⟩ := digits_of_unit? hunit
  have alone (h : some (charOf n, after) = some (ch, rest)) : ∃ a' b' c' d' n',
      a :: b :: c :: d :: after = a' :: b' :: c' :: d' :: rest ∧ ofBaseDigits? 16 [a', b', c', d'] = some n' ∧
        ch = charOf n' := by
    obtain ⟨rfl, rfl⟩ := Prod.mk.inj (Option.some.inj h)
    exact ⟨a, b, c, d, n, rfl, hn, rfl⟩
  dsimp only at hrest
  split at hrest
  · next hhigh =>
    split at hrest
    · next second =>
      obtain ⟨⟨m, last⟩, hsecond, hlast⟩ := Option.bind_eq_some_iff.1 hrest
      obtain ⟨a', b', c', d', rfl, hm⟩ := digits_of_unit? hsecond
      dsimp only at hlast
      split at hlast
      · next hlow =>
        obtain ⟨rfl, rfl⟩ := Prod.mk.inj (Option.some.inj hlast)
        exact .inr ⟨a, b, c, d, a', b', c', d', n, m, rfl, hn, hm, hhigh, hlow, rfl⟩
      · exact .inl (alone hlast)
    · exact .inl (alone hrest)
  · exact .inl (alone hrest)

/-- **What is read up to a closing quote is written before it.** -/
theorem written_of_chars {s : List Char} (h : chars cs = some (s, rest)) :
    ∃ w, cs = w ++ '"' :: rest ∧ TextWritten w s := by
  fun_induction chars cs generalizing s rest with
  | case1 => cases h
  | case2 after =>
    cases h
    exact ⟨[], rfl, .nil⟩
  | case3 => cases h
  | case4 tail c after hnumber _ ih =>
    obtain ⟨⟨s', r⟩, hs, h⟩ := Option.map_eq_some_iff.1 h
    obtain ⟨rfl, rfl⟩ := Prod.mk.inj h
    obtain ⟨w, rfl, hw⟩ := ih hs
    rcases cases_of_numbered? hnumber with ⟨a, b, c', d, n, rfl, hn, rfl⟩ |
      ⟨a, b, c', d, a', b', c'', d', n, m, rfl, hn, hm, hhigh, hlow, hpair⟩
    · exact ⟨_, rfl, .number hn hw⟩
    · rw [hpair]
      exact ⟨_, rfl, .pair hn hm hhigh hlow hw⟩
  | case5 => cases h
  | case6 e tail hne c hc ih =>
    obtain ⟨⟨s', r⟩, hs, h⟩ := Option.map_eq_some_iff.1 h
    obtain ⟨rfl, rfl⟩ := Prod.mk.inj h
    obtain ⟨w, rfl, hw⟩ := ih hs
    exact ⟨_, rfl, .letter hc hw⟩
  | case7 => cases h
  | case8 => cases h
  | case9 c tail hquote hnumber hletter hlast hc ih =>
    obtain ⟨⟨s', r⟩, hs, h⟩ := Option.map_eq_some_iff.1 h
    obtain ⟨rfl, rfl⟩ := Prod.mk.inj h
    obtain ⟨w, rfl, hw⟩ := ih hs
    refine ⟨_, rfl, .char hquote ?_ (Nat.not_lt.1 hc) hw⟩
    -- nothing else stands after a backslash
    rintro rfl
    cases w with
    | nil => exact hletter _ _ rfl rfl
    | cons e w => exact hletter e _ rfl rfl

/-! ## Numbers -/

/-- the digits after the point, and how they are written with it -/
inductive PlacesWritten : List Char → List Char → Prop where
  | none : PlacesWritten [] []
  | point {ds : List Char} (digits : ∀ c ∈ ds, c.isDigit = true) (nonempty : ds ≠ []) : PlacesWritten ds ('.' :: ds)

/-- an exponent, and how it is written -/
inductive ExponentWritten : Option Int → List Char → Prop where
  | none : ExponentWritten none []
  | mark {mark : Char} {sign ds : List Char} {negative : Bool} (hmark : mark = 'e' ∨ mark = 'E')
    (hsign : SignText sign negative)
    (digits : ∀ c ∈ ds, c.isDigit = true) (nonempty : ds ≠ []) :
    ExponentWritten (some (signed negative (ofDigits ds))) (mark :: (sign ++ ds))

/-- a number, as it is written after its sign and as it is read -/
inductive NumberWritten (negative : Bool) : List Char → Value → Prop where
  | integer {ds : List Char} {n : Nat} (h : WholeDigits ds) (hn : ofDigits? ds = some n) :
    NumberWritten negative ds (.int (signed negative n))
  | binary {ds ps places tail : List Char} {e : Option Int} (h : WholeDigits ds) (hp : PlacesWritten ps places)
    (he : ExponentWritten e tail) (nonempty : places ++ tail ≠ []) :
    NumberWritten negative (ds ++ (places ++ tail))
      (.float (.ofScientific negative (ofDigits (ds ++ ps)) (e.getD 0 - ps.length)))

theorem all_isDigit_takeWhile (cs : List Char) : ∀ c ∈ cs.takeWhile Char.isDigit, c.isDigit = true :=
  fun _ hc => List.mem_takeWhile_imp hc

theorem takeWhile_isDigit_nonempty (h : ((cs.head?.map Char.isDigit).getD false) = true) :
    cs.takeWhile Char.isDigit ≠ [] := by
  cases cs with
  | nil => cases h
  | cons c cs =>
    rw [List.takeWhile_cons, if_pos (show c.isDigit = true from h)]
    exact List.cons_ne_nil _ _

theorem written_of_whole {ds : List Char} (h : whole cs = (ds, rest)) (hn : ds ≠ []) :
    cs = ds ++ rest ∧ WholeDigits ds := by
  unfold whole at h
  split at h
  · obtain ⟨rfl, rfl⟩ := Prod.mk.inj h
    exact ⟨rfl, List.forall_mem_singleton.2 rfl, hn, fun tail htail => (List.cons.inj htail).2.symm⟩
  · next hzero =>
    obtain ⟨rfl, rfl⟩ := Prod.mk.inj h
    refine ⟨List.takeWhile_append_dropWhile.symm, all_isDigit_takeWhile cs, hn, fun tail htail => ?_⟩
    have hopens := List.takeWhile_append_dropWhile (p := Char.isDigit) (l := cs)
    rw [htail, List.cons_append] at hopens
    exact absurd hopens.symm (hzero _)

theorem written_of_places {ps : List Char} (h : places cs = (ps, rest)) : ∃ w, cs = w ++ rest ∧ PlacesWritten ps w := by
  unfold places at h
  split at h
  · next tail =>
    split at h
    · next hdigit =>
      obtain ⟨rfl, rfl⟩ := Prod.mk.inj h
      refine ⟨'.' :: tail.takeWhile Char.isDigit, ?_,
        .point (all_isDigit_takeWhile tail) (takeWhile_isDigit_nonempty hdigit)⟩
      rw [List.cons_append, List.takeWhile_append_dropWhile]
    · obtain ⟨rfl, rfl⟩ := Prod.mk.inj h
      exact ⟨[], rfl, .none⟩
  · obtain ⟨rfl, rfl⟩ := Prod.mk.inj h
    exact ⟨[], rfl, .none⟩

theorem written_of_power {e : Option Int} (h : power cs = (e, rest)) : ∃ w, cs = w ++ rest ∧ ExponentWritten e w := by
  have absent {cs : List Char} (h : ((none : Option Int), cs) = (e, rest)) :
      ∃ w, cs = w ++ rest ∧ ExponentWritten e w := by
    obtain ⟨rfl, rfl⟩ := Prod.mk.inj h
    exact ⟨[], rfl, .none⟩
  unfold power at h
  split at h
  · next mark tail =>
    split at h
    · next hmark =>
      obtain ⟨sign, hsign, htail⟩ := exists_signText tail
      generalize takeSign tail = t at h hsign htail
      obtain ⟨negative, ds⟩ := t
      dsimp only at h hsign htail
      split at h
      · next hdigit =>
        obtain ⟨rfl, rfl⟩ := Prod.mk.inj h
        refine ⟨mark :: (sign ++ ds.takeWhile Char.isDigit), ?_,
          .mark hmark hsign (all_isDigit_takeWhile ds) (takeWhile_isDigit_nonempty hdigit)⟩
        rw [List.cons_append, List.append_assoc, List.takeWhile_append_dropWhile, htail]
      · exact absent h
    · exact absent h
  · exact absent h

/-- what is read as a number after its sign is written as one -/
theorem written_of_magnitude {negative : Bool} {v : Value} (h : magnitude negative cs = .ok (v, rest)) :
    ∃ w, cs = w ++ rest ∧ NumberWritten negative w v := by
  unfold magnitude at h
  generalize hwhole : whole cs = t at h
  obtain ⟨ds, afterWhole⟩ := t
  dsimp only at h
  split at h
  · cases h
  · next hds =>
    obtain ⟨rfl, hw⟩ := written_of_whole hwhole (by simpa using hds)
    generalize hplaces : places afterWhole = t at h
    obtain ⟨ps, afterPlaces⟩ := t
    obtain ⟨point, rfl, hp⟩ := written_of_places hplaces
    dsimp only at h
    generalize hpower : power afterPlaces = t at h
    obtain ⟨e, after⟩ := t
    obtain ⟨tail, rfl, he⟩ := written_of_power hpower
    dsimp only at h
    split at h
    · split at h
      · next n hn =>
        obtain ⟨rfl, rfl⟩ := Prod.mk.inj (Except.ok.inj h)
        cases he
        cases hp with
        | none => exact ⟨ds, rfl, .integer hw hn⟩
        | point _ nonempty => exact absurd rfl nonempty
      · cases h
    · next hfraction =>
      obtain ⟨rfl, rfl⟩ := Prod.mk.inj (Except.ok.inj h)
      refine ⟨ds ++ (point ++ tail), by simp only [List.append_assoc], .binary hw hp he fun hnil => ?_⟩
      obtain ⟨rfl, rfl⟩ := List.append_eq_nil_iff.1 hnil
      cases hp
      cases he
      exact hfraction rfl rfl

/-! ## Names -/

def names : List (String × Value) := [
  ("null", .null), ("true", .bool true), ("false", .bool false), ("NaN", .float (.nan 1)),
  ("Infinity", .float (.infinite false)), ("-Infinity", .float (.infinite true))]

/-- what is neither a text nor a collection, as it is written and as it is read -/
inductive ScalarWritten : List Char → Value → Prop where
  | name {name : String} {v : Value} (h : (name, v) ∈ names) : ScalarWritten name.toList v
  | number {w : List Char} {v : Value} (h : NumberWritten false w v) : ScalarWritten w v
  | negative {w : List Char} {v : Value} (h : NumberWritten true w v) : ScalarWritten ('-' :: w) v

/-- **What is read and is neither a text nor a collection is written as a number or a name.** -/
theorem written_of_scalar {v : Value} (h : scalar cs = .ok (v, rest)) : ∃ w, cs = w ++ rest ∧ ScalarWritten w v := by
  unfold scalar at h
  split at h
  · next r hnamed =>
    obtain rfl := Except.ok.inj h
    obtain ⟨n, hn, heq⟩ := Option.map_eq_some_iff.1 hnamed
    obtain ⟨rfl, rfl⟩ := Prod.mk.inj heq
    have hopens := List.find?_some hn
    obtain ⟨after, rfl⟩ := List.isPrefixOf_iff_prefix.1 hopens
    refine ⟨n.1.toList, ?_, .name (List.mem_of_find?_eq_some hn)⟩
    rw [← String.length_toList, List.drop_left]
  · split at h
    · obtain ⟨w, rfl, hw⟩ := written_of_magnitude h
      exact ⟨_, rfl, .negative hw⟩
    · obtain ⟨w, rfl, hw⟩ := written_of_magnitude h
      exact ⟨_, rfl, .number hw⟩

end Intake.Json
