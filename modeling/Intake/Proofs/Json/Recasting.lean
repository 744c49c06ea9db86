/-
What JSON shows of a cast is cast back.

JSON knows what a built-in type makes of input, but for decimals, dates, moments, times and identifiers, which it shows
by their texts. Whatever of these is read from input has a text that can be read again: a decimal is within the bounds,
a date is one of the calendar, and an offset is zero or has whole seconds (`Registry.shown_of_cast`). So the type casts
what JSON shows of a value to that value (`Registry.cast_asJson`), and it takes a text that stands for a value neither
for a blank nor for a missing value.
-/
import Intake.Proofs.Json.Roundtrip

namespace Intake

open Intake.Text Intake.Number Intake.Calendar Intake.Outcome

/-- JSON shows a value of a type as it is, or by a text that the type casts to it and that has no blanks around it -/
inductive ValueType.Shows (t : ValueType) (w : Value) : Prop where
  | asIs (h : w.asJson = w)
  | byText {cs : List Char} (h : w.asJson = .text (String.ofList cs)) (hs : strip cs = cs) (hn : cs ≠ [])
    (hcast : Registry.builtin.cast t false (.text (String.ofList cs)) = .ok (.ok w))

namespace Cast

variable {v w : Value}

/-- a decimal that is made of input is within the bounds -/
theorem inRange_of_toDecimal {d : Decimal} (hv : v.Read) (h : toDecimal v = .ok (.decimal d)) : d.InRange := by
  have of_bind {o : Outcome Decimal} (ho : ∀ x, o = .ok x → x.isFinite = true → x.InRange)
      (h : (o >>= fun d => if d.isFinite = true then .ok (.decimal d) else .error .badValue) =
        (.ok (.decimal d) : Outcome Value)) :
      d.InRange := by
    obtain ⟨x, hx, h⟩ := bind_eq_ok.1 h
    split at h
    · next hf => cases h; exact ho d hx hf
    · cases h
  cases v with
  | int n =>
    refine of_bind (fun x hx _ => ?_) h
    cases hx
    exact Decimal.inRange_ofInt hv.here
  | float x => exact of_bind (fun d hd => Decimal.inRange_of_ofText? (orBad_eq_ok.1 hd)) h
  | text s => exact of_bind (fun d hd => Decimal.inRange_of_ofText? (orBad_eq_ok.1 hd)) h
  | decimal | textMember => exact absurd hv.here id
  | _ => cases h

theorem canonical_of_toFloat {x : Binary64} (hv : v.Read) (h : toFloat v = .ok (.float x)) : x.Canonical := by
  have of_bind {o : Outcome Binary64} (ho : ∀ y, o = .ok y → y.Canonical)
      (h : (o >>= fun y => if y.isFinite = true then .ok (.float y) else .error .badValue) =
        (.ok (.float x) : Outcome Value)) :
      x.Canonical := by
    obtain ⟨y, hy, h⟩ := bind_eq_ok.1 h
    split at h
    · cases h; exact ho x hy
    · cases h
  cases v with
  | int n =>
    refine of_bind (fun y hy => ?_) h
    unfold floatOfInt at hy
    split at hy
    · cases hy
    · cases hy
      exact Binary64.canonical_ofRatio _ _ Nat.one_ne_zero
  | float y =>
    refine of_bind (fun z hz => ?_) h
    cases hz
    exact hv.here.1
  | text s => exact of_bind (fun y hy => Binary64.canonical_of_ofText? (orBad_eq_ok.1 hy)) h
  | decimal | textMember => exact absurd hv.here id
  | _ => cases h

theorem valid_of_toDate {d : Date} (hv : v.Read) (h : toDate v = .ok (.date d)) : d.Valid := by
  cases v with
  | text s =>
    obtain ⟨x, hx, hd⟩ := orBad_map_eq_ok.1 h
    cases hd
    exact Iso.valid_of_date? hx
  | date | moment | textMember => exact absurd hv.here id
  | _ => cases h

theorem valid_of_toMoment {m : Moment} (hv : v.Read) (h : toMoment v = .ok (.moment m)) :
    m.date.Valid ∧ m.time.Valid ∧ m.time.Legible := by
  cases v with
  | text s =>
    obtain ⟨x, hx, hm⟩ := orBad_map_eq_ok.1 h
    cases hm
    exact Iso.valid_of_moment? hx
  | int n =>
    obtain ⟨x, hx, hm⟩ := orBad_map_eq_ok.1 h
    cases hm
    exact Moment.valid_of_ofSeconds? hx
  | float x =>
    obtain ⟨x, hx, hm⟩ := orBad_map_eq_ok.1 h
    cases hm
    exact Moment.valid_of_ofTimestamp? hx
  | date | moment | textMember => exact absurd hv.here id
  | _ => cases h

theorem valid_of_toTime {t : Time} (hv : v.Read) (h : toTime v = .ok (.time t)) : t.Valid ∧ t.Legible := by
  cases v with
  | text s =>
    obtain ⟨x, hx, ht⟩ := orBad_map_eq_ok.1 h
    cases ht
    exact Iso.valid_of_time? hx
  | time | textMember => exact absurd hv.here id
  | _ => cases h

theorem lt_of_toUuid {u : Uuid} (hv : v.Read) (h : toUuid v = .ok (.uuid u)) : u.value < Nat.pow 2 128 := by
  cases v with
  | text s =>
    obtain ⟨x, hx, hu⟩ := orBad_map_eq_ok.1 h
    cases hu
    exact Uuid.lt_of_ofText? hx
  | uuid | textMember => exact absurd hv.here id
  | _ => cases h

/-- a text that is made of input is no member of an enumeration -/
theorem text_of_toText_of_read (hv : v.Read) (h : toText v = .ok w) : ∃ s, w = .text s := by
  cases v with
  | text s => cases h; exact ⟨s, rfl⟩
  | bool b => cases h; exact ⟨_, rfl⟩
  | int n => obtain ⟨s, -, rfl⟩ := map_eq_ok.1 h; exact ⟨s, rfl⟩
  | float x => cases h; exact ⟨_, rfl⟩
  | null | list | map => cases h
  | _ => exact absurd hv.here id

end Cast

namespace Registry

variable {t : ValueType} {v w : Value}

/-- **JSON shows what a type makes of input so that the type casts it back.** -/
theorem shown_of_cast (ht : t.IsBuiltin) (hv : v.Read) (h : builtin.cast t false v = .ok (.ok w)) : t.Shows w := by
  obtain ⟨-, h⟩ := (cast_eq_ok ht).1 h
  rw [if_neg fun hstrict => absurd hstrict.1 Bool.false_ne_true] at h
  cases t with
  | text => obtain ⟨s, rfl⟩ := Cast.text_of_toText_of_read hv h; exact .asIs rfl
  | integer => obtain ⟨n, rfl⟩ := Cast.integer_of_toInteger h; exact .asIs rfl
  | float => obtain ⟨x, rfl, -⟩ := Cast.finite_of_toFloat h; exact .asIs rfl
  | boolean => obtain ⟨b, rfl⟩ := Cast.boolean_of_toBoolean h; exact .asIs rfl
  | decimal =>
    obtain ⟨d, rfl, -⟩ := Cast.finite_of_toDecimal h
    have hrange := Cast.inRange_of_toDecimal hv h
    obtain ⟨c, hc, -, hcast⟩ := (KeptBy.decimal hrange).cast_canonical
    cases hc
    exact .byText rfl (strip_of_visible (Decimal.text_visible hrange)) (Decimal.text_ne_nil d) hcast
  | date =>
    obtain ⟨d, rfl⟩ := Cast.date_of_toDate h
    obtain ⟨c, hc, -, hcast⟩ := (KeptBy.date (Cast.valid_of_toDate hv h)).cast_canonical
    cases hc
    exact .byText rfl (strip_of_visible d.text_visible) (Date.text_ne_nil d) hcast
  | moment =>
    obtain ⟨m, rfl⟩ := Cast.moment_of_toMoment h
    obtain ⟨hd, ht, hl⟩ := Cast.valid_of_toMoment hv h
    have hn : m.textWith ' ' ≠ [] := by simp [Moment.textWith]
    exact .byText rfl (strip_textWith ' ' m) hn
      (builtin_cast_of_convert rfl (Cast.toMoment_textWith (by decide) hd ht hl))
  | time =>
    obtain ⟨t, rfl⟩ := Cast.time_of_toTime h
    obtain ⟨ht, hl⟩ := Cast.valid_of_toTime hv h
    obtain ⟨c, hc, -, hcast⟩ := (KeptBy.time ht hl).cast_canonical
    cases hc
    exact .byText rfl (strip_of_visible (Iso.visible_text t)) (Time.text_ne_nil t) hcast
  | uuid =>
    obtain ⟨u, rfl⟩ := Cast.uuid_of_toUuid h
    obtain ⟨c, hc, -, hcast⟩ := (KeptBy.uuid (Cast.lt_of_toUuid hv h)).cast_canonical
    cases hc
    exact .byText rfl (strip_of_visible (Uuid.text_visible u)) (Uuid.text_ne_nil u) hcast
  | array =>
    rcases Cast.list_of_toList h with rfl | ⟨xs, rfl, -⟩
    · exact .asIs hv.asJson_eq
    · exact absurd hv.here id
  | hash =>
    obtain ⟨readOnly, es, rfl, rfl⟩ := Cast.hash_of_toHash h
    obtain rfl : readOnly = false := hv.here.1
    exact .asIs hv.asJson_eq
  | custom c => exact absurd rfl (ht c)

theorem tellable_of_cast (ht : t.IsBuiltin) (hv : v.Read) (h : builtin.cast t false v = .ok (.ok w)) : w.Tellable := by
  cases recast_of_cast ht h with
  | atom hw =>
    refine hw.throughout ?_
    cases w with
    | float x =>
      obtain ⟨-, h⟩ := (cast_eq_ok ht).1 h
      rw [if_neg fun hstrict => absurd hstrict.1 Bool.false_ne_true] at h
      have hof := (convert_convert ht h).2.1
      cases t with
      | float =>
        obtain ⟨y, hy, hfinite⟩ := Cast.finite_of_toFloat h
        cases hy
        refine ⟨Cast.canonical_of_toFloat hv h, ?_⟩
        rintro p rfl
        cases hfinite
      | _ => exact absurd hof (by simp [strictlyOf, Value.hasType])
    | _ => trivial
  | self => exact hv.tellable
  | list hxs =>
    subst hxs
    exact absurd hv.here id
  | hash hes =>
    subst hes
    obtain rfl := hv.here.1
    exact hv.tellable

/-- **What JSON shows of a cast is cast to the same.** -/
theorem cast_asJson (ht : t.IsBuiltin) (hv : v.Read) (h : builtin.cast t false v = .ok (.ok w)) :
    builtin.cast t false w.asJson = .ok (.ok w) := by
  cases shown_of_cast ht hv h with
  | asIs hw => rw [hw, cast_cast ht h]
  | byText hw _ _ hcast => rw [hw, hcast]

theorem isMissing_asJson (ht : t.IsBuiltin) (hv : v.Read) (h : builtin.cast t false v = .ok (.ok w)) :
    w.asJson.isMissing = w.isMissing := by
  cases shown_of_cast ht hv h with
  | asIs hw => rw [hw]
  | byText hw _ hn hcast =>
    rw [hw, not_missing_ofList hn, not_missing_of_cast (not_missing_ofList hn) hcast]

theorem isBlank_asJson (ht : t.IsBuiltin) (hne : t ≠ .text) (hv : v.Read) (h : builtin.cast t false v = .ok (.ok w)) :
    w.asJson.isBlank = false := by
  cases shown_of_cast ht hv h with
  | asIs hw => rw [hw, Value.isBlank, text?_of_cast ht hne h]; rfl
  | byText hw hs hn _ =>
    rw [hw]
    show (strip (String.ofList _).toList).isEmpty = false
    rw [String.toList_ofList, hs]
    exact List.isEmpty_eq_false_iff.2 hn

end Registry

end Intake
