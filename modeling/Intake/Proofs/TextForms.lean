/-
The text form of a value casts back to it.

An integer within the bound of digits, a boolean, a decimal, a date, a moment, a time and an identifier are cast to a
text, and the text is cast to the value again, part by part: decimals keep their sign, digits and exponent, times and
moments their offset (`cast_text_cast`). The text is the one that documents hold, where documents hold a value as text.

One kind of value is lost: an offset of less than a second is written and read as none (`Time.asRead`). The theorem
gives what is read for every offset, and that it is the value written exactly where the text tells the offset;
`sliver_offset_lost` is a moment for which it does not.
-/
import Intake.Proofs.CanonicalText
import Intake.Proofs.IntegerCasting

namespace Intake

open Intake.Text Intake.Number Intake.Calendar

/-! ## Integers and booleans -/

namespace Number

theorem digitCount_le_maxDigits {n : Int} : digitCount n.natAbs ≤ maxDigits ↔ n.natAbs < 10 ^ maxDigits :=
  Nat.length_toDigits_le_iff (by decide) (by decide)

theorem integerText_intText {n : Int} (h : n.natAbs < 10 ^ maxDigits) : IntegerText (intText n) n := by
  have hdigits : ∀ c ∈ digits n.natAbs, isDecimalDigit c = true := by
    intro c hc
    rw [isDecimalDigit, digitValue?, if_pos (digits_all n.natAbs c hc)]
    rfl
  have hsign : SignText (if decide (n < 0) then ['-'] else []) (decide (n < 0)) := by
    cases decide (n < 0) with
    | false => exact .unsigned
    | true => exact .minus
  have htext := IntegerText.mk hsign (digits_nonempty n.natAbs) hdigits (digitCount_le_maxDigits.2 h) .whole
  rwa [← ofDigits_eq_ofDigits, ofDigits_digits, signed_natAbs, List.append_nil, ← intText_eq] at htext

theorem intText_visible (n : Int) : ∀ c ∈ intText n, isVisible c = true := by
  rw [intText_eq]
  refine append_all (fun c hc => ?_) (digits_visible n.natAbs)
  split at hc
  · rw [List.mem_singleton.1 hc]
    decide
  · cases hc

end Number

namespace Cast

theorem toText_int {n : Int} (h : n.natAbs < 10 ^ maxDigits) :
    toText (.int n) = .ok (.text (String.ofList (intText n))) := by
  have htext : intText? n = some (intText n) := if_pos (digitCount_le_maxDigits.2 h)
  simp only [toText, Value.plain, Value.plain?, Value.shown?, htext]
  rfl

theorem toInteger_text {n : Int} (h : n.natAbs < 10 ^ maxDigits) :
    toInteger (.text (String.ofList (intText n))) = .ok (.int n) := by
  refine toInteger_eq_ok.2 (.text ?_)
  rw [String.toList_ofList, strip_of_visible (intText_visible n)]
  exact integerText_intText h

end Cast

/-! ## Values with a text form -/

/-- a value of a type whose values have texts that are cast back: an integer within the bound of digits, any other
value as it can be -/
inductive HasTextForm : ValueType → Value → Prop where
  | integer {n : Int} (h : n.natAbs < 10 ^ maxDigits) : HasTextForm .integer (.int n)
  | boolean (b : Bool) : HasTextForm .boolean (.bool b)
  | decimal {d : Decimal} (h : d.InRange) : HasTextForm .decimal (.decimal d)
  | date {d : Date} (h : d.Valid) : HasTextForm .date (.date d)
  | moment {m : Moment} (hd : m.date.Valid) (ht : m.time.Valid) : HasTextForm .moment (.moment m)
  | time {t : Time} (h : t.Valid) : HasTextForm .time (.time t)
  | uuid {u : Uuid} (h : u.value < 2 ^ 128) : HasTextForm .uuid (.uuid u)

namespace Value

def offset? : Value → Option Int
  | .moment m => m.time.offset
  | .time t => t.offset
  | _ => none

/-- a value as its text is read: an offset of less than a second is none -/
def asRead : Value → Value
  | .moment m => .moment m.asRead
  | .time t => .time t.asRead
  | v => v

/-- a value is read as it is written exactly if its offset is none or has a whole second -/
theorem asRead_eq_self {v : Value} : v.asRead = v ↔ ∀ o, v.offset? = some o → o = 0 ∨ microsPerSecond ≤ o.natAbs := by
  cases v with
  | moment m =>
    rw [asRead, moment.injEq]
    exact Moment.asRead_eq_self
  | time t =>
    rw [asRead, time.injEq]
    exact Time.asRead_eq_self
  | _ => simp [asRead, offset?]

end Value

/-- what the text form of a value is good for -/
structure TextForm (t : ValueType) (v : Value) (s : String) : Prop where
  /-- the value is cast to the text -/
  written : Registry.builtin.cast .text false v = .ok (.ok (.text s))
  /-- the text is cast to the value, but for an offset of less than a second -/
  read : Registry.builtin.cast t false (.text s) = .ok (.ok v.asRead)
  /-- documents hold the value as this text, unless they hold values of the type as they are -/
  dumped : t ≠ .integer → t ≠ .boolean → v.canonical = .ok (.text s)

theorem textForm_of_convert {t : ValueType} {name : String} {convert : Value → Outcome Value} {v : Value} {s : String}
    (ht : Registry.builtin.casterOf? t = some ⟨name, convert, Registry.defaultMessage name⟩)
    (hwritten : Cast.toText v = .ok (.text s)) (hread : convert (.text s) = .ok v.asRead)
    (hdumped : t ≠ .integer → t ≠ .boolean → v.canonical = .ok (.text s)) : TextForm t v s where
  written := builtin_cast_of_convert rfl hwritten
  read := builtin_cast_of_convert ht hread
  dumped := hdumped

theorem HasTextForm.textForm {t : ValueType} {v : Value} (h : HasTextForm t v) : ∃ s, TextForm t v s := by
  cases h with
  | @integer n h =>
    exact ⟨_, textForm_of_convert rfl (Cast.toText_int h) (Cast.toInteger_text h) fun hne => absurd rfl hne⟩
  | boolean b =>
    have hread : Cast.toBoolean (.text (if b then "true" else "false")) = .ok (.bool b) := by cases b <;> rfl
    exact ⟨_, textForm_of_convert rfl rfl hread fun _ hne => absurd rfl hne⟩
  | @decimal d h =>
    exact ⟨_, textForm_of_convert rfl rfl (Cast.toDecimal_text h) fun _ _ => rfl⟩
  | @date d h =>
    exact ⟨_, textForm_of_convert rfl rfl (Cast.toDate_text h) fun _ _ => rfl⟩
  | @moment m hd ht =>
    exact ⟨_, textForm_of_convert rfl rfl (Cast.toMoment_eq_asRead (by decide) hd ht) fun _ _ => rfl⟩
  | @time t h =>
    exact ⟨_, textForm_of_convert rfl rfl (Cast.toTime_eq_asRead h) fun _ _ => rfl⟩
  | @uuid u h =>
    exact ⟨_, textForm_of_convert rfl rfl (Cast.toUuid_text h) fun _ _ => rfl⟩

/-- **The text form of a value casts back to it**: to the very value, if its offset is none or has a whole second, and
otherwise to the value without the offset. -/
theorem cast_text_cast {t : ValueType} {v : Value} (h : HasTextForm t v) :
    ∃ s, TextForm t v s ∧ (v.asRead = v ↔ ∀ o, v.offset? = some o → o = 0 ∨ microsPerSecond ≤ o.natAbs) := by
  obtain ⟨s, hs⟩ := h.textForm
  exact ⟨s, hs, Value.asRead_eq_self⟩

/-- noon of a leap day, somewhat ahead of universal time -/
def leapNoon : Moment := ⟨⟨2024, 2, 29⟩, ⟨12, 0, 0, 500000, some 20700000000⟩⟩

theorem leapNoon_cast_text_cast : leapNoon.date.Valid ∧ leapNoon.time.Valid ∧
    ∃ s, TextForm .moment (.moment leapNoon) s ∧ ((Value.moment leapNoon).asRead = .moment leapNoon ↔
      ∀ o, (Value.moment leapNoon).offset? = some o → o = 0 ∨ microsPerSecond ≤ o.natAbs) := by
  have hd : leapNoon.date.Valid := by decide
  have ht : leapNoon.time.Valid := by decide
  exact ⟨hd, ht, cast_text_cast (.moment hd ht)⟩

/-- midnight of a day, ahead of universal time by a microsecond -/
def sliver : Moment := ⟨⟨2020, 1, 1⟩, ⟨0, 0, 0, 0, some 1⟩⟩

/-- the text of a moment tells an offset of a microsecond, and is cast to another moment, without it -/
theorem sliver_offset_lost :
    Registry.builtin.cast .text false (.moment sliver) = .ok (.ok (.text "2020-01-01T00:00:00+00:00:00.000001")) ∧
      Registry.builtin.cast .moment false (.text "2020-01-01T00:00:00+00:00:00.000001") =
        .ok (.ok (.moment ⟨⟨2020, 1, 1⟩, ⟨0, 0, 0, 0, some 0⟩⟩)) ∧
      sliver.sameInstant ⟨⟨2020, 1, 1⟩, ⟨0, 0, 0, 0, some 0⟩⟩ = false := by
  have htext : String.ofList sliver.text = "2020-01-01T00:00:00+00:00:00.000001" := by decide +kernel
  have hread : Cast.toMoment (.text (String.ofList sliver.text)) = .ok (.moment sliver.asRead) :=
    Cast.toMoment_eq_asRead (by decide) (by decide) (by decide)
  rw [htext] at hread
  exact ⟨builtin_cast_of_convert rfl (congrArg (fun s => Except.ok (Value.text s)) htext),
    builtin_cast_of_convert rfl hread,
    by decide +kernel⟩

end Intake
