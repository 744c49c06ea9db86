/-
Bounds of length that are declared, and those that are kept.

The parts of an option about length may bound a size more than once: from below, from above, exactly, and by the ends or
numbers that stand under `in` or `within`. A built rule keeps less of it than is declared (`LengthBounds.Kept`). Of
`in` and `within` it takes the first that is there, even if that is nothing; the ends of what it takes stand in for the
minimum and the maximum; and of a range it keeps the ends alone, as if it went up by ones. Where no part is passed over
in this way and no range has gaps (`LengthBounds.Unopposed`), what is kept is all that is declared
(`LengthBounds.Declared`).

Results:
- `LengthBounds.quiet_iff`: a built rule has no message for a value exactly if its size is within the bounds that are
  kept, and where nothing is passed over exactly if it is within all that are declared;
- `LengthBounds.declared_minimum_passed_over`: a text that is shorter than the declared minimum draws no message;
- `LengthBounds.among_iff_between_forall`: the ranges whose numbers are those between their ends.
-/
import Intake.Proofs.RuleRebuilding

namespace Intake

open Outcome

/-- a value has a size: as many elements or characters as can be counted, or else those of its text -/
inductive Value.Measures : Value → Nat → Prop where
  | counted {v : Value} {n : Nat} (h : v.size? = some n) (hc : v.countable = true) : Measures v n
  | written {v : Value} {s : String} (h : v.size? = none) (hs : v.plain = .ok s) : Measures v s.length

namespace LengthBounds

/-- the size that a rule takes is the size of the value -/
theorem sizeOf_eq_ok {v : Value} {n : Nat} : sizeOf v = .ok n ↔ v.Measures n := by
  have of_size {m : Nat} (hv : v.size? = some m) (hs : sizeOf v = .ok m) (hc : v.countable = true) :
      sizeOf v = .ok n ↔ v.Measures n := by
    constructor
    · intro h
      obtain rfl : m = n := Except.ok.inj (hs.symm.trans h)
      exact .counted hv hc
    · intro h
      cases h with
      | counted h _ => rw [hs, Option.some.inj (hv.symm.trans h)]
      | written h _ => cases hv.symm.trans h
  have of_text (hv : v.size? = none) (hs : sizeOf v = v.plain.map String.length) : sizeOf v = .ok n ↔ v.Measures n := by
    rw [hs, map_eq_ok]
    constructor
    · rintro ⟨s, hs, rfl⟩
      exact .written hv hs
    · intro h
      cases h with
      | counted h _ => cases hv.symm.trans h
      | written _ hs => exact ⟨_, hs, rfl⟩
  cases v with
  | range a b s =>
    by_cases hc : Value.rangeSize a b s ≤ Value.maxSize
    · exact of_size rfl (if_neg (Nat.not_lt.2 hc)) (decide_eq_true hc)
    · rw [show sizeOf (.range a b s) = .error .outOfRange from if_pos (Nat.lt_of_not_le hc)]
      refine ⟨nofun, fun h => ?_⟩
      cases h with
      | counted _ h => exact absurd (of_decide_eq_true h) hc
      | written h _ => cases h
  | text _ | textMember _ | bytes _ _ | list _ | tuple _ | set _ _ | map _ _ | schema _ => exact of_size rfl rfl rfl
  | _ => exact of_text rfl rfl

/-! ## Bounds -/

/-- a size is not below a bound that is given -/
def AtLeast (bound : Option Value) (n : Int) : Prop := ∀ m, Parts.given bound = some (.int m) → m ≤ n

/-- a size is not above a bound that is given -/
def AtMost (bound : Option Value) (n : Int) : Prop := ∀ m, Parts.given bound = some (.int m) → n ≤ m

def Exactly (bound : Option Value) (n : Int) : Prop := ∀ m, Parts.given bound = some (.int m) → n = m

/-- a size is one of the numbers of a range, or between the two bounds of a pair -/
def Among (span : Value) (n : Int) : Prop :=
  match span with
  | .range a b s => ∃ i : Nat, i < Value.rangeSize a b s ∧ n = a + i * s
  | v => ∀ least most, v.items? = some [least, most] → AtLeast (some least) n ∧ AtMost (some most) n

/-- a size is between the ends of a range, of which the last is left out, or between the two bounds of a pair -/
def Between (span : Value) (n : Int) : Prop :=
  match span with
  | .range a b _ => a ≤ n ∧ n < b
  | v => Among v n

/-- the parts that an option about length gives in full -/
def partsOf (config : Value) : Parts := config.hash?.getD []

/-- what stands under `in`, or else under `within` -/
def span (parts : Parts) : Option Value := Parts.given ((Value.field? "in" parts).or (Value.field? "within" parts))

/-- a size is within every bound that the parts declare -/
structure Declared (parts : Parts) (n : Int) : Prop where
  minimum : AtLeast (Value.field? "minimum" parts) n
  maximum : AtMost (Value.field? "maximum" parts) n
  exactly : Exactly (Value.field? "is" parts) n
  inside : ∀ v, Parts.given (Value.field? "in" parts) = some v → Among v n
  within : ∀ v, Parts.given (Value.field? "within" parts) = some v → Among v n

/-- a size is within the bounds that a rule keeps of the parts -/
structure Kept (parts : Parts) (n : Int) : Prop where
  exactly : Exactly (Value.field? "is" parts) n
  ends : ∀ v, span parts = some v → Between v n
  minimum : span parts = none → AtLeast (Value.field? "minimum" parts) n
  maximum : span parts = none → AtMost (Value.field? "maximum" parts) n

/-- the numbers of a range are all that lie between its ends -/
def Gapless (a b s : Int) : Prop := s = 1 ∨ a = b ∨ 0 < s ∧ b ≤ a + 1

/-- no part stands in the place of another, and a range has no gaps -/
structure Unopposed (parts : Parts) : Prop where
  alone : ∀ v, span parts = some v →
    Parts.given (Value.field? "minimum" parts) = none ∧ Parts.given (Value.field? "maximum" parts) = none
  once : Value.field? "in" parts = none ∨ Parts.given (Value.field? "within" parts) = none
  gapless : ∀ a b s, span parts = some (.range a b s) → Gapless a b s

/-- a range has the numbers between its ends exactly if it has no gaps: one that goes up by more than one leaves numbers
out, and one that goes down has its numbers where a rising one would have none -/
theorem among_iff_between_forall {a b s : Int} :
    (∀ n, Among (.range a b s) n ↔ Between (.range a b s) n) ↔ Gapless a b s := by
  simp only [Among, Between, Value.exists_step_iff]
  constructor
  · intro h
    by_cases hs : 0 < s
    · by_cases hb : b ≤ a + 1
      · exact .inr (.inr ⟨hs, hb⟩)
      · -- the number after the first lies between the ends, so it is in the range and the step divides one
        obtain ⟨-, hmod⟩ := (h (a + 1)).2 ⟨by omega, by omega⟩
        rw [add_sub_cancel_left] at hmod
        exact .inl (Int.eq_one_of_dvd_one hs.le (Int.dvd_of_emod_eq_zero hmod))
    · refine .inr (.inl ?_)
      have ha : (b < a ∧ a ≤ a) ∧ (a - a) % s = 0 ↔ a ≤ a ∧ a < b := by simpa only [if_neg hs] using h a
      rw [sub_self, Int.zero_emod] at ha
      omega
  · rintro (rfl | rfl | ⟨hs, hb⟩) n
    · simp
    · split <;> omega
    · rw [if_pos hs]
      refine ⟨fun h => h.1, fun h => ⟨h, ?_⟩⟩
      obtain rfl : n = a := by omega
      rw [sub_self, Int.zero_emod]

theorem among_iff_between {span : Value} (h : ∀ a b s, span = .range a b s → Gapless a b s) (n : Int) :
    Among span n ↔ Between span n := by
  cases span with
  | range a b s => exact among_iff_between_forall.2 (h a b s rfl) n
  | _ => exact Iff.rfl

/-- where nothing is passed over, the bounds that are kept are those that are declared -/
theorem Unopposed.kept_iff {parts : Parts} (h : Unopposed parts) (n : Int) : Kept parts n ↔ Declared parts n := by
  have hbetween {v : Value} (hv : span parts = some v) : Among v n ↔ Between v n :=
    among_iff_between (fun a b s hr => h.gapless a b s (hr ▸ hv)) n
  have hinside {v : Value} (hv : Parts.given (Value.field? "in" parts) = some v) : span parts = some v := by
    have hin := field?_of_given hv
    rw [span, hin, Option.some_or]
    rwa [hin] at hv
  have hwithin {v : Value} (hv : Parts.given (Value.field? "within" parts) = some v) : span parts = some v := by
    rcases h.once with hin | hnone
    · rw [span, hin, Option.none_or, hv]
    · cases hnone.symm.trans hv
  constructor
  · intro hk
    refine ⟨fun m hm => ?_, fun m hm => ?_, hk.exactly, fun v hv => (hbetween (hinside hv)).2 (hk.ends v (hinside hv)),
      fun v hv => (hbetween (hwithin hv)).2 (hk.ends v (hwithin hv))⟩
    · cases hs : span parts with
      | none => exact hk.minimum hs m hm
      | some v => cases (h.alone v hs).1.symm.trans hm
    · cases hs : span parts with
      | none => exact hk.maximum hs m hm
      | some v => cases (h.alone v hs).2.symm.trans hm
  · intro hd
    refine ⟨hd.exactly, fun v hv => (hbetween hv).1 ?_, fun _ => hd.minimum, fun _ => hd.maximum⟩
    rcases h.once with hin | hnone
    · refine hd.within v ?_
      rwa [span, hin, Option.none_or] at hv
    · refine hd.inside v ?_
      rw [span] at hv
      cases hin : Value.field? "in" parts with
      | none =>
        rw [hin, Option.none_or, hnone] at hv
        cases hv
      | some w => rwa [hin, Option.some_or] at hv

/-! ## Verdicts -/

/-- a size is within the bounds of a rule -/
structure Admits (r : LengthBounds) (n : Int) : Prop where
  exactly : ∀ m, r.exactly = some m → n = m
  minimum : ∀ m, r.minimum = some m → m ≤ n
  maximum : ∀ m, r.maximum = some m → n ≤ m

theorem checkBound_eq_nil {message : Option Value} {bound : Option Int} {broken : Int → Bool} {before after : String} :
    checkBound message bound broken before after = .ok [] ↔ ∀ m, bound = some m → broken m = false := by
  cases bound with
  | none => exact iff_of_true rfl nofun
  | some m =>
    simp only [checkBound, messageIf, Option.some.injEq, forall_eq']
    cases broken m with
    | false => simp
    | true =>
      simp only [if_true, Bool.true_eq_false, iff_false]
      intro h
      obtain ⟨w, -, h⟩ := bind_eq_ok.1 h
      cases h

/-- a rule about length has no message exactly for sizes within its bounds -/
theorem run_eq_nil {r : LengthBounds} {v : Value} {n : Nat} (hn : v.Measures n) : r.run v = .ok [] ↔ r.Admits n := by
  have hrun : r.run v = .ok [] ↔
      checkBound r.message r.exactly ((n : Int) != ·) "is the wrong length (should be " " characters)" = .ok [] ∧
        checkBound r.message r.minimum ((n : Int) < ·) "is too short (minimum is " " characters)" = .ok [] ∧
          checkBound r.message r.maximum (· < (n : Int)) "is too long (maximum is " " characters)" = .ok [] := by
    unfold run
    rw [sizeOf_eq_ok.2 hn]
    show (checkBound _ _ _ _ _ >>= _) = _ ↔ _
    constructor
    · intro h
      obtain ⟨exact, hexact, h⟩ := bind_eq_ok.1 h
      obtain ⟨short, hshort, h⟩ := bind_eq_ok.1 h
      obtain ⟨long, hlong, h⟩ := bind_eq_ok.1 h
      obtain ⟨hnil, rfl⟩ := List.append_eq_nil_iff.1 (Except.ok.inj h)
      obtain ⟨rfl, rfl⟩ := List.append_eq_nil_iff.1 hnil
      exact ⟨hexact, hshort, hlong⟩
    · rintro ⟨hexact, hshort, hlong⟩
      rw [hexact, ok_bind, hshort, ok_bind, hlong]
      rfl
  rw [hrun, checkBound_eq_nil, checkBound_eq_nil, checkBound_eq_nil]
  simp only [bne_eq_false_iff_eq, decide_eq_false_iff_not, not_lt]
  exact ⟨fun ⟨h1, h2, h3⟩ => ⟨h1, h2, h3⟩, fun h => ⟨h.exactly, h.minimum, h.maximum⟩⟩

/-! ## Built rules -/

theorem eq_of_lengthBound {name : String} {v : Option Value} {b : Option Int} (h : lengthBound name v = .ok b) :
    v = b.map .int := by
  unfold lengthBound at h
  split at h
  · cases h
    rfl
  · split at h
    · obtain ⟨s, -, h⟩ := bind_eq_ok.1 h
      cases h
    · cases h
      rfl
  · obtain ⟨s, -, h⟩ := bind_eq_ok.1 h
    cases h

theorem given_eq_int_iff {v : Option Value} {b : Option Int} (h : Parts.given v = b.map .int) (m : Int) :
    Parts.given v = some (.int m) ↔ b = some m := by
  rw [h]
  cases b <;> simp

/-- the two ends that are read of a range or a pair bound what is between them -/
theorem between_iff {span : Value} {least most : Option Int}
    (h : lengthEnds span = .ok (least.map .int, most.map .int)) (n : Int) :
    Between span n ↔ (∀ m, least = some m → m ≤ n) ∧ ∀ m, most = some m → n ≤ m := by
  unfold lengthEnds at h
  split at h
  · next a b s =>
    obtain ⟨ha, hb⟩ := Prod.mk.inj (Except.ok.inj h)
    cases least with
    | none => cases ha
    | some l =>
      cases most with
      | none => cases hb
      | some m =>
        cases ha
        cases hb
        simp only [Between, Option.some.injEq, forall_eq']
        omega
  · next v hv =>
    split at h
    · next a b hitems =>
      obtain ⟨ha, hb⟩ := Prod.mk.inj (Except.ok.inj h)
      have hbetween : Between span n ↔ AtLeast (some a) n ∧ AtMost (some b) n := by
        have hpair : Among span n ↔ AtLeast (some a) n ∧ AtMost (some b) n := by
          cases span with
          | range a b s => exact absurd rfl (hv a b s)
          | list xs => cases hitems; simp [Among, Value.items?]
          | tuple xs => cases hitems; simp [Among, Value.items?]
          | _ => cases hitems
        cases span with
        | range a b s => exact absurd rfl (hv a b s)
        | _ => exact hpair
      rw [hbetween]
      simp only [AtLeast, AtMost, given_eq_int_iff ha, given_eq_int_iff hb]
    · obtain ⟨s, -, h⟩ := bind_eq_ok.1 h
      cases h

theorem partsOf_of_optionParts {config : Value} {parts : Parts} (h : optionParts "length" config none = .ok parts) :
    partsOf config = parts := by
  unfold optionParts at h
  split at h
  · next es hes =>
    cases h
    rw [partsOf, hes, Option.getD_some]
  · next hshort => cases hshort
  · obtain ⟨s, -, h⟩ := bind_eq_ok.1 h
    cases h

/-- the ends of a built rule are read of its parts, each of which is found as it stands, whatever is taken out before
it -/
theorem of_buildLength {config : Value} {rule : Rule} (h : buildLength config = .ok rule) :
    ∃ r, rule = .length r ∧
      Parts.given (Value.field? "is" (partsOf config)) = r.exactly.map .int ∧
      lengthLimits (Value.field? "minimum" (partsOf config)) (Value.field? "maximum" (partsOf config))
          ((Value.field? "in" (partsOf config)).or (Value.field? "within" (partsOf config))) =
        .ok (r.minimum.map .int, r.maximum.map .int) := by
  rw [buildLength_eq] at h
  obtain ⟨parts, hparts, h⟩ := bind_eq_ok.1 h
  obtain rfl := partsOf_of_optionParts hparts
  obtain ⟨⟨message, rest⟩, hmessage, h⟩ := bind_eq_ok.1 h
  obtain ⟨-, rfl⟩ := of_popMessage hmessage
  obtain ⟨⟨least, most⟩, hends, h⟩ := bind_eq_ok.1 h
  obtain ⟨-, -, h⟩ := bind_eq_ok.1 h
  obtain ⟨minimum, hmin, h⟩ := bind_eq_ok.1 h
  obtain ⟨maximum, hmax, h⟩ := bind_eq_ok.1 h
  obtain ⟨exactly, hexact, h⟩ := bind_eq_ok.1 h
  cases h
  obtain rfl := eq_of_lengthBound hmin
  obtain rfl := eq_of_lengthBound hmax
  have hexact := eq_of_lengthBound hexact
  simp only [ne_eq, String.reduceEq, not_false_eq_true, Value.field?_removeKey] at hends hexact
  exact ⟨_, rfl, hexact, hends⟩

/-- the bounds of a built rule are those that are kept of its parts -/
theorem admits_iff_kept {config : Value} {rule : Rule} (h : buildLength config = .ok rule) :
    ∃ r, rule = .length r ∧ ∀ n, r.Admits n ↔ Kept (partsOf config) n := by
  obtain ⟨r, rfl, hexact, hends⟩ := of_buildLength h
  refine ⟨r, rfl, fun n => ?_⟩
  have hexactly : Exactly (Value.field? "is" (partsOf config)) n ↔ ∀ m, r.exactly = some m → n = m := by
    simp only [Exactly, given_eq_int_iff hexact]
  unfold lengthLimits at hends
  split at hends
  · next v hv =>
    have hspan : span (partsOf config) = some v := hv
    have hbetween := between_iff hends n
    constructor
    · intro ha
      refine ⟨hexactly.2 ha.exactly, fun w hw => ?_, fun hn => ?_, fun hn => ?_⟩
      · cases hspan.symm.trans hw
        exact hbetween.2 ⟨ha.minimum, ha.maximum⟩
      · cases hn.symm.trans hspan
      · cases hn.symm.trans hspan
    · intro hk
      obtain ⟨hlow, hhigh⟩ := hbetween.1 (hk.ends v hspan)
      exact ⟨hexactly.1 hk.exactly, hlow, hhigh⟩
  · next hv =>
    have hspan : span (partsOf config) = none := hv
    obtain ⟨hlow, hhigh⟩ := Prod.mk.inj (Except.ok.inj hends)
    have hleast : AtLeast (Value.field? "minimum" (partsOf config)) n ↔ ∀ m, r.minimum = some m → m ≤ n := by
      simp only [AtLeast, given_eq_int_iff hlow]
    have hmost : AtMost (Value.field? "maximum" (partsOf config)) n ↔ ∀ m, r.maximum = some m → n ≤ m := by
      simp only [AtMost, given_eq_int_iff hhigh]
    constructor
    · intro ha
      refine ⟨hexactly.2 ha.exactly, fun w hw => ?_, fun _ => hleast.2 ha.minimum, fun _ => hmost.2 ha.maximum⟩
      cases hspan.symm.trans hw
    · intro hk
      exact ⟨hexactly.1 hk.exactly, hleast.1 (hk.minimum hspan), hmost.1 (hk.maximum hspan)⟩

theorem kept_nil (n : Int) : Kept [] n := ⟨nofun, nofun, fun _ => nofun, fun _ => nofun⟩

/-- the rules of one option are those that it gives, unless it is switched off -/
theorem of_buildRules_singleton {key config : Value} {rules : List Rule} (h : buildRules [(key, config)] = .ok rules) :
    isOff config = true ∧ rules = [] ∨ buildOption key config = .ok rules := by
  unfold buildRules at h
  cases hoff : isOff config with
  | true =>
    rw [List.filter_cons_of_neg (by simp [hoff])] at h
    exact .inl ⟨rfl, (Except.ok.inj h).symm⟩
  | false =>
    rw [List.filter_cons_of_pos (by simp [hoff]), List.filter_nil] at h
    obtain ⟨all, hall, h⟩ := bind_eq_ok.1 h
    obtain ⟨rs, rss, hrs, hnil, rfl⟩ := List.forall₂_cons_left_iff.1 (mapM_eq_ok.1 hall)
    cases hnil
    cases h
    exact .inr (by simpa using hrs)

theorem runRules_singleton {rule : Rule} {v : Value} : runRules [rule] v = .ok [] ↔ rule.run v = .ok [] := by
  unfold runRules
  cases h : rule.run v with
  | error f => simp [h]
  | ok ms => simp [h]

/-- **A rule about length has no message for a value exactly if the size is within the bounds that are kept of the
option.** Where no part is passed over and no range has gaps, these are all the bounds that the option declares -/
theorem quiet_iff {config : Value} {rules : List Rule} (h : buildRules [(.text "length", config)] = .ok rules) {v : Value}
    {n : Nat} (hn : v.Measures n) :
    (runRules rules v = .ok [] ↔ Kept (partsOf config) n) ∧
      (Unopposed (partsOf config) → (runRules rules v = .ok [] ↔ Declared (partsOf config) n)) := by
  have hkept : runRules rules v = .ok [] ↔ Kept (partsOf config) n := by
    rcases of_buildRules_singleton h with ⟨hoff, rfl⟩ | hbuild
    · have hparts : partsOf config = [] := by cases config <;> first | rfl | cases hoff
      rw [hparts]
      exact iff_of_true rfl (kept_nil n)
    · obtain ⟨rule, hrule, hrules⟩ := bind_eq_ok.1 (show (do .ok [← buildLength config]) = .ok rules from hbuild)
      cases hrules
      obtain ⟨r, rfl, hadmits⟩ := admits_iff_kept hrule
      rw [← hadmits, ← run_eq_nil hn]
      exact runRules_singleton
  exact ⟨hkept, fun hu => hkept.trans (hu.kept_iff n)⟩

/-- a rule about length from fields that are written out -/
theorem buildRules_ofFields {fs : Fields} {r : LengthBounds} (h : lengthOf fs.entries = .ok (.length r)) :
    buildRules [(.text "length", .ofFields fs)] = .ok [.length r] := by
  have hbuild : buildLength (.ofFields fs) = .ok (.length r) := by
    rw [buildLength_eq]
    exact h
  have hoption : buildOption (.text (Rule.length r).option) (.ofFields fs) = .ok [.length r] := by
    show (do .ok [← buildLength (.ofFields fs)]) = _
    rw [hbuild]
    rfl
  exact Rule.buildRules_singleton rfl hoption

theorem popMessage_of_absent {fs : Fields} (h : "message" ∉ fs.names) (option : String) :
    popMessage option fs.entries = .ok (none, fs.entries) := by
  simp only [popMessage, Parts.pop_of_absent h, Parts.given]

def twoToFour : Fields := [("in", .range 2 5 1)]

theorem field?_twoToFour (name : String) : Value.field? name (partsOf (.ofFields twoToFour)) = twoToFour.lookup name :=
  Value.field?_entries name _

theorem declared_twoToFour (n : Int) : Declared (partsOf (.ofFields twoToFour)) n ↔ 2 ≤ n ∧ n < 5 := by
  have hrange : Among (.range 2 5 1) n ↔ 2 ≤ n ∧ n < 5 := among_iff_between_forall.2 (.inl rfl) n
  constructor
  · intro h
    exact hrange.1 (h.inside _ (by rw [field?_twoToFour]; rfl))
  · intro h
    constructor
    case inside =>
      intro v hv
      rw [field?_twoToFour] at hv
      cases hv
      exact hrange.2 h
    all_goals
      rw [field?_twoToFour]
      nofun

theorem unopposed_twoToFour : Unopposed (partsOf (.ofFields twoToFour)) := by
  constructor
  case alone =>
    intro v _
    rw [field?_twoToFour, field?_twoToFour]
    exact ⟨rfl, rfl⟩
  case once =>
    rw [field?_twoToFour, field?_twoToFour]
    exact .inr rfl
  case gapless =>
    intro a b s hs
    rw [span, field?_twoToFour, field?_twoToFour] at hs
    cases hs
    exact .inl rfl

/-- four characters are few enough and five are not -/
theorem twoToFour_quiet :
    buildRules [(.text "length", .ofFields twoToFour)] = .ok [.length ⟨some 2, some 4, none, none⟩] ∧
      runRules [.length ⟨some 2, some 4, none, none⟩] (.text "abcd") = .ok [] ∧
      runRules [.length ⟨some 2, some 4, none, none⟩] (.text "abcde") ≠ .ok [] := by
  have hbuilt : buildRules [(.text "length", .ofFields twoToFour)] = .ok [.length ⟨some 2, some 4, none, none⟩] := by
    have hm : "message" ∉ twoToFour.names := by decide
    refine buildRules_ofFields ?_
    simp only [lengthOf, popMessage_of_absent hm, ok_bind, Parts.pop_entries]
    rfl
  have hfour := (quiet_iff hbuilt (.counted rfl rfl : (Value.text "abcd").Measures 4)).2 unopposed_twoToFour
  have hfive := (quiet_iff hbuilt (.counted rfl rfl : (Value.text "abcde").Measures 5)).2 unopposed_twoToFour
  refine ⟨hbuilt, hfour.2 ((declared_twoToFour 4).2 (by decide)), fun h => ?_⟩
  exact absurd ((declared_twoToFour 5).1 (hfive.1 h)) (by decide)

def minimumBesideEnds : Fields := [("minimum", .int 3), ("in", .list [.int 1, .int 5])]

/-- a text that is shorter than the declared minimum draws no message if ends are declared beside it -/
theorem declared_minimum_passed_over :
    buildRules [(.text "length", .ofFields minimumBesideEnds)] = .ok [.length ⟨some 1, some 5, none, none⟩] ∧
      (Value.text "a").Measures 1 ∧ runRules [.length ⟨some 1, some 5, none, none⟩] (.text "a") = .ok [] ∧
      ¬ Declared (partsOf (.ofFields minimumBesideEnds)) 1 := by
  refine ⟨buildRules_ofFields ?_, .counted rfl rfl, by rfl, fun h => ?_⟩
  · have hm : "message" ∉ minimumBesideEnds.names := by decide
    simp only [lengthOf, popMessage_of_absent hm, ok_bind, Parts.pop_entries]
    rfl
  · have hminimum : Value.field? "minimum" (partsOf (.ofFields minimumBesideEnds)) = some (.int 3) :=
      Value.field?_entries "minimum" _
    exact absurd (h.minimum 3 (by rw [hminimum]; rfl)) (by decide)

end LengthBounds

end Intake
