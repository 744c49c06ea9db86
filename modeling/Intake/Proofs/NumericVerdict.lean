/-
Rules about numbers decide exact arithmetic.

A number reaches such a rule as an integer, as a decimal or as text, and so does a bound; each denotes an exact fraction
(`Value.Exact`). What the rule finds depends on the fractions alone: on their order, and on whether the number is an
integer, an odd or an even one (`Numericality.verdict`). A rule that is built from an option answers with this verdict on
the bounds and the flags that the option declares, and to what is no number that it is none
(`Numericality.decides_exactly`).

No integer that has a text and no finite decimal is out of reach: comparing two numbers never fails, and the parity of a
decimal is that of its fraction however large its exponent is (`Value.Kept`).
-/
import Intake.Proofs.DecimalGrammar
import Intake.Proofs.RuleRebuilding

namespace Intake

open Intake.Text Intake.Number Intake.Outcome

/-! ## Exact numbers -/

namespace Value

/-- a value denotes a fraction: an integer of at most 4300 digits, a finite decimal, or a text that denotes one -/
inductive Exact : Value → ℚ → Prop where
  | int {n : Int} (short : digitCount n.natAbs ≤ 4300) : Exact (.int n) n
  | decimal {d : Decimal} {q : ℚ} (h : d.value? = some q) : Exact (.decimal d) q
  | text {s : String} {d : Decimal} {q : ℚ} (hd : d.DenotedBy s.toList) (h : d.value? = some q) : Exact (.text s) q
  | textMember {s : String} {d : Decimal} {q : ℚ} (hd : d.DenotedBy s.toList) (h : d.value? = some q) :
    Exact (.textMember s) q

/-- a value that is no number and no text of a number -/
inductive NoNumber : Value → Prop where
  | bool (b : Bool) : NoNumber (.bool b)
  | float {x : Binary64} (h : x.isFinite = false) : NoNumber (.float x)
  | decimal {d : Decimal} (h : d.isFinite = false) : NoNumber (.decimal d)
  | text {s : String} (h : ∀ d : Decimal, ¬d.DenotedBy s.toList) : NoNumber (.text s)
  | textMember {s : String} (h : ∀ d : Decimal, ¬d.DenotedBy s.toList) : NoNumber (.textMember s)
  | other {v : Value} (h : ∀ t ∈ [ValueType.integer, .float, .decimal, .text], v.hasType t = false) : NoNumber v

/-- a number as rules keep it: texts are taken as the decimals that they denote -/
inductive Kept : Value → ℚ → Prop where
  | int {n : Int} (short : digitCount n.natAbs ≤ 4300) : Kept (.int n) n
  | decimal {d : Decimal} {q : ℚ} (h : d.value? = some q) : Kept (.decimal d) q

theorem asNumber_text {s : String} {d : Decimal} (h : d.DenotedBy s.toList) :
    asNumber (.text s) = some (.decimal d) ∧ asNumber (.textMember s) = some (.decimal d) := by
  obtain ⟨hread, hfinite⟩ := Decimal.ofText?_finite_iff.2 h
  constructor <;> simp only [asNumber, hread, hfinite, if_true]

theorem Exact.asNumber {v : Value} {q : ℚ} (h : v.Exact q) : ∃ n, asNumber v = some n ∧ n.Kept q := by
  cases h with
  | int short => exact ⟨_, rfl, .int short⟩
  | decimal h => exact ⟨_, if_pos (Decimal.isFinite_iff.2 ⟨q, h⟩), .decimal h⟩
  | text hd h => exact ⟨_, (asNumber_text hd).1, .decimal h⟩
  | textMember hd h => exact ⟨_, (asNumber_text hd).2, .decimal h⟩

theorem asNumber_text_eq_none {s : String} (h : ∀ d : Decimal, ¬d.DenotedBy s.toList) :
    Intake.asNumber (.text s) = none ∧ Intake.asNumber (.textMember s) = none := by
  have hread : ∀ d, Decimal.ofText? s.toList = some d → d.isFinite = false := fun d hd =>
    Bool.eq_false_iff.2 fun hf => h d (Decimal.ofText?_finite_iff.1 ⟨hd, hf⟩)
  cases hd : Decimal.ofText? s.toList with
  | none => constructor <;> simp only [Intake.asNumber, hd]
  | some d => constructor <;> simp only [Intake.asNumber, hd, hread d hd, Bool.false_eq_true, if_false]

theorem NoNumber.asNumber {v : Value} (h : v.NoNumber) : asNumber v = none := by
  cases h with
  | bool b => rfl
  | float h => exact if_neg (by simp [h])
  | decimal h => exact if_neg (by simp [h])
  | text h => exact (asNumber_text_eq_none h).1
  | textMember h => exact (asNumber_text_eq_none h).2
  | other h =>
    simp only [List.forall_mem_cons] at h
    obtain ⟨hint, hfloat, hdecimal, htext, -⟩ := h
    cases v <;> first | rfl | simp [hasType] at hint hfloat hdecimal htext

/-! ## Comparing -/

namespace Kept

variable {n b : Value} {p q : ℚ}

theorem intText?_isSome {n : Int} (short : digitCount n.natAbs ≤ 4300) : (intText? n).isSome := by
  rw [intText?, if_pos (show digitCount n.natAbs ≤ maxDigits from short)]
  rfl

theorem widened (h : n.Kept q) : ∃ d, Numericality.widened n = .ok d ∧ d.value? = some q := by
  cases h with
  | int short => exact ⟨_, if_pos (intText?_isSome short), Decimal.value?_ofInt _⟩
  | decimal h => exact ⟨_, rfl, h⟩

/-- a number and a bound are compared as the fractions that they denote -/
theorem compare (hn : n.Kept p) (hb : b.Kept q) : ∃ o, Numericality.compare n b = .ok o ∧ o.Compares p q := by
  obtain ⟨x, hx, hxp⟩ := hn.widened
  obtain ⟨y, hy, hyq⟩ := hb.widened
  obtain ⟨o, ho, hcompares⟩ := Decimal.compare?_compares hxp hyq
  refine ⟨o, ?_, hcompares⟩
  cases hn with
  | int short =>
    cases hb with
    | int short' =>
      obtain rfl := Except.ok.inj ((if_pos (intText?_isSome short)).symm.trans hx)
      obtain rfl := Except.ok.inj ((if_pos (intText?_isSome short')).symm.trans hy)
      simp only [Numericality.compare, Numericality.isDecimal, Bool.or_self, Bool.false_eq_true, if_false, numeric?,
        Option.bind_some, Option.map_some, Cast.orBad, ok_bind, ho]
    | decimal h =>
      simp only [Numericality.compare, Numericality.isDecimal, Bool.or_true, if_true, hx, hy, ok_bind]
      exact congrArg Cast.orBad ho
  | decimal h =>
    simp only [Numericality.compare, Numericality.isDecimal, Bool.true_or, if_true, hx, hy, ok_bind]
    exact congrArg Cast.orBad ho

end Kept

end Value

namespace Comparison

/-- the relation of a number to a bound that a comparison asks for -/
def Relates : Comparison → ℚ → ℚ → Prop
  | .greaterThan, q, bound => q > bound
  | .greaterOrEqual, q, bound => q ≥ bound
  | .equalTo, q, bound => q = bound
  | .otherThan, q, bound => q ≠ bound
  | .lessThan, q, bound => q < bound
  | .lessOrEqual, q, bound => q ≤ bound

instance (c : Comparison) (q bound : ℚ) : Decidable (c.Relates q bound) := by
  cases c <;> unfold Relates <;> infer_instance

theorem holds_iff (c : Comparison) {o : Ordering} {q bound : ℚ} (h : o.Compares q bound) :
    c.holds o = true ↔ c.Relates q bound := by
  cases o with
  | lt =>
    have h : q < bound := h
    cases c <;> simp [holds, Relates, h, h.ne, h.le, not_lt.2 h.le]
  | eq =>
    obtain rfl : q = bound := h
    cases c <;> simp [holds, Relates]
  | gt =>
    have h : bound < q := h
    cases c <;> simp [holds, Relates, h, h.ne', h.le, not_lt.2 h.le]

end Comparison

/-! ## Whole, odd and even numbers -/

namespace Numericality

def Whole (q : ℚ) : Prop := ∃ n : Int, q = n

/-- a fraction that is an odd integer -/
def OddWhole (q : ℚ) : Prop := ∃ n : Int, q = (2 * n + 1 : Int)

/-- a fraction that is an even integer -/
def EvenWhole (q : ℚ) : Prop := ∃ n : Int, q = (2 * n : Int)

theorem whole_iff {q : ℚ} : Whole q ↔ q.den = 1 :=
  ⟨fun ⟨n, h⟩ => by rw [h, Rat.den_intCast], fun h => ⟨q.num, ((Rat.den_eq_one_iff q).1 h).symm⟩⟩

/-- a fraction is an integer of a parity exactly if it has no denominator, and its numerator has that parity -/
theorem exists_half_iff {q : ℚ} {k : Int} (hk : k = 0 ∨ k = 1) :
    (∃ n : Int, q = (2 * n + k : Int)) ↔ q.den = 1 ∧ q.num % 2 = k := by
  constructor
  · rintro ⟨n, rfl⟩
    rw [Rat.den_intCast, Rat.num_intCast]
    omega
  · rintro ⟨hden, hnum⟩
    obtain ⟨n, rfl⟩ := whole_iff.2 hden
    rw [Rat.num_intCast] at hnum
    exact ⟨n / 2, congrArg Int.cast (by omega)⟩

theorem evenWhole_iff_half {q : ℚ} : EvenWhole q ↔ ∃ n : Int, q = (2 * n + 0 : Int) := by
  simp only [EvenWhole, add_zero]

theorem oddWhole_iff {q : ℚ} : OddWhole q ↔ q.den = 1 ∧ q.num % 2 = 1 := exists_half_iff (.inr rfl)

theorem evenWhole_iff {q : ℚ} : EvenWhole q ↔ q.den = 1 ∧ q.num % 2 = 0 :=
  evenWhole_iff_half.trans (exists_half_iff (.inl rfl))

instance (q : ℚ) : Decidable (Whole q) := decidable_of_iff _ whole_iff.symm

instance (q : ℚ) : Decidable (OddWhole q) := decidable_of_iff _ oddWhole_iff.symm

instance (q : ℚ) : Decidable (EvenWhole q) := decidable_of_iff _ evenWhole_iff.symm

variable {n : Value} {q : ℚ}

theorem isWhole_iff (h : n.Kept q) : isWhole n = true ↔ Whole q := by
  cases h with
  | @int m short => exact ⟨fun _ => ⟨m, rfl⟩, fun _ => rfl⟩
  | decimal h => exact Decimal.isWhole_iff h

/-- a whole number has the parity of its fraction: a decimal with a positive exponent is a multiple of ten -/
theorem parity_eq (h : n.Kept q) {k : Int} (hk : q = k) : parity n = k % 2 := by
  cases h with
  | int short => rw [← Int.cast_inj.1 hk]; rfl
  | @decimal d q h =>
    subst hk
    cases d with
    | finite s c e =>
      obtain ⟨-, hpart⟩ := Decimal.whole_part_iff.2 h
      simp only [parity]
      split
      · next he =>
        obtain ⟨j, rfl⟩ := Int.eq_ofNat_of_zero_le he.le
        have hten : (k : ℚ) = ((signed s c * 10 ^ j : Int) : ℚ) := by
          rw [← Option.some.inj h, Decimal.fraction, zpow_natCast]
          push_cast
          rfl
        have hdvd : (2 : Int) ∣ signed s c * 10 ^ j := Dvd.dvd.mul_left (dvd_pow (by decide) (by omega)) _
        rw [Int.cast_inj.1 hten]
        omega
      · rw [hpart]
        rfl
    | infinite s => cases h
    | nan s g m w => cases h

theorem isWhole_parity_iff (h : n.Kept q) {k : Int} (hk : k = 0 ∨ k = 1) :
    (isWhole n && parity n == k) = true ↔ ∃ m : Int, q = (2 * m + k : Int) := by
  rw [Bool.and_eq_true, isWhole_iff h, beq_iff_eq]
  constructor
  · rintro ⟨⟨m, hm⟩, hparity⟩
    rw [parity_eq h hm] at hparity
    exact ⟨m / 2, by rw [hm]; exact congrArg Int.cast (by omega)⟩
  · rintro ⟨m, hm⟩
    exact ⟨⟨_, hm⟩, by rw [parity_eq h hm]; omega⟩

theorem isOdd_iff (h : n.Kept q) : (isWhole n && parity n == 1) = true ↔ OddWhole q := isWhole_parity_iff h (.inr rfl)

theorem isEven_iff (h : n.Kept q) : (isWhole n && parity n == 0) = true ↔ EvenWhole q :=
  (isWhole_parity_iff h (.inl rfl)).trans evenWhole_iff_half.symm

/-! ## What an option declares -/

/-- the value that an option in full has under a name; `true` has none -/
def declared (config : Value) (name : String) : Option Value := config.hash?.bind (Value.field? name)

def isSet (config : Value) (flag : String) : Bool := (declared config flag).any Value.truthy

/-- a rule keeps what its option declares -/
structure Keeps (config : Value) (r : Numericality) : Prop where
  message : r.message = Parts.given (declared config "message")
  bounds : r.bounds = Comparison.all.filterMap fun c => ((declared config c.name).bind asNumber).map fun n => (c, n)
  onlyInteger : r.onlyInteger = isSet config "only_integer"
  odd : r.odd = isSet config "odd"
  even : r.even = isSet config "even"

end Numericality

/-- the bounds that are popped are those among the parts, and the other parts are left -/
theorem popped_of_popBounds {cs : List Comparison} (hcs : (cs.map Comparison.name).Nodup) {parts rest : Parts}
    {bounds : List (Comparison × Value)} (h : popBounds cs parts = .ok (bounds, rest)) :
    bounds = cs.filterMap (fun c => ((Value.field? c.name parts).bind asNumber).map fun n => (c, n)) ∧
      ∀ name ∉ cs.map Comparison.name, Value.field? name rest = Value.field? name parts := by
  induction cs generalizing parts rest bounds with
  | nil =>
    cases h
    exact ⟨rfl, fun _ _ => rfl⟩
  | cons c cs ih =>
    obtain ⟨hc, hcs⟩ := List.nodup_cons.1 hcs
    unfold popBounds at h
    split at h
    · next hpop =>
      obtain ⟨hbounds, hrest⟩ := ih hcs h
      have hnone : Value.field? c.name parts = none := congrArg Prod.fst hpop
      refine ⟨?_, fun name hname => hrest name fun hmem => hname (List.mem_cons_of_mem _ hmem)⟩
      rw [List.filterMap_cons, hnone]
      exact hbounds
    · next v rest' hpop =>
      have hsome : Value.field? c.name parts = some v := congrArg Prod.fst hpop
      obtain rfl : Value.removeKey c.name parts = rest' := congrArg Prod.snd hpop
      split at h
      · obtain ⟨s, -, h⟩ := bind_eq_ok.1 h
        cases h
      · next n hn =>
        obtain ⟨⟨bounds', rest''⟩, h', h⟩ := bind_eq_ok.1 h
        cases h
        obtain ⟨hbounds, hrest⟩ := ih hcs h'
        constructor
        · rw [List.filterMap_cons, hsome, Option.bind_some, hn, Option.map_some, hbounds]
          refine congrArg (List.cons _) (List.filterMap_congr fun d hd => ?_)
          have hne : d.name ≠ c.name := fun he => hc (he ▸ List.mem_map_of_mem hd)
          rw [Value.field?_removeKey hne]
        · intro name hname
          rw [List.map_cons, List.mem_cons, not_or] at hname
          rw [hrest name hname.2, Value.field?_removeKey hname.1]

namespace Numericality

/-- a rule that is built from an option keeps what it declares -/
theorem keeps_of_build {config : Value} {r : Numericality} (h : buildNumericality config = .ok (.numericality r)) :
    Keeps config r := by
  rw [buildNumericality_eq] at h
  obtain ⟨parts, hparts, h⟩ := bind_eq_ok.1 h
  have hfield (name : String) : Value.field? name parts = declared config name := by
    unfold numericalityParts optionParts at hparts
    split at hparts
    · cases hparts
      rfl
    · split at hparts
      · next es hes =>
        cases hparts
        rw [declared, hes, Option.bind_some]
      · next hshort => cases hshort
      · obtain ⟨s, -, hparts⟩ := bind_eq_ok.1 hparts
        cases hparts
  obtain ⟨⟨message, rest⟩, hmessage, h⟩ := bind_eq_ok.1 h
  obtain ⟨⟨bounds, rest'⟩, hbounds, h⟩ := bind_eq_ok.1 h
  obtain ⟨-, -, h⟩ := bind_eq_ok.1 h
  cases h
  obtain ⟨hm, rfl⟩ := of_popMessage hmessage
  obtain ⟨hb, hrest⟩ := popped_of_popBounds (by decide) hbounds
  have hleft {name : String} (hne : name ≠ "message") : Value.field? name (Value.removeKey "message" parts) =
      declared config name := by
    rw [Value.field?_removeKey hne, hfield]
  have hflag {name : String} (hne : name ≠ "message") (hbound : name ∉ Comparison.all.map Comparison.name) :
      Value.field? name rest' = declared config name := by
    rw [hrest name hbound, hleft hne]
  have hset (v : Option Value) : (v.map Value.truthy).getD false = v.any Value.truthy := by cases v <;> rfl
  constructor
  · rw [hm, hfield]
  · rw [hb]
    refine List.filterMap_congr fun c _ => ?_
    rw [hleft (by cases c <;> decide)]
  · simp only [hset]
    rw [hflag (by decide) (by decide)]
    rfl
  · simp only [hset]
    rw [Value.field?_removeKey (by decide), hflag (by decide) (by decide)]
    rfl
  · simp only [hset]
    rw [Value.field?_removeKey (by decide), Value.field?_removeKey (by decide), hflag (by decide) (by decide)]
    rfl

/-! ## The verdict -/

/-- the text of a number in a message; one that is declared as text is shown as the decimal that it denotes -/
def numberText (v : Value) : String := ((asNumber v).bind fun n => n.plain.toOption).getD ""

/-- the message of a declared bound, if the number does not stand in its relation to it -/
def complaint (config : Value) (bound : Comparison → ℚ) (q : ℚ) (c : Comparison) : List Value :=
  match declared config c.name with
  | none => []
  | some v => if c.Relates q (bound c) then [] else [.text ("must be " ++ c.words ++ " " ++ numberText v)]

/-- the messages that a number draws, by its exact value and those of the declared bounds -/
def verdict (config : Value) (bound : Comparison → ℚ) (q : ℚ) : List Value :=
  if isSet config "only_integer" ∧ ¬Whole q then [.text "must be an integer"]
  else
    Comparison.all.flatMap (complaint config bound q) ++
      (if isSet config "odd" ∧ ¬OddWhole q then [.text "must be odd"] else []) ++
      (if isSet config "even" ∧ ¬EvenWhole q then [.text "must be even"] else [])

def Bounded (config : Value) (bound : Comparison → ℚ) : Prop := ∀ c v, declared config c.name = some v → v.Exact (bound c)

theorem messageIf_silent {message : Option Value} (h : ownMessage message = none) (broken : Bool) (s : String) :
    messageIf broken message (.ok s) = .ok (if broken then [.text s] else []) := by
  cases broken with
  | false => rfl
  | true =>
    rw [messageIf, if_pos rfl, messageOr, h]
    rfl

theorem boundText_of_kept {n : Value} {q : ℚ} (h : n.Kept q) : ∃ s, boundText n = .ok s ∧ n.plain = .ok s := by
  cases h with
  | @int m short =>
    have hplain : (Value.int m).plain = .ok (String.ofList (intText m)) := by
      have hshort : digitCount m.natAbs ≤ maxDigits := short
      rw [Value.plain, ← Value.written_some (Value.calls_int_lt m)]
      simp [Value.plain?, Value.shown?, intText?, hshort]
    exact ⟨_, hplain, hplain⟩
  | decimal h => exact ⟨_, rfl, rfl⟩

theorem checkBound_eq {r : Numericality} (hr : ownMessage r.message = none) {n b v : Value} {p q : ℚ} (hn : n.Kept q)
    (hb : b.Kept p) (hv : asNumber v = some b) (c : Comparison) :
    r.checkBound n (c, b) =
      .ok (if c.Relates q p then [] else [.text ("must be " ++ c.words ++ " " ++ numberText v)]) := by
  obtain ⟨o, ho, hcompares⟩ := hn.compare hb
  obtain ⟨s, hs, hplain⟩ := boundText_of_kept hb
  have htext : numberText v = s := by
    rw [numberText, hv, Option.bind_some, hplain]
    rfl
  have hholds := c.holds_iff hcompares
  simp only [checkBound, ho, ok_bind, hs, htext]
  rw [messageIf_silent hr]
  by_cases hrel : c.Relates q p
  · rw [hholds.2 hrel, if_pos hrel]
    rfl
  · rw [Bool.eq_false_iff.2 fun hc => hrel (hholds.1 hc), if_neg hrel]
    rfl

/-- the bounds that a rule keeps draw the complaints of all comparisons -/
theorem checkBounds_eq {config : Value} {bound : Comparison → ℚ} (hbound : Bounded config bound) {r : Numericality}
    (hr : ownMessage r.message = none) {n : Value} {q : ℚ} (hn : n.Kept q) (cs : List Comparison) :
    ∃ mss, (cs.filterMap fun c => ((declared config c.name).bind asNumber).map fun b => (c, b)).mapM
    (r.checkBound n) = .ok mss ∧
      mss.flatten = cs.flatMap (complaint config bound q) := by
  induction cs with
  | nil => exact ⟨[], rfl, rfl⟩
  | cons c cs ih =>
    obtain ⟨mss, hmss, hflat⟩ := ih
    rw [List.flatMap_cons, List.filterMap_cons, complaint]
    cases hc : declared config c.name with
    | none => exact ⟨mss, hmss, hflat⟩
    | some v =>
      obtain ⟨b, hb, hkept⟩ := (hbound c v hc).asNumber
      simp only [Option.bind_some, hb, Option.map_some, List.mapM_cons, checkBound_eq hr hn hkept hb, hmss, ok_bind]
      exact ⟨_, rfl, by rw [List.flatten_cons, hflat]⟩

/-- a rule answers to a number with the verdict on what its option declares -/
theorem run_eq_verdict {config : Value} {r : Numericality} (hk : Keeps config r) (hr : ownMessage r.message = none)
    {bound : Comparison → ℚ} (hbound : Bounded config bound) {v : Value} {q : ℚ} (hv : v.Exact q) :
    r.run v = .ok (verdict config bound q) := by
  obtain ⟨n, hn, hkept⟩ := hv.asNumber
  obtain ⟨mss, hmss, hflat⟩ := checkBounds_eq hbound hr hkept Comparison.all
  rw [← hk.bounds] at hmss
  have hbroken {asked found : Bool} {P : Prop} (hfound : found = true ↔ P) :
      (asked && !found) = true ↔ asked = true ∧ ¬P := by
    rw [Bool.and_eq_true, Bool.not_eq_true', ← Bool.not_eq_true, hfound]
  simp only [run, hn, hmss, messageIf_silent hr, ok_bind, hk.onlyInteger, hk.odd, hk.even, verdict, hflat,
    hbroken (isWhole_iff hkept), hbroken (isOdd_iff hkept), hbroken (isEven_iff hkept), if_true]
  split <;> rfl

theorem run_of_noNumber {r : Numericality} (hr : ownMessage r.message = none) {v : Value} (hv : v.NoNumber) :
    r.run v = .ok [.text "is not a number"] := by
  rw [run, hv.asNumber]
  exact messageIf_silent hr true _

/-- **A rule about numbers decides exact arithmetic.** It is built from an option for numbers. If this declares no message
of its own, the rule answers to every number with the verdict on the exact values, and to everything else that it is no
number -/
theorem decides_exactly {options : List (Value × Value)} {rules : List Rule} (h : buildRules options = .ok rules)
    {r : Numericality} (hmem : .numericality r ∈ rules) :
    ∃ o ∈ options, o.1.text? = some "numericality" ∧
      (ownMessage (declared o.2 "message") = none →
        (∀ bound, Bounded o.2 bound → ∀ v q, v.Exact q → (Rule.numericality r).run v = .ok (verdict o.2 bound q)) ∧
        ∀ v : Value, v.NoNumber → (Rule.numericality r).run v = .ok [.text "is not a number"]) := by
  obtain ⟨all, hall, h⟩ := bind_eq_ok.1 h
  cases h
  obtain ⟨rs, hrs, hmem⟩ := List.mem_flatten.1 hmem
  obtain ⟨o, ho, hbuilt⟩ := exists_of_mem_right (mapM_eq_ok.1 hall) hrs
  obtain ⟨option, hkey, hof, -⟩ := built_of_buildOption hbuilt
  obtain rfl : "numericality" = option := (hof _ hmem).2
  have hkeeps : Keeps o.2 r := by
    simp only [buildOption, hkey] at hbuilt
    obtain ⟨r', hr', hbuilt⟩ := bind_eq_ok.1 hbuilt
    cases hbuilt
    rw [← List.mem_singleton.1 hmem] at hr'
    exact keeps_of_build hr'
  refine ⟨o, (List.mem_filter.1 ho).1, hkey, fun hsilent => ?_⟩
  have hr : ownMessage r.message = none := by
    rw [hkeeps.message]
    cases hm : declared o.2 "message" with
    | none => rfl
    | some m =>
      rw [hm] at hsilent
      cases m <;> first | rfl | exact hsilent
  exact ⟨fun bound hbound v q hv => run_eq_verdict hkeeps hr hbound hv, fun v hv => run_of_noNumber hr hv⟩

/-- an odd number above a bound that is given as text -/
def oddAbove : Value := .ofFields [("greater_than", .text "1.50"), ("odd", .bool true)]

def oddAboveRule : Numericality := ⟨[(.greaterThan, .decimal (.finite false 150 (-2)))], false, true, false, none⟩

theorem declared_oddAbove (name : String) :
    declared oddAbove name = List.lookup name [("greater_than", .text "1.50"), ("odd", .bool true)] := by
  rw [declared, oddAbove, Value.ofFields_eq, Value.hash?, Option.bind_some, Value.field?_entries]

theorem verdict_oddAbove (bound : Comparison → ℚ) (q : ℚ) : verdict oddAbove bound q =
    (if q > bound .greaterThan then [] else [.text ("must be greater than " ++ numberText (.text "1.50"))]) ++
      if OddWhole q then [] else [.text "must be odd"] := by
  simp [verdict, isSet, declared_oddAbove, List.lookup_cons, Comparison.all, Comparison.name, Comparison.words, complaint,
    Value.truthy, Comparison.Relates]

theorem oddAbove_decides_exactly :
    buildRules [(.text "numericality", oddAbove)] = .ok [.numericality oddAboveRule] ∧
      (Rule.numericality oddAboveRule).run (.decimal (.finite false 4 1)) = .ok [.text "must be odd"] ∧
      (Rule.numericality oddAboveRule).run (.int 1) = .ok [.text "must be greater than 1.50"] ∧
      (Rule.numericality oddAboveRule).run (.bool true) = .ok [.text "is not a number"] := by
  have htext : (Decimal.finite false 150 (-2)).text = "1.50".toList := by decide
  have hread : Decimal.ofText? "1.50".toList = some (.finite false 150 (-2)) := htext ▸ Decimal.ofText?_text (by decide)
  have hnumber : asNumber (.text "1.50") = some (.decimal (.finite false 150 (-2))) := by simp only [asNumber, hread]; rfl
  have hbuilt : buildRules [(.text "numericality", oddAbove)] = .ok [.numericality oddAboveRule] := by
    have hfields : List.Forall₂ BoundField oddAboveRule.bounds [("greater_than", .text "1.50")] :=
      .cons ⟨rfl, hnumber⟩ .nil
    have hoption :
      buildOption (.text (Rule.numericality oddAboveRule).option) oddAbove = .ok [.numericality oddAboveRule] :=
      buildOption_fields (by decide) hfields worded_none
    exact Rule.buildRules_singleton rfl hoption
  obtain ⟨o, ho, -, hdecides⟩ := decides_exactly hbuilt List.mem_cons_self
  cases List.mem_singleton.1 ho
  obtain ⟨hverdict, hnone⟩ := hdecides (by rw [declared_oddAbove]; rfl)
  have hbound : Bounded oddAbove fun _ => 3 / 2 := by
    intro c v hv
    rw [declared_oddAbove] at hv
    cases c with
    | greaterThan =>
      cases hv
      refine .text (Decimal.ofText?_finite_iff.1 ⟨hread, rfl⟩) ?_
      norm_num [Decimal.value?, Decimal.fraction_positive]
    | _ => cases hv
  have hforty : (Value.decimal (.finite false 4 1)).Exact 40 := by
    refine .decimal ?_
    norm_num [Decimal.value?, Decimal.fraction_positive]
  have hshown : numberText (.text "1.50") = "1.50" := by
    rw [numberText, hnumber, Option.bind_some]
    exact congrArg String.ofList htext
  refine ⟨hbuilt, ?_, ?_, hnone _ (.bool true)⟩
  · rw [hverdict _ hbound _ _ hforty, verdict_oddAbove, if_pos (by norm_num), if_neg (by decide)]
    rfl
  · rw [hverdict _ hbound _ _ (.int (by decide)), verdict_oddAbove, hshown, if_neg (by norm_num), if_pos (by decide)]
    rfl

end Numericality

end Intake
