/-
Rules are built again from their descriptions.

A built rule describes itself as an option with a configuration. Each part of the configuration is read back as it
was written: the message, the bounds and the flags come out of the parts one by one. So the option gives one rule, which
describes itself alike and answers alike (`Rule.RebuiltAs`, `rebuilt_as_described`). It is the same rule but
for the values of a range, which are then listed one by one; the list has exactly the numbers of the range
(`Membership.among_range`).

Two kinds of rules stand apart. A range with more elements than can be counted has no description, and a schema without a
message is read otherwise if it looks like the wrapping of a schema (`Rule.looksWrapped`, `wrapping_read_as_schema`).
-/
import Mathlib.Data.List.Permutation
import Intake.Rule.Run
import Intake.Proofs.DecimalOrder
import Intake.Proofs.RuleBuilding

namespace Intake

open Intake.Number Intake.Outcome

theorem Rule.described_of_listable {rule : Rule} (h : rule.listable = true) : rule.described = .ok rule.describe :=
  if_pos h

/-! ## Messages -/

def messageField (message : Option Value) : Fields :=
  match message with
  | none => []
  | some m => [("message", m)]

theorem withMessage_eq (parts : Fields) (message : Option Value) :
    withMessage parts message = Value.ofFields (parts ++ messageField message) := by
  cases message with
  | none => simp [withMessage, messageField]
  | some m => rfl

theorem withMessageOrTrue_eq (parts : Fields) (message : Option Value) :
    withMessageOrTrue parts message =
      if parts = [] ∧ message = none then .bool true else .ofFields (parts ++ messageField message) := by
  cases parts <;> cases message <;> simp [withMessageOrTrue, withMessage_eq]

theorem isOff_withMessage (parts : Fields) (message : Option Value) : isOff (withMessage parts message) = false := by
  rw [withMessage_eq]
  rfl

theorem names_messageField (message : Option Value) : ∀ name ∈ (messageField message).names, name = "message" := by
  cases message <;> simp [messageField]

theorem popMessage_fields {fs : Fields} {message : Option Value} (hm : Worded message)
    (h : "message" ∉ fs.names) (option : String) :
    popMessage option (fs ++ messageField message).entries = .ok (message, fs.entries) := by
  cases message with
  | none =>
    rw [messageField, List.append_nil]
    simp only [popMessage, Parts.pop_of_absent h, Parts.given]
  | some m =>
    have hpop : Parts.pop "message" (Fields.entries (fs ++ messageField (some m))) = (some m, fs.entries) := by
      rw [Parts.pop_entries, Fields.lookup_append_right h, Fields.without_append, Fields.without_eq_self h, messageField,
        List.lookup_cons_self, Fields.without_cons_self, Fields.without_nil, List.append_nil]
    obtain ⟨s, hs⟩ := Option.isSome_iff_exists.1 (hm m rfl)
    rcases text?_eq_some hs with rfl | rfl
    · simp only [popMessage, hpop, Parts.given]
      rfl
    · simp only [popMessage, hpop, Parts.given]
      rfl

theorem popMessage_one {name : String} (hname : name ≠ "message") (v : Value) {message : Option Value}
    (hm : Worded message) (option : String) :
    popMessage option (Fields.entries ((name, v) :: messageField message)) = .ok (message, Fields.entries [(name, v)]) :=
  popMessage_fields hm (show "message" ∉ Fields.names [(name, v)] by simpa using hname.symm) option

/-! ## Numbers -/

theorem Comparison.name_inj {c d : Comparison} (h : c.name = d.name) : c = d := by
  revert h
  cases c <;> cases d <;> decide

/-- a bound, and the field that it is written as -/
def BoundField (b : Comparison × Value) (f : String × Value) : Prop := f.1 = b.1.name ∧ asNumber f.2 = some b.2

theorem names_of_boundFields {bounds : List (Comparison × Value)} {fs : Fields} (h : List.Forall₂ BoundField bounds fs) :
    fs.names = (bounds.map (·.1)).map Comparison.name := by
  induction h with
  | nil => rfl
  | cons hbf _ ih => exact congrArg₂ List.cons hbf.1 ih

theorem popBounds_fields {cs : List Comparison} (hcs : cs.Nodup) {bounds : List (Comparison × Value)} {fs rest : Fields}
    (h : List.Forall₂ BoundField bounds fs) (hs : (bounds.map (·.1)).Sublist cs)
    (hrest : ∀ c ∈ cs, c.name ∉ rest.names) :
    popBounds cs (fs ++ rest).entries = .ok (bounds, rest.entries) := by
  have absent : ∀ {c : Comparison} {bs : List (Comparison × Value)} {gs : Fields}, List.Forall₂ BoundField bs gs →
      c ∉ bs.map (·.1) → c.name ∉ rest.names → c.name ∉ (gs ++ rest).names := by
    intro c bs gs hbg hc hr hmem
    rw [Fields.names_append, List.mem_append, names_of_boundFields hbg] at hmem
    rcases hmem with hmem | hmem
    · obtain ⟨d, hd, he⟩ := List.mem_map.1 hmem
      exact hc (Comparison.name_inj he ▸ hd)
    · exact hr hmem
  induction cs generalizing bounds fs with
  | nil =>
    rw [List.sublist_nil, List.map_eq_nil_iff] at hs
    subst hs
    cases h
    rfl
  | cons c cs ih =>
    have hnc := List.nodup_cons.1 hcs
    have hr : ∀ d ∈ cs, d.name ∉ rest.names := fun d hd => hrest d (List.mem_cons_of_mem c hd)
    have hc := hrest c List.mem_cons_self
    unfold popBounds
    by_cases hmem : c ∈ bounds.map (·.1)
    · -- the bound is the first, since the bounds come in the order of the comparisons
      obtain ⟨⟨d, n⟩, bounds, rfl⟩ : ∃ b bs, bounds = b :: bs := List.exists_cons_of_ne_nil fun hb => by simp [hb] at hmem
      obtain ⟨rfl, hs'⟩ : d = c ∧ (bounds.map (·.1)).Sublist cs := by
        rcases List.sublist_cons_iff.1 hs with hs | ⟨r, hr, hs⟩
        · exact absurd (hs.subset hmem) hnc.1
        · obtain ⟨rfl, rfl⟩ := List.cons.inj hr
          exact ⟨rfl, hs⟩
      cases h with
      | @cons _ f _ gs hbf htail =>
        obtain ⟨k, v⟩ := f
        obtain ⟨rfl, hv⟩ := hbf
        have hpop := Parts.pop_first (absent htail (fun hm => hnc.1 (hs'.subset hm)) hc) v
        rw [List.cons_append, hpop]
        simp only at hv
        simp only [hv, ih hnc.2 htail hs' hr, ok_bind]
    · have hs' : (bounds.map (·.1)).Sublist cs := by
        rcases List.sublist_cons_iff.1 hs with hs | ⟨r, hr, -⟩
        · exact hs
        · exact absurd (hr ▸ List.mem_cons_self) hmem
      rw [Parts.pop_of_absent (absent h hmem hc)]
      exact ih hnc.2 h hs' hr

theorem popFlag_fields {name : String} {rest : Fields} (h : name ∉ rest.names) (isSet : Bool) :
    popFlag name (Fields.entries (flagPart name isSet ++ rest)) = (isSet, rest.entries) := by
  cases isSet with
  | false =>
    rw [show flagPart name false = [] from rfl, List.nil_append]
    simp only [popFlag, Parts.pop_of_absent h]
    rfl
  | true =>
    rw [show flagPart name true = [(name, .bool true)] from rfl, List.singleton_append]
    simp only [popFlag, Parts.pop_first h]
    rfl

namespace Numericality

/-- the flags of a rule about numbers, those that are set -/
def flags (r : Numericality) : Fields :=
  flagPart "only_integer" r.onlyInteger ++ (flagPart "odd" r.odd ++ flagPart "even" r.even)

theorem names_flagPart (name : String) (isSet : Bool) : (Fields.names (flagPart name isSet)).Sublist [name] := by
  cases isSet <;> simp [flagPart]

theorem names_flags (r : Numericality) : r.flags.names.Sublist ["only_integer", "odd", "even"] := by
  simp only [flags, Fields.names_append]
  exact (names_flagPart _ _).append ((names_flagPart _ _).append (names_flagPart _ _))

theorem names_nodup {r : Numericality} (hs : (r.bounds.map (·.1)).Sublist Comparison.all) {fs : Fields}
    (hf : fs.names = (r.bounds.map (·.1)).map Comparison.name) :
    (fs ++ r.flags ++ messageField r.message).names.Nodup := by
  have hmessage : (messageField r.message).names.Sublist ["message"] := by
    cases r.message <;> simp [messageField]
  have hall : (Comparison.all.map Comparison.name ++ ["only_integer", "odd", "even"] ++ ["message"]).Nodup := by decide
  refine hall.sublist ?_
  simp only [Fields.names_append, hf]
  exact ((hs.map _).append r.names_flags).append hmessage

/-- a rule about numbers is built from the parts that it is written with -/
theorem numericalityOf_fields {r : Numericality} (hs : (r.bounds.map (·.1)).Sublist Comparison.all) {fs : Fields}
    (hf : List.Forall₂ BoundField r.bounds fs) (hm : Worded r.message) :
    numericalityOf (fs ++ r.flags ++ messageField r.message).entries = .ok (.numericality r) := by
  have hnames := names_of_boundFields hf
  have hnodup := names_nodup hs hnames
  rw [Fields.names_append, List.nodup_append] at hnodup
  have hmsg : "message" ∉ (fs ++ r.flags).names := by
    intro hmem
    rw [Fields.names_append, List.mem_append, hnames] at hmem
    rcases hmem with hmem | hmem
    · obtain ⟨c, -, hc⟩ := List.mem_map.1 hmem
      revert hc
      cases c <;> decide
    · exact absurd (r.names_flags.subset hmem) (by decide)
  have hrest : ∀ c ∈ Comparison.all, c.name ∉ r.flags.names := by
    intro c _ hmem
    have := r.names_flags.subset hmem
    revert this
    cases c <;> decide
  have hbounds := popBounds_fields (by decide) hf hs hrest
  have hodd : "only_integer" ∉ Fields.names (flagPart "odd" r.odd ++ flagPart "even" r.even) := by
    intro hmem
    rw [Fields.names_append] at hmem
    exact absurd (((names_flagPart "odd" r.odd).append (names_flagPart "even" r.even)).subset hmem) (by decide)
  have heven : "odd" ∉ Fields.names (flagPart "even" r.even) :=
    fun hmem => absurd ((names_flagPart "even" r.even).subset hmem) (by decide)
  have hlast := popFlag_fields (show "even" ∉ Fields.names [] by simp) r.even
  rw [List.append_nil] at hlast
  simp only [numericalityOf, popMessage_fields hm hmsg, ok_bind, hbounds]
  simp only [flags, popFlag_fields hodd, popFlag_fields heven, hlast]
  rfl

/-- the option of a rule about numbers, which is `true` if there is nothing to write but that there is one -/
theorem described_eq (r : Numericality) : (Rule.numericality r).described = .ok (some ("numericality",
    withMessageOrTrue (r.bounds.map (fun b => (b.1.name, b.2)) ++ r.flags) r.message)) := by
  rw [Rule.described_of_listable rfl]
  simp only [Rule.describe, flags, List.append_assoc]

/-- a rule about numbers is built from the option that it is written as -/
theorem buildOption_fields {r : Numericality} (hs : (r.bounds.map (·.1)).Sublist Comparison.all) {fs : Fields}
    (hf : List.Forall₂ BoundField r.bounds fs) (hm : Worded r.message) :
    buildOption (.text "numericality") (withMessageOrTrue (fs ++ r.flags) r.message) = .ok [.numericality r] := by
  have hbuilds := numericalityOf_fields hs hf hm
  show (buildNumericality _ >>= fun x => .ok [x]) = _
  rw [buildNumericality_eq, withMessageOrTrue_eq]
  split
  · next h0 =>
    rw [h0.1, h0.2] at hbuilds
    exact congrArg (· >>= fun x => Except.ok [x]) hbuilds
  · exact congrArg (· >>= fun x => Except.ok [x]) hbuilds

end Numericality

/-! ## Lengths -/

theorem pop_boundPart {name : String} {rest : Fields} (h : name ∉ rest.names) (bound : Option Int) :
    Parts.pop name (Fields.entries (boundPart name bound ++ rest)) = (bound.map .int, rest.entries) := by
  cases bound with
  | none => exact Parts.pop_of_absent h
  | some n => exact Parts.pop_first h (.int n)

theorem names_boundPart (name : String) (bound : Option Int) : (Fields.names (boundPart name bound)).Sublist [name] := by
  cases bound <;> simp [boundPart]

theorem lengthBound_int {name : String} {bound : Option Int} (h : ∀ n, bound = some n → 0 ≤ n) :
    lengthBound name (Parts.given (bound.map .int)) = .ok bound := by
  cases bound with
  | none => rfl
  | some n => exact if_neg (by have := h n rfl; omega)

theorem lengthLimits_of_ends (minimum maximum : Option Value) :
    lengthLimits minimum maximum none = .ok (Parts.given minimum, Parts.given maximum) := rfl

namespace LengthBounds

/-- the bounds of a rule about length, those that are declared -/
def bounds (r : LengthBounds) : Fields :=
  boundPart "minimum" r.minimum ++ (boundPart "maximum" r.maximum ++ boundPart "is" r.exactly)

theorem names_bounds (r : LengthBounds) : r.bounds.names.Sublist ["minimum", "maximum", "is"] := by
  simp only [bounds, Fields.names_append]
  exact (names_boundPart _ _).append ((names_boundPart _ _).append (names_boundPart _ _))

theorem described_eq (r : LengthBounds) :
    (Rule.length r).described = .ok (some ("length", .ofFields (r.bounds ++ messageField r.message))) := by
  rw [Rule.described_of_listable rfl]
  simp only [Rule.describe, withMessage_eq, bounds, List.append_assoc]

/-- a rule about length is built from the option that it is written as -/
theorem buildOption_fields {r : LengthBounds} (hmin : ∀ n, r.minimum = some n → 0 ≤ n)
    (hmax : ∀ n, r.maximum = some n → 0 ≤ n) (his : ∀ n, r.exactly = some n → 0 ≤ n) (hm : Worded r.message) :
    buildOption (.text "length") (.ofFields (r.bounds ++ messageField r.message)) = .ok [.length r] := by
  have hmsg : "message" ∉ r.bounds.names := fun h => absurd (r.names_bounds.subset h) (by decide)
  have hmaximum : "minimum" ∉ Fields.names (boundPart "maximum" r.maximum ++ boundPart "is" r.exactly) := by
    intro h
    rw [Fields.names_append] at h
    exact absurd (((names_boundPart _ _).append (names_boundPart _ _)).subset h) (by decide)
  have hexact : "maximum" ∉ Fields.names (boundPart "is" r.exactly) :=
    fun h => absurd ((names_boundPart _ _).subset h) (by decide)
  have hlast := pop_boundPart (show "is" ∉ Fields.names [] by simp) r.exactly
  rw [List.append_nil] at hlast
  have hbuilds : lengthOf (r.bounds ++ messageField r.message).entries = .ok (.length r) := by
    simp only [lengthOf, popMessage_fields hm hmsg, ok_bind]
    simp only [bounds, pop_boundPart hmaximum, pop_boundPart hexact, hlast,
      Parts.pop_of_absent (show _ ∉ Fields.names [] by simp),
      Option.or_none, lengthLimits_of_ends, ok_bind, lengthBound_int hmin, lengthBound_int hmax, lengthBound_int his]
    rfl
  show (buildLength _ >>= fun x => .ok [x]) = _
  rw [buildLength_eq]
  exact congrArg (· >>= fun x => Except.ok [x]) hbuilds

end LengthBounds

/-! ## Formats, memberships and presence -/

/-- a rule about the text of a value is built from the option that it is written as -/
theorem Format.buildOption_fields {r : Format} (hc : compileFormat r.source r.negated r.message = .ok r)
    (hm : Worded r.message) :
    buildOption (.text "format") (withMessage [(if r.negated then "without" else "with", r.source)] r.message) =
      .ok [.format r] := by
  have hname : (if r.negated then "without" else "with") ≠ "message" := by split <;> decide
  have hbuilds :
    formatOf (Fields.entries ((if r.negated then "without" else "with", r.source) :: messageField r.message)) =
      .ok (.format r) := by
    simp only [formatOf, popMessage_one hname r.source hm, ok_bind]
    cases hn : r.negated with
    | false =>
      rw [hn] at hc
      have hpop := Parts.pop_first (show "with" ∉ Fields.names [] by simp) r.source
      simp only [Bool.false_eq_true, if_false, hpop, Parts.pop_of_absent (show "without" ∉ Fields.names [] by simp),
        chosenFormat, hc, ok_bind]
      rfl
    | true =>
      rw [hn] at hc
      have hpop := Parts.pop_first (show "without" ∉ Fields.names [] by simp) r.source
      have habsent := Parts.pop_of_absent (show "with" ∉ Fields.names [("without", r.source)] by simp)
      simp only [if_true, habsent, hpop, chosenFormat, hc, ok_bind]
      rfl
  show (buildFormat _ >>= fun x => .ok [x]) = _
  rw [buildFormat_eq, withMessage_eq]
  exact congrArg (· >>= fun x => Except.ok [x]) hbuilds

/-- a list of values and a message make a membership rule -/
theorem buildMembership_listed (option : String) (xs : List Value) {message : Option Value} (hm : Worded message) :
    buildMembership option (withMessage [("in", .list xs)] message) = .ok ⟨.tuple xs, message⟩ := by
  have hwithin := Parts.pop_of_absent (show "within" ∉ Fields.names [("in", Value.list xs)] by simp)
  have hin := Parts.pop_first (show "in" ∉ Fields.names [] by simp) (.list xs)
  have hparts : optionParts option (.ofFields (("in", .list xs) :: messageField message)) (some "in") =
      .ok (Fields.entries (("in", .list xs) :: messageField message)) := rfl
  rw [withMessage_eq, List.singleton_append]
  simp only [buildMembership, hparts, popMessage_one (show "in" ≠ "message" by decide) (.list xs) hm, ok_bind,
    hwithin, hin]
  rfl

theorem presenceMessage_fields {message : Option Value} (hm : message ≠ some .null) :
    presenceMessage (withMessageOrTrue [] message) = message := by
  cases message with
  | none => rfl
  | some m =>
    have hfield : (Value.hash? (.ofFields [("message", m)])).bind (Value.field? "message") = some m := by
      simp only [Value.ofFields_eq, Value.hash?, Option.bind_some, Value.field?_entries, List.lookup_cons_self]
    show Parts.given ((Value.hash? (.ofFields [("message", m)])).bind (Value.field? "message")) = some m
    rw [hfield]
    cases m <;> first | rfl | exact absurd rfl hm

/-- nothing is never the message of a built presence rule -/
theorem presence_given {options : List (Value × Value)} {rules : List Rule} (h : buildRules options = .ok rules)
    {message : Option Value} (hmem : .presence message ∈ rules) : message ≠ some .null := by
  obtain ⟨o, -, rs, ho, hmem⟩ := option_of_mem_rules h hmem
  obtain ⟨option, hkey, hbuilt, -⟩ := built_of_buildOption ho
  obtain rfl : "presence" = option := (hbuilt _ hmem).2
  simp only [buildOption, hkey, Except.ok.injEq] at ho
  subst ho
  cases List.mem_singleton.1 hmem
  unfold presenceMessage Parts.given
  split
  · exact fun h => nomatch h
  · assumption

/-! ## Schemas -/

/-- a schema written alone is read as a schema, unless it looks like the wrapping of one -/
theorem buildSchema_alone {es : List (Value × Value)} (hw : wrapsSchema es = false)
    (hs : JsonSchema.isSchema (.map false es) = true) :
    buildSchema (.map false es) = .ok (.jsonSchema ⟨.map false es, none⟩) := by
  simp only [buildSchema, Value.hash?, hw, Bool.false_eq_true, if_false, schemaRule, hs, if_true]

/-- a schema in its wrapping, with a message or without one -/
theorem buildSchema_wrapped {schema : Value} {message : Option Value} (hm : Worded message) (hh : schema.hash?.isSome)
    (hs : JsonSchema.isSchema schema = true) :
    buildSchema (.ofFields (("schema", schema) :: messageField message)) = .ok (.jsonSchema ⟨schema, message⟩) := by
  have hpop : popMessage "json_schema" (Fields.entries (("schema", schema) :: messageField message)) =
      .ok (message, Fields.entries [("schema", schema)]) :=
    popMessage_one (show "schema" ≠ "message" by decide) schema hm "json_schema"
  have hwraps : wrapsSchema (Fields.entries (("schema", schema) :: messageField message)) = true := by
    rw [wrapsSchema, Value.field?_entries, List.lookup_cons_self]
    cases message <;> simp [messageField]
  have hfield : Value.field? "schema" (Fields.entries [("schema", schema)]) = some schema := by
    rw [Value.field?_entries, List.lookup_cons_self]
  have hhash : (Value.ofFields (("schema", schema) :: messageField message)).hash? =
      some (Fields.entries (("schema", schema) :: messageField message)) := rfl
  simp only [buildSchema, hhash, hwraps, if_true, hpop, ok_bind, hfield, Option.getD_some, hh, schemaRule, hs]

/-! ## Ranges -/

namespace Value

/-- the numbers of a range lie between its ends, some steps from the start -/
theorem exists_step_iff {a b s k : Int} :
    (∃ i : Nat, i < rangeSize a b s ∧ k = a + i * s) ↔
      (if 0 < s then a ≤ k ∧ k < b else b < k ∧ k ≤ a) ∧ (k - a) % s = 0 := by
  unfold rangeSize
  by_cases hs : 0 < s
  · simp only [if_pos hs]
    constructor
    · rintro ⟨i, hi, rfl⟩
      split at hi
      · next hab =>
        have hsteps : (i : Int) * s ≤ b - a - 1 := (Int.le_ediv_iff_mul_le hs).1 (by omega)
        have hnonneg : 0 ≤ (i : Int) * s := by positivity
        exact ⟨⟨by omega, by omega⟩, by simp⟩
      · exact absurd hi (Nat.not_lt_zero i)
    · rintro ⟨⟨hlow, hhigh⟩, hmod⟩
      obtain ⟨j, hj⟩ := Int.dvd_of_emod_eq_zero hmod
      have hj0 : 0 ≤ j := nonneg_of_mul_nonneg_right (by omega) hs
      have hsteps : j ≤ (b - a - 1) / s := (Int.le_ediv_iff_mul_le hs).2 (by rw [mul_comm]; omega)
      refine ⟨j.toNat, ?_, ?_⟩
      · rw [if_pos (by omega)]
        omega
      · rw [Int.toNat_of_nonneg hj0, mul_comm]
        omega
  · simp only [if_neg hs]
    rcases Int.lt_or_eq_of_le (Int.not_lt.1 hs) with hneg | rfl
    · have hpos : 0 < -s := by omega
      constructor
      · rintro ⟨i, hi, rfl⟩
        split at hi
        · next hab =>
          have hsteps : (i : Int) * -s ≤ a - b - 1 := (Int.le_ediv_iff_mul_le hpos).1 (by omega)
          have hnonneg : 0 ≤ (i : Int) * -s := by positivity
          rw [mul_neg] at hsteps hnonneg
          exact ⟨⟨by omega, by omega⟩, by simp⟩
        · exact absurd hi (Nat.not_lt_zero i)
      · rintro ⟨⟨hlow, hhigh⟩, hmod⟩
        obtain ⟨j, hj⟩ := Int.dvd_of_emod_eq_zero hmod
        have hj0 : 0 ≤ j := nonneg_of_mul_nonneg_right (by rw [neg_mul]; omega) hpos
        have hsteps : j ≤ (a - b - 1) / -s := (Int.le_ediv_iff_mul_le hpos).2 (by rw [mul_neg, mul_comm]; omega)
        refine ⟨j.toNat, ?_, ?_⟩
        · rw [if_pos (by omega)]
          omega
        · rw [Int.toNat_of_nonneg hj0, mul_comm]
          omega
    · -- no range has this step; it would have its start alone
      simp only [neg_zero, Int.ediv_zero, Int.emod_zero, mul_zero, add_zero]
      constructor
      · rintro ⟨i, hi, rfl⟩
        split at hi
        · exact ⟨⟨by omega, le_refl _⟩, by omega⟩
        · exact absurd hi (Nat.not_lt_zero i)
      · rintro ⟨⟨hlow, -⟩, hzero⟩
        exact ⟨0, by rw [if_pos (by omega)]; decide, by omega⟩

theorem same_int (v : Value) (n : Int) : v.same (.int n) = v.numeric?.any fun d => d.numEq (.ofInt n) := by
  have hint (m : Int) : (m == n) = (Decimal.ofInt m).numEq (.ofInt n) := by
    rw [Bool.eq_iff_iff, Decimal.numEq_ofInt_iff, Decimal.value?_ofInt]
    simp
  cases v with
  | int m => simp [same, sameNumber, numeric?, hint]
  | _ => simp [same, sameNumber, numeric?, text?]

/-- a value is in a range if it is the same as one of its numbers -/
theorem inRange_iff {a b s : Int} {v : Value} :
    v.inRange a b s = true ↔ ∃ i : Nat, i < rangeSize a b s ∧ v.same (.int (a + i * s)) = true := by
  simp only [same_int]
  unfold inRange
  cases v.numeric? with
  | none => simp
  | some d =>
    simp only [Option.any_some, Decimal.numEq_ofInt_iff]
    cases hd : d.value? with
    | none =>
      have : d.isWhole = false := by
        cases d with
        | finite s c e => cases hd
        | _ => rfl
      simp [this]
    | some q =>
      by_cases hq : ∃ k : Int, q = k
      · obtain ⟨k, rfl⟩ := hq
        obtain ⟨hwhole, hpart⟩ := Decimal.whole_part_iff.2 hd
        have hbelow (n : Int) : (d.compare? (.ofInt n) == some .lt) = decide (k < n) := by
          rw [Bool.eq_iff_iff, beq_iff_eq, (Decimal.compare?_ofInt hd n).1, decide_eq_true_eq, Int.cast_lt]
        have habove (n : Int) : (d.compare? (.ofInt n) == some .gt) = decide (n < k) := by
          rw [Bool.eq_iff_iff, beq_iff_eq, (Decimal.compare?_ofInt hd n).2.2, decide_eq_true_eq, Int.cast_lt]
        have hsteps : (∃ i : Nat, i < rangeSize a b s ∧ (some (k : ℚ) : Option ℚ) = some ((a + i * s : Int) : ℚ)) ↔
            ∃ i : Nat, i < rangeSize a b s ∧ k = a + i * s := by
          simp only [Option.some.injEq, Int.cast_inj]
        rw [hsteps, exists_step_iff]
        simp only [hbelow, habove, hwhole, hpart, Bool.and_true, Bool.and_eq_true, beq_iff_eq]
        split
        · simp
        · simp [and_comm]
      · have hwhole : d.isWhole = false := Bool.eq_false_iff.2 fun h => hq ((Decimal.isWhole_iff hd).1 h)
        simp only [hwhole, Bool.and_false, Bool.false_and, Bool.false_eq_true, false_iff]
        rintro ⟨i, -, hi⟩
        exact hq ⟨_, Option.some.inj hi⟩

end Value

namespace Membership

/-- where no comparison is a fault, a value is among others if it is the same as one of them -/
theorem among_eq_any {v : Value} {xs : List Value} (h : ∀ x ∈ xs, v.signalsWith x = false) :
    among v xs = .ok (xs.any v.same) := by
  induction xs with
  | nil => rfl
  | cons x xs ih =>
    obtain ⟨hx, hxs⟩ := List.forall_mem_cons.1 h
    rw [among, hx, Bool.false_and, if_neg Bool.false_ne_true, List.any_cons, ih hxs]
    cases v.same x <;> rfl

/-- a value is looked for among the numbers of a range as it is in the range itself -/
theorem among_range {a b s : Int} {message : Option Value} {v : Value} {found : Bool}
    (h : holds ⟨.range a b s, message⟩ v = .ok found) : among v (Value.rangeElements a b s) = .ok found := by
  have hmem : v.inRange a b s = (Value.rangeElements a b s).any v.same := by
    rw [Bool.eq_iff_iff, Value.inRange_iff, Value.rangeElements, List.any_map, List.any_eq_true]
    simp only [List.mem_range, Function.comp_apply]
  simp only [holds] at h
  split at h
  · cases h
  · next hquiet =>
    cases h
    rw [hmem]
    refine among_eq_any fun x hx => ?_
    obtain ⟨i, hi, rfl⟩ := List.mem_map.1 hx
    have hsize : Value.rangeSize a b s ≠ 0 := by
      have := List.mem_range.1 hi
      omega
    -- whether the comparison with a number is a fault does not depend on the number
    have hfirst : v.signalsWith (.int a) = false := by simpa [hsize] using hquiet
    exact hfirst

/-- a membership rule is built again from its values as a list -/
theorem rebuilt {r : Membership} (hv : Rule.IsCollection r.values) (hm : Worded r.message) :
    ∃ again : Membership, (∀ option, buildMembership option (withMessage [("in", r.listed)] r.message) = .ok again) ∧
      again.values.countable = true ∧ again.listed = r.listed ∧ again.message = r.message ∧
      ∀ v found, r.holds v = .ok found → again.holds v = .ok found := by
  obtain ⟨values, message⟩ := r
  rcases hv with ⟨a, b, s, rfl⟩ | ⟨xs, rfl⟩
  · exact ⟨⟨.tuple (Value.rangeElements a b s), message⟩, fun option => buildMembership_listed option _ hm, rfl, rfl, rfl,
      fun v found h => among_range h⟩
  · exact ⟨⟨.tuple xs, message⟩, fun option => buildMembership_listed option xs hm, rfl, rfl, rfl, fun v found h => h⟩

end Membership

/-! ## Rebuilding -/

namespace Rule

/-- a schema without a message that has the form of a schema in its wrapping -/
def looksWrapped : Rule → Bool
  | .jsonSchema r => r.message.isNone && r.schema.hash?.any wrapsSchema
  | _ => false

/-- a rule is described by this configuration of its option, and from that a rule is built that is described alike and
answers alike, wherever the first one answers -/
structure RebuiltAs (rule : Rule) (config : Value) (again : Rule) : Prop where
  described : rule.described = .ok (some (rule.option, config))
  builds : buildRules [(.text rule.option, config)] = .ok [again]
  alike : again.described = .ok (some (rule.option, config))
  answers : ∀ v ms, rule.run v = .ok ms → again.run v = .ok ms

variable {rule again : Rule} {config : Value}

theorem buildRules_singleton (hon : isOff config = false) (hb : buildOption (.text rule.option) config = .ok [rule]) :
    buildRules [(.text rule.option, config)] = .ok [rule] :=
  buildRules_cons hon hb (show buildRules (Fields.entries []) = .ok [] from rfl)

theorem RebuiltAs.self (hd : rule.described = .ok (some (rule.option, config))) (hon : isOff config = false)
    (hb : buildOption (.text rule.option) config = .ok [rule]) : rule.RebuiltAs config rule :=
  ⟨hd, buildRules_singleton hon hb, hd, fun _ _ h => h⟩

theorem isOff_withMessageOrTrue (parts : Fields) (message : Option Value) :
    isOff (withMessageOrTrue parts message) = false := by
  rw [withMessageOrTrue_eq]
  split <;> rfl

theorem rebuilt_numericality {r : Numericality} (hs : (r.bounds.map (·.1)).Sublist Comparison.all)
    (hn : ∀ b ∈ r.bounds, asNumber b.2 = some b.2) (hm : Worded r.message) :
    ∃ config again, (Rule.numericality r).RebuiltAs config again := by
  have hfields : List.Forall₂ BoundField r.bounds (r.bounds.map fun b => (b.1.name, b.2)) :=
    List.forall₂_map_right_iff.2 (List.forall₂_same.2 fun b hb => ⟨rfl, hn b hb⟩)
  exact ⟨_, _, .self r.described_eq (isOff_withMessageOrTrue _ _) (Numericality.buildOption_fields hs hfields hm)⟩

/-- what the two rules about membership have in common: they differ by the verdict on whether a value is found -/
theorem rebuilt_membership (make : Membership → Rule) {option : String}
    (verdict : Bool → Option Value → Outcome (List Value))
    (ho : ∀ r, (make r).option = option)
    (hb : ∀ c, buildOption (.text option) c = buildMembership option c >>= fun r => .ok [make r])
    (hd : ∀ r, r.values.countable = true →
      (make r).described = .ok (some (option, withMessage [("in", r.listed)] r.message)))
    (hr : ∀ r v, (make r).run v = r.holds v >>= fun found => verdict found r.message) {r : Membership}
    (hv : IsCollection r.values) (hm : Worded r.message) (hl : r.values.countable = true) :
    ∃ config again, (make r).RebuiltAs config again := by
  obtain ⟨r', hbuilds, hcount, hlisted, hmessage, hholds⟩ := Membership.rebuilt hv hm
  have hbuilt : buildOption (.text (make r').option) (withMessage [("in", r.listed)] r.message) = .ok [make r'] := by
    rw [ho, hb, hbuilds, ok_bind]
  refine ⟨_, make r', by rw [ho]; exact hd r hl, ?_, ?_, fun v ms h => ?_⟩
  · have := buildRules_singleton (isOff_withMessage _ _) hbuilt
    rwa [ho] at this ⊢
  · rw [ho, hd r' hcount, hlisted, hmessage]
  · rw [hr] at h ⊢
    obtain ⟨found, hfound, h⟩ := bind_eq_ok.1 h
    rw [hholds v found hfound, ok_bind, hmessage]
    exact h

theorem rebuilt_jsonSchema {r : SchemaRule} (hh : r.schema.hash?.isSome) (hs : JsonSchema.isSchema r.schema = true)
    (hm : Worded r.message) (hw : (Rule.jsonSchema r).looksWrapped = false) :
    ∃ config again, (Rule.jsonSchema r).RebuiltAs config again := by
  obtain ⟨schema, message⟩ := r
  obtain ⟨es, hes⟩ := Option.isSome_iff_exists.1 hh
  obtain rfl := hash?_eq_some hes
  cases message with
  | none =>
    refine ⟨_, .jsonSchema ⟨.map false es, none⟩, .self rfl rfl ?_⟩
    show (buildSchema (.map false es) >>= fun x => .ok [x]) = _
    rw [buildSchema_alone hw hs]
    rfl
  | some m =>
    refine ⟨_, .jsonSchema ⟨.map false es, some m⟩, .self rfl rfl ?_⟩
    show (buildSchema (.ofFields (("schema", .map false es) :: messageField (some m))) >>= fun x => .ok [x]) = _
    rw [buildSchema_wrapped hm hh hs]
    rfl

/-- every rule but a function of the caller is built again, kind by kind -/
theorem Built.rebuilt (h : rule.Built) (hf : rule.option ≠ "validate") (hp : ∀ m, rule = .presence m → m ≠ some .null)
    (hl : rule.listable = true) (hw : rule.looksWrapped = false) : ∃ config again, rule.RebuiltAs config again := by
  cases h with
  | numericality hs hn hm => exact rebuilt_numericality hs hn hm
  | length hmin hmax his hm =>
    exact ⟨_, _, .self (LengthBounds.described_eq _) rfl (LengthBounds.buildOption_fields hmin hmax his hm)⟩
  | format hc hm => exact ⟨_, _, .self rfl (isOff_withMessage _ _) (Format.buildOption_fields hc hm)⟩
  | inclusion hv hm =>
    exact rebuilt_membership .inclusion (fun found m => messageIf (!found) m (.ok "is not included in the list"))
      (fun _ => rfl) (fun _ => rfl) (fun r hl => described_of_listable (show (Rule.inclusion r).listable = true from hl))
      (fun _ _ => rfl) hv hm hl
  | exclusion hv hm =>
    exact rebuilt_membership .exclusion (fun found m => messageIf found m (.ok "is reserved"))
      (fun _ => rfl) (fun _ => rfl) (fun r hl => described_of_listable (show (Rule.exclusion r).listable = true from hl))
      (fun _ _ => rfl) hv hm hl
  | presence m =>
    refine ⟨_, .presence m, .self rfl (isOff_withMessageOrTrue _ _) ?_⟩
    exact congrArg (fun m => Except.ok [Rule.presence m]) (presenceMessage_fields (hp m rfl))
  | jsonSchema hh hs hm => exact rebuilt_jsonSchema hh hs hm hw
  | callback f => exact absurd rfl hf

/-- a rule that is no function of the caller is described under its option, unless what it lists cannot be counted -/
theorem exists_described (hf : rule.option ≠ "validate") :
    rule.listable = true ↔ ∃ config, rule.described = .ok (some (rule.option, config)) := by
  constructor
  · intro hl
    rw [described_of_listable hl]
    cases rule with
    | callback f => exact absurd rfl hf
    | jsonSchema r =>
      obtain ⟨schema, message⟩ := r
      cases message <;> exact ⟨_, rfl⟩
    | _ => exact ⟨_, rfl⟩
  · rintro ⟨config, hd⟩
    by_contra hl
    rw [described, if_neg hl] at hd
    cases hd

/-- **Rules are built again from their descriptions.** A rule that is no function of the caller stands under the option
that it was declared by. It is described under this option if what it lists can be counted, and the description gives
one rule, which is described alike and answers alike, unless the description of a schema looks like its wrapping. -/
theorem rebuilt_as_described {options : List (Value × Value)} {rules : List Rule} (h : buildRules options = .ok rules)
    (hmem : rule ∈ rules) (hf : rule.option ≠ "validate") :
    (∃ o ∈ options, o.1.text? = some rule.option) ∧
      (rule.listable = true ↔ ∃ config, rule.described = .ok (some (rule.option, config))) ∧
      (rule.listable = true → rule.looksWrapped = false → ∃ config again, rule.RebuiltAs config again) := by
  refine ⟨?_, exists_described hf, fun hl hw => ?_⟩
  · obtain ⟨all, hall, h⟩ := bind_eq_ok.1 h
    cases h
    obtain ⟨rs, hrs, hmem⟩ := List.mem_flatten.1 hmem
    obtain ⟨o, ho, hbuilt⟩ := exists_of_mem_right (mapM_eq_ok.1 hall) hrs
    obtain ⟨option, hkey, hof, -⟩ := built_of_buildOption hbuilt
    exact ⟨o, (List.mem_filter.1 ho).1, (hof _ hmem).2 ▸ hkey⟩
  · have hp (m : Option Value) (hm : rule = .presence m) : m ≠ some .null := by
      subst hm
      exact presence_given h hmem
    exact ((built_of_buildRules h).1 rule hmem).rebuilt hf hp hl hw

def seats : List (Value × Value) := [(.text "inclusion", .range 1 5 1)]

theorem seats_rebuilt_as_described :
    buildRules seats = .ok [.inclusion ⟨.range 1 5 1, none⟩] ∧
      ∃ config again, (Rule.inclusion ⟨.range 1 5 1, none⟩).RebuiltAs config again := by
  have hbuilt : buildRules seats = .ok [.inclusion ⟨.range 1 5 1, none⟩] := by cbv
  exact ⟨hbuilt, (rebuilt_as_described hbuilt List.mem_cons_self (by decide)).2.2 rfl rfl⟩

def onlyText : Value := .ofFields [("type", .text "string")]

def wrappedText : Value := .ofFields [("schema", onlyText)]

/-- a schema that has the form of a wrapping admits every value, but its description is read as the schema in it -/
theorem wrapping_read_as_schema :
    ∃ rule again : Rule, buildRules [(.text "json_schema", .ofFields [("schema", wrappedText)])] = .ok [rule] ∧
      rule.described = .ok (some ("json_schema", wrappedText)) ∧
      buildRules [(.text "json_schema", wrappedText)] = .ok [again] ∧
      rule.run (.int 5) = .ok [] ∧ again.run (.int 5) = .ok [.text "5 is not of type 'string'"] := by
  have builds {schema : Value} (hh : schema.hash?.isSome) (hs : JsonSchema.isSchema schema = true) :
      buildRules [(.text "json_schema", .ofFields [("schema", schema)])] = .ok [.jsonSchema ⟨schema, none⟩] := by
    have hbuilt : buildOption (.text (Rule.jsonSchema ⟨schema, none⟩).option) (.ofFields [("schema", schema)]) =
        .ok [.jsonSchema ⟨schema, none⟩] := by
      show (buildSchema (.ofFields (("schema", schema) :: messageField none)) >>= fun x => .ok [x]) = _
      rw [buildSchema_wrapped worded_none hh hs]
      rfl
    exact buildRules_singleton rfl hbuilt
  have hadmitted : (Rule.jsonSchema ⟨wrappedText, none⟩).run (.int 5) = .ok [] := by
    have hnone : JsonSchema.violations ((JsonSchema.weight wrappedText + 2) * (JsonSchema.depth (.int 5) + 2))
        ⟨wrappedText⟩ wrappedText (.int 5) = .ok [] := rfl
    simp only [run, runSchema, JsonSchema.check, hnone, ok_bind, List.mapM_nil, pure_bind, List.mergeSort_nil]
    rfl
  have hrejected : (Rule.jsonSchema ⟨onlyText, none⟩).run (.int 5) = .ok [.text "5 is not of type 'string'"] := by
    have hone : JsonSchema.violations ((JsonSchema.weight onlyText + 2) * (JsonSchema.depth (.int 5) + 2))
        ⟨onlyText⟩ onlyText (.int 5) = .ok [⟨[], "5 is not of type 'string'"⟩] := rfl
    simp only [run, runSchema, JsonSchema.check, hone, ok_bind, List.mapM_cons, List.mapM_nil, pure_bind,
      List.mergeSort_singleton]
    rfl
  exact ⟨_, _, builds rfl rfl, rfl, builds rfl rfl, hadmitted, hrejected⟩

end Rule

end Intake
