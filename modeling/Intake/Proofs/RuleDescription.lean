/-
Rules written as options give the same rules again.

A rule is written as an option with its configuration in plain form (`Rule.written`). For a rule that is built,
and whose contents a document can hold (`Rule.Portable`), the configuration is plain data and building it
gives that very rule (`Rule.Portable.described`); so it is for the rules of an attribute together
(`buildRules_describeRules`).
-/
import Intake.Definition.Describe
import Intake.Proofs.CanonicalText
import Intake.Proofs.RuleRebuilding

namespace Intake

open Intake.Number Intake.Outcome

/-! ## Rules that documents can hold -/

/-- a number that a document can hold -/
inductive PortableNumber : Value → Prop where
  | int {n : Int} (h : (intText? n).isSome) : PortableNumber (.int n)
  | float {x : Binary64} (hf : x.isFinite = true) (hc : x.Canonical) : PortableNumber (.float x)
  | decimal {d : Decimal} (h : d.InRange) : PortableNumber (.decimal d)

/-- a message that is a text itself, if there is one -/
def PortableMessage (message : Option Value) : Prop := ∀ m, message = some m → ∃ s, m = .text s

theorem PortableMessage.worded {message : Option Value} (h : PortableMessage message) : Worded message := by
  intro m hm
  obtain ⟨s, rfl⟩ := h m hm
  rfl

/-- values that are listed, each of them plain data -/
def PortableValues (v : Value) : Prop := ∃ xs, v = .tuple xs ∧ ∀ x ∈ xs, x.Plain

theorem PortableValues.countable {v : Value} (h : PortableValues v) : v.countable = true := by
  obtain ⟨xs, rfl, -⟩ := h
  rfl

/-- a bound that can be written, if there is one -/
def PortableBound (bound : Option Int) : Prop := ∀ n, bound = some n → (intText? n).isSome

/-- a rule whose contents a document can hold -/
inductive Rule.Portable : Rule → Prop where
  | numericality {r : Numericality} (hb : ∀ b ∈ r.bounds, PortableNumber b.2) (hm : PortableMessage r.message) :
    Portable (.numericality r)
  | length {r : LengthBounds} (hmin : PortableBound r.minimum) (hmax : PortableBound r.maximum)
    (his : PortableBound r.exactly) (hm : PortableMessage r.message) : Portable (.length r)
  | format {r : Format} (hs : ∃ s, r.source = .text s) (hm : PortableMessage r.message) : Portable (.format r)
  | inclusion {r : Membership} (hv : PortableValues r.values) (hm : PortableMessage r.message) : Portable (.inclusion r)
  | exclusion {r : Membership} (hv : PortableValues r.values) (hm : PortableMessage r.message) : Portable (.exclusion r)
  | presence {m : Option Value} (hm : PortableMessage m) : Portable (.presence m)
  /-- a schema that stands alone must not look like the wrapping of one -/
  | jsonSchema {r : SchemaRule} (hs : r.schema.Plain)
    (hw : r.message = none → ∀ es, r.schema.hash? = some es → wrapsSchema es = false) (hm : PortableMessage r.message) :
    Portable (.jsonSchema r)

/-! ## Parts -/

theorem plain_messageField {message : Option Value} (h : PortableMessage message) :
    ∀ f ∈ messageField message, f.2.Plain := by
  cases message with
  | none => simp [messageField]
  | some m =>
    obtain ⟨s, rfl⟩ := h m rfl
    intro f hf
    rw [List.mem_singleton.1 hf]
    exact .text s

/-! ## Numbers -/

theorem PortableNumber.canonical {v : Value} (h : PortableNumber v) (hn : asNumber v = some v) :
    ∃ c, v.canonical = .ok c ∧ c.Plain ∧ asNumber c = some v := by
  cases h with
  | int h => exact ⟨_, rfl, .int h, hn⟩
  | float hf hc => exact ⟨_, rfl, .float hf hc, hn⟩
  | @decimal d h =>
    have hf : d.isFinite = true := by cases d <;> first | rfl | exact absurd h id
    refine ⟨_, rfl, .text _, ?_⟩
    simp only [asNumber, String.toList_ofList, Decimal.ofText?_text h, hf, if_true]

/-- every bound can be written as a field of plain data -/
theorem exists_boundFields {bounds : List (Comparison × Value)} (hp : ∀ b ∈ bounds, PortableNumber b.2)
    (hn : ∀ b ∈ bounds, asNumber b.2 = some b.2) :
    ∃ fs : Fields, List.Forall₂ BoundField bounds fs ∧
      List.Forall₂ Value.PlainForm (bounds.map fun b => (b.1.name, b.2)) fs ∧ ∀ f ∈ fs, f.2.Plain := by
  induction bounds with
  | nil => exact ⟨[], .nil, .nil, by simp⟩
  | cons b bounds ih =>
    obtain ⟨fs, h1, h2, h3⟩ :=
      ih (fun x hx => hp x (List.mem_cons_of_mem b hx)) (fun x hx => hn x (List.mem_cons_of_mem b hx))
    obtain ⟨c, hc, hplain, hnum⟩ := (hp b List.mem_cons_self).canonical (hn b List.mem_cons_self)
    exact ⟨(b.1.name, c) :: fs, .cons ⟨rfl, hnum⟩ h1, .cons ⟨rfl, hc⟩ h2, List.forall_mem_cons.2 ⟨hplain, h3⟩⟩

theorem plainForm_self {fs : Fields} (h : ∀ f ∈ fs, f.2.Plain) : List.Forall₂ Value.PlainForm fs fs :=
  List.forall₂_same.2 fun f hf => ⟨rfl, (h f hf).canonical_eq⟩

namespace Numericality

theorem plain_flags (r : Numericality) : ∀ f ∈ r.flags, f.2.Plain := by
  have part : ∀ (name : String) (isSet : Bool), ∀ f ∈ flagPart name isSet, f.2.Plain := by
    intro name isSet f hf
    cases isSet with
    | false => cases hf
    | true => rw [List.mem_singleton.1 hf]; exact .bool true
  intro f hf
  simp only [flags, List.mem_append] at hf
  rcases hf with hf | hf | hf
  · exact part _ _ f hf
  · exact part _ _ f hf
  · exact part _ _ f hf

end Numericality

/-! ## One kind after another -/

/-- a configuration in plain form that a rule is written with and built from -/
structure Rule.Redeclares (r : Rule) (config : Value) : Prop where
  described : ∃ c, r.described = .ok (some (r.option, c)) ∧ c.canonical = .ok config
  plain : config.Plain
  on : isOff config = false
  builds : buildOption (.text r.option) config = .ok [r]

/-- a plain mapping is the plain form of the fields that it was made from -/
theorem plain_fields {fs gs : Fields} (hn : gs.names.Nodup) (hp : ∀ g ∈ gs, g.2.Plain)
    (h : List.Forall₂ Value.PlainForm fs gs) :
    (Value.ofFields fs).canonical = .ok (Value.ofFields gs) ∧ (Value.ofFields gs).Plain :=
  ⟨Value.canonical_ofFields (by rwa [← Value.names_eq_of_plainForm h]) h, .map hn hp⟩

theorem redeclares_numericality {r : Numericality} (hs : (r.bounds.map (·.1)).Sublist Comparison.all)
    (hn : ∀ b ∈ r.bounds, asNumber b.2 = some b.2) (hb : ∀ b ∈ r.bounds, PortableNumber b.2)
    (hm : PortableMessage r.message) : ∃ config, (Rule.numericality r).Redeclares config := by
  obtain ⟨fs, hfields, hform, hplain⟩ := exists_boundFields hb hn
  have hbuilds := Numericality.buildOption_fields hs hfields hm.worded
  have hnodup := Numericality.names_nodup hs (names_of_boundFields hfields)
  have hparts := r.described_eq
  rw [withMessageOrTrue_eq] at hparts hbuilds
  by_cases h0 : r.bounds.map (fun b => (b.1.name, b.2)) ++ r.flags = [] ∧ r.message = none
  · rw [if_pos h0] at hparts
    -- nothing to write but that there is such a rule
    obtain ⟨⟨hbounds, hflags⟩, hmessage⟩ := And.imp_left List.append_eq_nil_iff.1 h0
    rw [hbounds, List.forall₂_nil_left_iff] at hform
    rw [hform, hflags, hmessage, if_pos ⟨rfl, rfl⟩] at hbuilds
    exact ⟨.bool true, ⟨_, hparts, rfl⟩, .bool true, rfl, hbuilds⟩
  · rw [if_neg h0] at hparts
    have h0' : ¬(fs ++ r.flags = [] ∧ r.message = none) := by
      rintro ⟨hnil, hmessage⟩
      obtain ⟨hfs, hflags⟩ := List.append_eq_nil_iff.1 hnil
      rw [hfs, List.forall₂_nil_right_iff] at hform
      exact h0 ⟨by rw [hform, hflags]; rfl, hmessage⟩
    rw [if_neg h0'] at hbuilds
    have hall : ∀ f ∈ fs ++ r.flags ++ messageField r.message, f.2.Plain := by
      intro f hf
      simp only [List.mem_append] at hf
      rcases hf with (hf | hf) | hf
      · exact hplain f hf
      · exact r.plain_flags f hf
      · exact plain_messageField hm f hf
    have hforms :=
      List.rel_append (List.rel_append hform (plainForm_self r.plain_flags)) (plainForm_self (plain_messageField hm))
    obtain ⟨hc, hp⟩ := plain_fields hnodup hall hforms
    exact ⟨_, ⟨_, hparts, hc⟩, hp, rfl, hbuilds⟩

theorem plain_boundPart {name : String} {bound : Option Int} (h : PortableBound bound) :
    ∀ f ∈ boundPart name bound, f.2.Plain := by
  cases bound with
  | none => simp [boundPart]
  | some n =>
    intro f hf
    rw [List.mem_singleton.1 hf]
    exact .int (h n rfl)

theorem redeclares_length {r : LengthBounds} (hmin : ∀ n, r.minimum = some n → 0 ≤ n)
    (hmax : ∀ n, r.maximum = some n → 0 ≤ n) (his : ∀ n, r.exactly = some n → 0 ≤ n) (pmin : PortableBound r.minimum)
    (pmax : PortableBound r.maximum) (pis : PortableBound r.exactly) (hm : PortableMessage r.message) :
    ∃ config, (Rule.length r).Redeclares config := by
  have hnodup : (r.bounds ++ messageField r.message).names.Nodup := by
    have hmessage : (messageField r.message).names.Sublist ["message"] := by cases r.message <;> simp [messageField]
    rw [Fields.names_append]
    exact List.Nodup.sublist (r.names_bounds.append hmessage) (by decide)
  have hplain : ∀ f ∈ r.bounds ++ messageField r.message, f.2.Plain := by
    intro f hf
    simp only [LengthBounds.bounds, List.mem_append] at hf
    rcases hf with (hf | hf | hf) | hf
    · exact plain_boundPart pmin f hf
    · exact plain_boundPart pmax f hf
    · exact plain_boundPart pis f hf
    · exact plain_messageField hm f hf
  obtain ⟨hc, hp⟩ := plain_fields hnodup hplain (plainForm_self hplain)
  exact ⟨_, ⟨_, r.described_eq, hc⟩, hp, rfl, r.buildOption_fields hmin hmax his hm.worded⟩

theorem plain_one_field {name : String} (hname : name ≠ "message") {v : Value} (hv : v.Plain) {message : Option Value}
    (hm : PortableMessage message) :
    (withMessage [(name, v)] message).canonical = .ok (withMessage [(name, v)] message) ∧
      (withMessage [(name, v)] message).Plain := by
  have hplain : ∀ f ∈ (name, v) :: messageField message, f.2.Plain :=
    List.forall_mem_cons.2 ⟨hv, plain_messageField hm⟩
  have hnodup : Fields.names ((name, v) :: messageField message) |>.Nodup := by
    rw [Fields.names_cons, List.nodup_cons]
    refine ⟨fun h => hname (names_messageField message name h), ?_⟩
    cases message <;> simp [messageField]
  rw [withMessage_eq]
  exact plain_fields hnodup hplain (plainForm_self hplain)

theorem redeclares_format {r : Format} (hc : compileFormat r.source r.negated r.message = .ok r)
    (hs : ∃ s, r.source = .text s) (hm : PortableMessage r.message) : ∃ config, (Rule.format r).Redeclares config := by
  obtain ⟨s, hs⟩ := hs
  have hplain : r.source.Plain := hs ▸ .text s
  have hname : (if r.negated then "without" else "with") ≠ "message" := by split <;> decide
  obtain ⟨hcanon, hp⟩ := plain_one_field hname hplain hm
  exact ⟨_, ⟨_, rfl, hcanon⟩, hp, isOff_withMessage _ _, Format.buildOption_fields hc hm.worded⟩

/-- a membership rule is built from the option that it is written with -/
theorem membership_rebuilt {r : Membership} (hv : PortableValues r.values) (hm : PortableMessage r.message)
    (option : String) :
    ∃ config, (withMessage [("in", r.listed)] r.message).canonical = .ok config ∧ config.Plain ∧ isOff config = false ∧
      buildMembership option config = .ok r := by
  obtain ⟨xs, hxs, hplain⟩ := hv
  have hlisted : r.listed = .list xs := by rw [Membership.listed, hxs]; rfl
  obtain ⟨hcanon, hp⟩ := plain_one_field (show "in" ≠ "message" by decide) (.list hplain) hm
  rw [hlisted]
  refine ⟨_, hcanon, hp, isOff_withMessage _ _, ?_⟩
  obtain ⟨values, message⟩ := r
  cases hxs
  exact buildMembership_listed option xs hm.worded

theorem redeclares_inclusion {r : Membership} (hv : PortableValues r.values) (hm : PortableMessage r.message) :
    ∃ config, (Rule.inclusion r).Redeclares config := by
  obtain ⟨config, hc, hp, hon, hb⟩ := membership_rebuilt hv hm "inclusion"
  refine ⟨config, ⟨_, Rule.described_of_listable hv.countable, hc⟩, hp, hon, ?_⟩
  show (buildMembership "inclusion" config >>= fun x => .ok [Rule.inclusion x]) = _
  rw [hb, ok_bind]

theorem redeclares_exclusion {r : Membership} (hv : PortableValues r.values) (hm : PortableMessage r.message) :
    ∃ config, (Rule.exclusion r).Redeclares config := by
  obtain ⟨config, hc, hp, hon, hb⟩ := membership_rebuilt hv hm "exclusion"
  refine ⟨config, ⟨_, Rule.described_of_listable hv.countable, hc⟩, hp, hon, ?_⟩
  show (buildMembership "exclusion" config >>= fun x => .ok [Rule.exclusion x]) = _
  rw [hb, ok_bind]

theorem redeclares_presence {message : Option Value} (hm : PortableMessage message) :
    ∃ config, (Rule.presence message).Redeclares config := by
  cases message with
  | none => exact ⟨.bool true, ⟨_, rfl, rfl⟩, .bool true, rfl, rfl⟩
  | some m =>
    obtain ⟨s, rfl⟩ := hm m rfl
    have hplain : ∀ f ∈ ([("message", .text s)] : Fields), f.2.Plain := by simpa using Value.Plain.text s
    obtain ⟨hc, hp⟩ := plain_fields (by simp) hplain (plainForm_self hplain)
    have hmessage := presenceMessage_fields (show some (Value.text s) ≠ some .null by simp)
    refine ⟨_, ⟨_, rfl, hc⟩, hp, rfl, ?_⟩
    exact congrArg (fun m => Except.ok [Rule.presence m]) hmessage

theorem redeclares_jsonSchema {r : SchemaRule} (hh : r.schema.hash?.isSome) (hs : JsonSchema.isSchema r.schema = true)
    (hp : r.schema.Plain) (hw : r.message = none → ∀ es, r.schema.hash? = some es → wrapsSchema es = false)
    (hm : PortableMessage r.message) : ∃ config, (Rule.jsonSchema r).Redeclares config := by
  obtain ⟨schema, message⟩ := r
  cases message with
  | none =>
    obtain ⟨es, hes⟩ := Option.isSome_iff_exists.1 hh
    obtain rfl := hash?_eq_some hes
    refine ⟨_, ⟨_, rfl, hp.canonical_eq⟩, hp, rfl, ?_⟩
    show (buildSchema (.map false es) >>= fun x => .ok [x]) = _
    rw [buildSchema_alone (hw rfl es rfl) hs]
    rfl
  | some m =>
    obtain ⟨s, rfl⟩ := hm m rfl
    have hplain : ∀ f ∈ ([("schema", schema), ("message", .text s)] : Fields), f.2.Plain := by
      simpa using ⟨hp, Value.Plain.text s⟩
    obtain ⟨hc, hp'⟩ := plain_fields (by simp) hplain (plainForm_self hplain)
    refine ⟨_, ⟨_, rfl, hc⟩, hp', rfl, ?_⟩
    show (buildSchema (.ofFields (("schema", schema) :: messageField (some (.text s)))) >>= fun x => .ok [x]) = _
    rw [buildSchema_wrapped hm.worded hh hs]
    rfl

/-- **A rule that is built and portable is built again from what it is written as.** -/
theorem Rule.Portable.redeclares {r : Rule} (h : r.Portable) (hb : r.Built) : ∃ config, r.Redeclares config := by
  cases h with
  | numericality hn hm =>
    cases hb with
    | numericality hs hnum _ => exact redeclares_numericality hs hnum hn hm
  | length hmin hmax his hm =>
    cases hb with
    | length bmin bmax bis _ => exact redeclares_length bmin bmax bis hmin hmax his hm
  | format hs hm =>
    cases hb with
    | format hc _ => exact redeclares_format hc hs hm
  | inclusion hv hm => exact redeclares_inclusion hv hm
  | exclusion hv hm => exact redeclares_exclusion hv hm
  | presence hm => exact redeclares_presence hm
  | jsonSchema hp hw hm =>
    cases hb with
    | jsonSchema hh hs _ => exact redeclares_jsonSchema hh hs hp hw hm

/-! ## All rules of an attribute -/

/-- what a rule is written as, next to what it is built from -/
theorem describeRules_cons {r : Rule} {rules : List Rule} {c config : Value} {fs : Fields}
    (hd : r.described = .ok (some (r.option, c))) (hc : c.canonical = .ok config) (hrest : describeRules rules = .ok fs) :
    describeRules (r :: rules) = .ok ((r.option, config) :: fs) := by
  unfold describeRules at hrest ⊢
  obtain ⟨all, hall, hrest⟩ := bind_eq_ok.1 hrest
  cases hrest
  have hwritten : r.written = .ok (some (r.option, config)) := by
    simp only [Rule.written, hd, ok_bind, hc]
  rw [List.mapM_cons, hwritten, hall]
  rfl

/-- **The rules of an attribute are built again from what they are written as**, which is plain data under the
names of their options. -/
theorem buildRules_describeRules {rules : List Rule} (hb : ∀ r ∈ rules, r.Built) (hp : ∀ r ∈ rules, r.Portable) :
    ∃ fs : Fields, describeRules rules = .ok fs ∧ fs.names = rules.map Rule.option ∧ (∀ f ∈ fs, f.2.Plain) ∧
      buildRules fs.entries = .ok rules := by
  induction rules with
  | nil => exact ⟨[], rfl, rfl, by simp, rfl⟩
  | cons r rules ih =>
    obtain ⟨hbr, hbs⟩ := List.forall_mem_cons.1 hb
    obtain ⟨hpr, hps⟩ := List.forall_mem_cons.1 hp
    obtain ⟨fs, hdesc, hnames, hplain, hbuild⟩ := ih hbs hps
    obtain ⟨config, hre⟩ := hpr.redeclares hbr
    obtain ⟨c, hd, hc⟩ := hre.described
    exact ⟨(r.option, config) :: fs, describeRules_cons hd hc hdesc, congrArg (List.cons r.option) hnames,
      List.forall_mem_cons.2 ⟨hre.plain, hplain⟩, buildRules_cons hre.on hre.builds hbuild⟩

end Intake
