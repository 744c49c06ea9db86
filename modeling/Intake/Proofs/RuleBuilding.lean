/-
What built rules are like.

A declaration is checked when its rules are built, and a rule keeps what was checked: its bounds are numbers in
the order of the comparisons, or counts that are not negative, its pattern is the one that its text compiles to,
its values are a range or a tuple, its schema is a hash that the draft admits, and its message is a text
(`Rule.Built`). An option gives rules of its own kind (`built_of_buildOption`), so options under distinct
names give rules of distinct kinds (`options_nodup`).
-/
import Mathlib.Data.List.Nodup
import Intake.Rule.Build
import Intake.Proofs.Fields
import Intake.Proofs.Outcome

namespace Intake

open Intake.Number Intake.Outcome

/-- a message that is a text, if there is one -/
def Worded (message : Option Value) : Prop := ∀ m, message = some m → m.text?.isSome

namespace Rule

def option : Rule → String
  | .numericality _ => "numericality"
  | .length _ => "length"
  | .format _ => "format"
  | .inclusion _ => "inclusion"
  | .exclusion _ => "exclusion"
  | .presence _ => "presence"
  | .jsonSchema _ => "json_schema"
  | .callback _ => "validate"

/-- values as a membership rule keeps them -/
def IsCollection (v : Value) : Prop := (∃ a b s, v = .range a b s) ∨ ∃ xs, v = .tuple xs

/-- what holds of every rule that a declaration gives -/
inductive Built : Rule → Prop where
  | numericality {r : Numericality} (hs : (r.bounds.map (·.1)).Sublist Comparison.all)
    (hn : ∀ b ∈ r.bounds, asNumber b.2 = some b.2) (hm : Worded r.message) : Built (.numericality r)
  | length {r : LengthBounds} (hmin : ∀ n, r.minimum = some n → 0 ≤ n) (hmax : ∀ n, r.maximum = some n → 0 ≤ n)
    (his : ∀ n, r.exactly = some n → 0 ≤ n) (hm : Worded r.message) : Built (.length r)
  | format {r : Format} (hc : compileFormat r.source r.negated r.message = .ok r) (hm : Worded r.message) :
    Built (.format r)
  | inclusion {r : Membership} (hv : IsCollection r.values) (hm : Worded r.message) : Built (.inclusion r)
  | exclusion {r : Membership} (hv : IsCollection r.values) (hm : Worded r.message) : Built (.exclusion r)
  | presence (m : Option Value) : Built (.presence m)
  | jsonSchema {r : SchemaRule} (hh : r.schema.hash?.isSome) (hs : JsonSchema.isSchema r.schema = true)
    (hm : Worded r.message) : Built (.jsonSchema r)
  | callback (f : Value) : Built (.callback f)

end Rule

/-! ## Parts -/

namespace Parts

theorem pop_entries (name : String) (fs : Fields) :
    Parts.pop name fs.entries = (fs.lookup name, (fs.without name).entries) := by
  rw [pop, Value.field?_entries, Value.removeKey_entries]

theorem pop_of_absent {name : String} {fs : Fields} (h : name ∉ fs.names) :
    Parts.pop name fs.entries = (none, fs.entries) := by
  rw [pop_entries, Fields.lookup_eq_none h, Fields.without_eq_self h]

theorem pop_first {name : String} {fs : Fields} (h : name ∉ fs.names) (v : Value) :
    Parts.pop name (Fields.entries ((name, v) :: fs)) = (some v, fs.entries) := by
  rw [pop_entries, Fields.without_cons_self, Fields.without_eq_self h, List.lookup_cons_self]

end Parts

theorem field?_of_given {v : Option Value} {w : Value} (h : Parts.given v = some w) : v = some w := by
  unfold Parts.given at h
  split at h
  · cases h
  · exact h

theorem worded_none : Worded none := by rintro m ⟨⟩

/-- the message that is popped is the one that is given, and the other parts are left -/
theorem of_popMessage {option : String} {parts rest : Parts} {message : Option Value}
    (h : popMessage option parts = .ok (message, rest)) :
    message = Parts.given (Value.field? "message" parts) ∧ rest = Value.removeKey "message" parts := by
  unfold popMessage at h
  dsimp only [Parts.pop] at h
  split at h
  · next hnone =>
    cases h
    exact ⟨hnone.symm, rfl⟩
  · next m hm =>
    split at h
    · cases h
      exact ⟨hm.symm, rfl⟩
    · obtain ⟨s, -, h⟩ := bind_eq_ok.1 h
      cases h

theorem worded_of_popMessage {option : String} {parts rest : Parts} {message : Option Value}
    (h : popMessage option parts = .ok (message, rest)) : Worded message := by
  unfold popMessage at h
  dsimp only [Parts.pop] at h
  split at h
  · cases h; exact worded_none
  · rename_i m hm
    split at h
    · rename_i ht
      cases h
      rintro m' ⟨⟩
      exact ht
    · obtain ⟨s, -, h⟩ := bind_eq_ok.1 h
      cases h

theorem asNumber_idem {v n : Value} (h : asNumber v = some n) : asNumber n = some n := by
  unfold asNumber at h
  split at h
  · cases h; rfl
  · split at h
    · cases h; rename_i hf; simp [asNumber, hf]
    · cases h
  · split at h
    · cases h; rename_i hf; simp [asNumber, hf]
    · cases h
  · split at h
    · split at h
      · cases h; rename_i hf; simp [asNumber, hf]
      · cases h
    · cases h
  · split at h
    · split at h
      · cases h; rename_i hf; simp [asNumber, hf]
      · cases h
    · cases h
  · cases h

/-- the bounds that are popped come in the order of the comparisons, each a number -/
theorem of_popBounds {cs : List Comparison} {parts rest : Parts} {bounds : List (Comparison × Value)}
    (h : popBounds cs parts = .ok (bounds, rest)) :
    (bounds.map (·.1)).Sublist cs ∧ ∀ b ∈ bounds, asNumber b.2 = some b.2 := by
  induction cs generalizing parts rest bounds with
  | nil => cases h; simp
  | cons c cs ih =>
    unfold popBounds at h
    split at h
    · obtain ⟨hs, hn⟩ := ih h
      exact ⟨hs.cons c, hn⟩
    · split at h
      · obtain ⟨s, -, h⟩ := bind_eq_ok.1 h
        cases h
      · rename_i n hn
        obtain ⟨⟨bounds', rest'⟩, h', h⟩ := bind_eq_ok.1 h
        cases h
        obtain ⟨hs, hall⟩ := ih h'
        refine ⟨hs.cons_cons c, fun b hb => ?_⟩
        rcases List.mem_cons.1 hb with rfl | hb
        · exact asNumber_idem hn
        · exact hall b hb

theorem lengthBound_nonneg {name : String} {v : Option Value} {b : Option Int} (h : lengthBound name v = .ok b) :
    ∀ n, b = some n → 0 ≤ n := by
  unfold lengthBound at h
  split at h
  · cases h; rintro n ⟨⟩
  · split at h
    · obtain ⟨s, -, h⟩ := bind_eq_ok.1 h
      cases h
    · cases h
      rintro n ⟨⟩
      omega
  · obtain ⟨s, -, h⟩ := bind_eq_ok.1 h
    cases h

theorem text?_eq_some {v : Value} {s : String} (h : v.text? = some s) : v = .text s ∨ v = .textMember s := by
  cases v <;> simp_all [Value.text?]

theorem hash?_eq_some {v : Value} {es : List (Value × Value)} (h : v.hash? = some es) : v = .map false es := by
  cases v with
  | map readOnly fs => cases readOnly <;> simp_all [Value.hash?]
  | _ => cases h

theorem compileFormat_of_text {v : Value} {s : String} (hv : v.text? = some s) {p : Pattern.Compiled}
    (hp : Pattern.compile s.toList = .ok p) (negated : Bool) (message : Option Value) :
    compileFormat v negated message = .ok ⟨v, p, negated, message⟩ := by
  rcases text?_eq_some hv with rfl | rfl <;> simp [compileFormat, Value.text?, hp]

/-- a format that is compiled compiles again from the pattern it keeps -/
theorem of_compileFormat {v : Value} {negated : Bool} {message : Option Value} {r : Format}
    (h : compileFormat v negated message = .ok r) :
    compileFormat r.source r.negated r.message = .ok r ∧ r.message = message := by
  unfold compileFormat at h
  dsimp only at h
  split at h
  · obtain ⟨s, -, h⟩ := bind_eq_ok.1 h
    cases h
  · rename_i declared s hsource
    have hd : declared.text? = some s := by
      split at hsource
      · cases hsource
        rfl
      · obtain ⟨t, ht, hpair⟩ := Option.map_eq_some_iff.1 hsource
        cases hpair
        exact ht
    split at h
    · rename_i p hp
      cases h
      exact ⟨compileFormat_of_text hd hp negated message, rfl⟩
    · split at h
      · cases h
      · obtain ⟨s, -, h⟩ := bind_eq_ok.1 h
        cases h

/-! ## Options -/

/-- a rule is built, and by the option of this name -/
def BuiltBy (option : String) (r : Rule) : Prop := r.Built ∧ r.option = option

/-- the parts of an option about numbers, which `true` gives none of -/
def numericalityParts (config : Value) : Outcome Parts :=
  match config with
  | .bool true => .ok []
  | config => optionParts "numericality" config none

def numericalityOf (parts : Parts) : Outcome Rule := do
  let (message, parts) ← popMessage "numericality" parts
  let (bounds, parts) ← popBounds Comparison.all parts
  let (onlyInteger, parts) := popFlag "only_integer" parts
  let (odd, parts) := popFlag "odd" parts
  let (even, parts) := popFlag "even" parts
  rejectUnknown "numericality" parts
  .ok (.numericality ⟨bounds, onlyInteger, odd, even, message⟩)

theorem buildNumericality_eq (config : Value) :
    buildNumericality config = numericalityParts config >>= numericalityOf := by
  cases config with
  | bool b => cases b <;> rfl
  | _ => rfl

theorem built_of_numericality {config : Value} {r : Rule} (h : buildNumericality config = .ok r) :
    BuiltBy "numericality" r := by
  rw [buildNumericality_eq] at h
  obtain ⟨parts, -, h⟩ := bind_eq_ok.1 h
  obtain ⟨⟨message, rest⟩, hm, h⟩ := bind_eq_ok.1 h
  obtain ⟨⟨bounds, rest'⟩, hb, h⟩ := bind_eq_ok.1 h
  obtain ⟨-, -, h⟩ := bind_eq_ok.1 h
  cases h
  obtain ⟨hs, hn⟩ := of_popBounds hb
  exact ⟨.numericality hs hn (worded_of_popMessage hm), rfl⟩

/-- the two ends of a length, from a range or one by one -/
def lengthLimits (minimum maximum within : Option Value) : Outcome (Option Value × Option Value) :=
  match Parts.given within with
  | some v => lengthEnds v
  | none => .ok (Parts.given minimum, Parts.given maximum)

def lengthOf (parts : Parts) : Outcome Rule := do
  let (message, parts) ← popMessage "length" parts
  let (minimum, parts) := parts.pop "minimum"
  let (maximum, parts) := parts.pop "maximum"
  let (exactly, parts) := parts.pop "is"
  let (within, parts) := parts.pop "within"
  let (inside, parts) := parts.pop "in"
  let (minimum, maximum) ← lengthLimits minimum maximum (inside.or within)
  rejectUnknown "length" parts
  let minimum ← lengthBound "minimum" minimum
  let maximum ← lengthBound "maximum" maximum
  let exactly ← lengthBound "is" (Parts.given exactly)
  .ok (.length ⟨minimum, maximum, exactly, message⟩)

theorem buildLength_eq (config : Value) : buildLength config = optionParts "length" config none >>= lengthOf := by
  unfold buildLength lengthOf lengthLimits
  refine congrArg _ (funext fun parts => congrArg _ (funext fun p => ?_))
  dsimp only [Parts.pop]
  generalize Parts.given (Option.or _ _) = within
  cases within <;> rfl

theorem built_of_length {config : Value} {r : Rule} (h : buildLength config = .ok r) : BuiltBy "length" r := by
  rw [buildLength_eq] at h
  obtain ⟨parts, -, h⟩ := bind_eq_ok.1 h
  obtain ⟨⟨message, rest⟩, hm, h⟩ := bind_eq_ok.1 h
  obtain ⟨⟨least, most⟩, -, h⟩ := bind_eq_ok.1 h
  obtain ⟨-, -, h⟩ := bind_eq_ok.1 h
  obtain ⟨minimum, hmin, h⟩ := bind_eq_ok.1 h
  obtain ⟨maximum, hmax, h⟩ := bind_eq_ok.1 h
  obtain ⟨exactly, his, h⟩ := bind_eq_ok.1 h
  cases h
  exact ⟨.length (lengthBound_nonneg hmin) (lengthBound_nonneg hmax) (lengthBound_nonneg his) (worded_of_popMessage hm),
    rfl⟩

/-- the pattern of a format, given by one of its two parts -/
def chosenFormat (positive negative message : Option Value) : Outcome Format :=
  match positive, negative with
  | some _, some _ => refuse .patternTwice
  | some p, none => compileFormat p false message
  | none, some p => compileFormat p true message
  | none, none => refuse .patternMissing

/-- a rule about the text of a value from its parts -/
def formatOf (parts : Parts) : Outcome Rule := do
  let (message, parts) ← popMessage "format" parts
  let (positive, parts) := parts.pop "with"
  let (negative, parts) := parts.pop "without"
  let rule ← chosenFormat positive negative message
  rejectUnknown "format" parts
  .ok (.format rule)

theorem buildFormat_eq (config : Value) :
    buildFormat config = optionParts "format" config (some "with") >>= formatOf := by
  unfold buildFormat formatOf chosenFormat
  refine congrArg _ (funext fun parts => congrArg _ (funext fun p => ?_))
  dsimp only [Parts.pop]
  generalize Value.field? "with" p.2 = positive
  generalize Value.field? "without" _ = negative
  cases positive <;> cases negative <;> rfl

theorem built_of_format {config : Value} {r : Rule} (h : buildFormat config = .ok r) : BuiltBy "format" r := by
  rw [buildFormat_eq] at h
  obtain ⟨parts, -, h⟩ := bind_eq_ok.1 h
  obtain ⟨⟨message, rest⟩, hm, h⟩ := bind_eq_ok.1 h
  obtain ⟨f, hf, h⟩ := bind_eq_ok.1 h
  obtain ⟨-, -, h⟩ := bind_eq_ok.1 h
  cases h
  have hw := worded_of_popMessage hm
  have hc : compileFormat f.source f.negated f.message = .ok f ∧ f.message = message := by
    unfold chosenFormat at hf
    split at hf
    · cases hf
    · exact of_compileFormat hf
    · exact of_compileFormat hf
    · cases hf
  exact ⟨.format hc.1 (hc.2 ▸ hw), rfl⟩

theorem of_buildMembership {option : String} {config : Value} {r : Membership}
    (h : buildMembership option config = .ok r) : Rule.IsCollection r.values ∧ Worded r.message := by
  unfold buildMembership at h
  obtain ⟨parts, -, h⟩ := bind_eq_ok.1 h
  obtain ⟨⟨message, rest⟩, hm, h⟩ := bind_eq_ok.1 h
  obtain ⟨-, -, h⟩ := bind_eq_ok.1 h
  have hw := worded_of_popMessage hm
  split at h
  · cases h; exact ⟨.inl ⟨_, _, _, rfl⟩, hw⟩
  · cases h; exact ⟨.inr ⟨_, rfl⟩, hw⟩
  · cases h; exact ⟨.inr ⟨_, rfl⟩, hw⟩
  · cases h; exact ⟨.inr ⟨_, rfl⟩, hw⟩
  · obtain ⟨s, -, h⟩ := bind_eq_ok.1 h
    cases h

theorem built_of_schemaRule {schema : Value} {message : Option Value} {r : Rule} (hh : schema.hash?.isSome)
    (hm : Worded message) (h : schemaRule schema message = .ok r) : BuiltBy "json_schema" r := by
  unfold schemaRule at h
  split at h
  · rename_i hs
    cases h
    exact ⟨.jsonSchema hh hs hm, rfl⟩
  · split at h <;> cases h

theorem built_of_schema {config : Value} {r : Rule} (h : buildSchema config = .ok r) : BuiltBy "json_schema" r := by
  unfold buildSchema at h
  split at h
  · obtain ⟨s, -, h⟩ := bind_eq_ok.1 h
    cases h
  · rename_i es hes
    split at h
    · obtain ⟨⟨message, rest⟩, hm, h⟩ := bind_eq_ok.1 h
      dsimp only at h
      split at h
      · rename_i hh
        exact built_of_schemaRule hh (worded_of_popMessage hm) h
      · obtain ⟨s, -, h⟩ := bind_eq_ok.1 h
        cases h
    · exact built_of_schemaRule (by rw [hes]; rfl) worded_none h

theorem built_of_callbacks {config : Value} {rs : List Rule} (h : buildCallbacks config = .ok rs) :
    ∀ r ∈ rs, BuiltBy "validate" r := by
  intro r hr
  obtain ⟨f, -, hf⟩ := exists_of_mem_right (mapM_eq_ok.1 h) hr
  split at hf
  · cases hf; exact ⟨.callback f, rfl⟩
  · obtain ⟨s, -, hf⟩ := bind_eq_ok.1 hf
    cases hf

/-- the rules that an option gives, each kind by the name of its option -/
inductive OptionGives (key config : Value) : List Rule → Prop where
  | numericality {r : Rule} (hk : key.text? = some "numericality") (h : buildNumericality config = .ok r) :
    OptionGives key config [r]
  | length {r : Rule} (hk : key.text? = some "length") (h : buildLength config = .ok r) : OptionGives key config [r]
  | format {r : Rule} (hk : key.text? = some "format") (h : buildFormat config = .ok r) : OptionGives key config [r]
  | inclusion {r : Membership} (hk : key.text? = some "inclusion") (h : buildMembership "inclusion" config = .ok r) :
    OptionGives key config [.inclusion r]
  | exclusion {r : Membership} (hk : key.text? = some "exclusion") (h : buildMembership "exclusion" config = .ok r) :
    OptionGives key config [.exclusion r]
  | presence (hk : key.text? = some "presence") : OptionGives key config [.presence (presenceMessage config)]
  | schema {r : Rule} (hk : key.text? = some "json_schema") (h : buildSchema config = .ok r) : OptionGives key config [r]
  | callbacks {rs : List Rule} (hk : key.text? = some "validate") (h : buildCallbacks config = .ok rs) :
    OptionGives key config rs

theorem gives_of_buildOption {key config : Value} {rs : List Rule} (h : buildOption key config = .ok rs) :
    OptionGives key config rs := by
  have single {x : Outcome Rule} (h : (do .ok [← x]) = Except.ok rs) : ∃ r, x = .ok r ∧ rs = [r] := by
    obtain ⟨r, hr, h⟩ := bind_eq_ok.1 h
    cases h
    exact ⟨r, hr, rfl⟩
  unfold buildOption at h
  split at h
  all_goals rename_i hk
  · obtain ⟨r, hr, rfl⟩ := single h
    exact .numericality hk hr
  · obtain ⟨r, hr, rfl⟩ := single h
    exact .length hk hr
  · obtain ⟨r, hr, rfl⟩ := single h
    exact .format hk hr
  · obtain ⟨r, hr, h⟩ := bind_eq_ok.1 h
    cases h
    exact .inclusion hk hr
  · obtain ⟨r, hr, h⟩ := bind_eq_ok.1 h
    cases h
    exact .exclusion hk hr
  · cases h
    exact .presence hk
  · obtain ⟨r, hr, rfl⟩ := single h
    exact .schema hk hr
  · exact .callbacks hk h
  · obtain ⟨s, -, h⟩ := bind_eq_ok.1 h
    cases h

/-- **An option gives rules of its own kind, which hold what was checked.** An option other than `validate` gives
one rule -/
theorem built_of_buildOption {key config : Value} {rs : List Rule} (h : buildOption key config = .ok rs) :
    ∃ option, key.text? = some option ∧ (∀ r ∈ rs, BuiltBy option r) ∧ (option ≠ "validate" → ∃ r, rs = [r]) := by
  have single {option : String} {r : Rule} (hk : key.text? = some option) (hr : BuiltBy option r) :
      ∃ option, key.text? = some option ∧ (∀ s ∈ [r], BuiltBy option s) ∧ (option ≠ "validate" → ∃ s, [r] = [s]) :=
    ⟨option, hk, List.forall_mem_singleton.2 hr, fun _ => ⟨r, rfl⟩⟩
  cases gives_of_buildOption h with
  | numericality hk hr => exact single hk (built_of_numericality hr)
  | length hk hr => exact single hk (built_of_length hr)
  | format hk hr => exact single hk (built_of_format hr)
  | inclusion hk hr =>
    obtain ⟨hv, hm⟩ := of_buildMembership hr
    exact single hk ⟨.inclusion hv hm, rfl⟩
  | exclusion hk hr =>
    obtain ⟨hv, hm⟩ := of_buildMembership hr
    exact single hk ⟨.exclusion hv hm, rfl⟩
  | presence hk => exact single hk ⟨.presence _, rfl⟩
  | schema hk hr => exact single hk (built_of_schema hr)
  | callbacks hk hrs => exact ⟨_, hk, built_of_callbacks hrs, fun hne => absurd rfl hne⟩

def optionNames (options : List (Value × Value)) : List (Option String) := options.map (·.1.text?)

/-- the rules of an option, if none is a function of the caller, are at most the one that it names -/
theorem options_sublist_of_buildOption {o : Value × Value} {rs : List Rule} (h : buildOption o.1 o.2 = .ok rs)
    (hv : ∀ r ∈ rs, r.option ≠ "validate") : (rs.map fun r => some r.option).Sublist [o.1.text?] := by
  obtain ⟨option, hk, hb, hone⟩ := built_of_buildOption h
  by_cases hvalidate : option = "validate"
  · cases rs with
    | nil => exact List.nil_sublist _
    | cons r rs =>
      have hr := hb r List.mem_cons_self
      exact absurd (hr.2.trans hvalidate) (hv r List.mem_cons_self)
  · obtain ⟨r, rfl⟩ := hone hvalidate
    have hr := hb r List.mem_cons_self
    rw [List.map_singleton, hr.2, hk]

theorem buildRules_cons {r : Rule} {rules : List Rule} {config : Value} {fs : Fields} (hon : isOff config = false)
    (hb : buildOption (.text r.option) config = .ok [r]) (hrest : buildRules fs.entries = .ok rules) :
    buildRules (Fields.entries ((r.option, config) :: fs)) = .ok (r :: rules) := by
  unfold buildRules at hrest ⊢
  obtain ⟨all, hall, hflat⟩ := bind_eq_ok.1 hrest
  cases hflat
  rw [Fields.entries_cons, List.filter_cons_of_pos (by simp [hon]), List.mapM_cons, hall]
  simp only [hb, ok_bind]
  rfl

/-- every rule is one of those that some option gives, which is not switched off -/
theorem option_of_mem_rules {options : List (Value × Value)} {rules : List Rule} (h : buildRules options = .ok rules)
    {rule : Rule} (hr : rule ∈ rules) : ∃ o ∈ options, ∃ rs, buildOption o.1 o.2 = .ok rs ∧ rule ∈ rs := by
  obtain ⟨all, hall, h⟩ := bind_eq_ok.1 h
  cases h
  obtain ⟨rs, hrs, hr⟩ := List.mem_flatten.1 hr
  obtain ⟨o, ho, hbuild⟩ := exists_of_mem_right (mapM_eq_ok.1 hall) hrs
  exact ⟨o, List.mem_of_mem_filter ho, rs, hbuild, hr⟩

/-- every option that is not switched off gives rules, all of which are built -/
theorem rules_of_mem_options {options : List (Value × Value)} {rules : List Rule} (h : buildRules options = .ok rules)
    {o : Value × Value} (ho : o ∈ options) (hon : isOff o.2 = false) :
    ∃ rs, buildOption o.1 o.2 = .ok rs ∧ ∀ rule ∈ rs, rule ∈ rules := by
  obtain ⟨all, hall, h⟩ := bind_eq_ok.1 h
  cases h
  have hkept : o ∈ options.filter fun o => !isOff o.2 := List.mem_filter.2 ⟨ho, by rw [hon]; rfl⟩
  obtain ⟨rs, hrs, hbuild⟩ := exists_of_mem_left (mapM_eq_ok.1 hall) hkept
  exact ⟨rs, hbuild, fun rule hr => List.mem_flatten.2 ⟨rs, hrs, hr⟩⟩

/-- **Rules are built from options, one kind each.** They hold what was checked, and without functions of the
caller they are of distinct kinds if the options have distinct names -/
theorem built_of_buildRules {options : List (Value × Value)} {rules : List Rule} (h : buildRules options = .ok rules) :
    (∀ r ∈ rules, r.Built) ∧ ((optionNames options).Nodup → (∀ r ∈ rules, r.option ≠ "validate") →
      (rules.map Rule.option).Nodup) := by
  constructor
  · intro r hr
    obtain ⟨o, -, rs, ho, hr⟩ := option_of_mem_rules h hr
    obtain ⟨option, -, hb, -⟩ := built_of_buildOption ho
    exact (hb r hr).1
  · intro hn hv
    obtain ⟨all, hall, h⟩ := bind_eq_ok.1 h
    cases h
    have hrel := mapM_eq_ok.1 hall
    have hsub : ∀ {os : List (Value × Value)} {rss : List (List Rule)},
        List.Forall₂ (fun o rs => buildOption o.1 o.2 = .ok rs) os rss → (∀ r ∈ rss.flatten, r.option ≠ "validate") →
        (rss.flatten.map fun r => some r.option).Sublist (optionNames os) := by
      intro os rss hrel hv
      induction hrel with
      | nil => exact List.nil_sublist _
      | @cons o rs os rss ho _ ih =>
        simp only [List.flatten_cons, List.mem_append, or_imp, forall_and] at hv
        have := (options_sublist_of_buildOption ho hv.1).append (ih hv.2)
        simpa [optionNames] using this
    have hnames : (optionNames (options.filter fun o => !isOff o.2)).Nodup := hn.sublist (List.filter_sublist.map _)
    have hsome : ((all.flatten.map Rule.option).map some).Nodup := by
      rw [List.map_map]
      exact hnames.sublist (hsub hrel hv)
    exact hsome.of_map some

end Intake
