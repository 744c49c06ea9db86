/-
Options that are checked when their rules are built.

An option that is given in full is a hash of parts. Each option documents the parts that it takes (`documentedParts`),
one of which is the message that stands in for the usual ones. Its builder refuses every other part and every message
that is no text, so the messages of its rule are texts, and a report of them has a text itself. A presence option alone
is built without these checks: whatever stands under its message is what it answers with.

Results:
- `Rule.says_run`: a rule answers with texts, or with its own message;
- `proper_of_buildOption`: an option that gives rules is proper, unless it is a presence option;
- `options_checked`: options give rules that are checked, presence messages apart, or they are refused;
- `presence_message_unchecked`: a presence option answers with a message that is no text and takes a part that it does not
  document.
-/
import Intake.Proofs.Refusing

namespace Intake

open Outcome

/-! ## Parts that are documented -/

/-- the parts that an option documents; `within` is another name for `in` -/
def documentedParts (option : String) : List String :=
  match option with
  | "numericality" => ["message", "only_integer", "odd", "even"] ++ Comparison.all.map Comparison.name
  | "length" => ["message", "minimum", "maximum", "is", "within", "in"]
  | "format" => ["message", "with", "without"]
  | "inclusion" => ["message", "within", "in"]
  | "exclusion" => ["message", "within", "in"]
  | "presence" => ["message"]
  | "json_schema" => ["message", "schema"]
  | _ => []

def ruleOptions : List String :=
  ["numericality", "length", "format", "inclusion", "exclusion", "presence", "json_schema"]

/-- the parts of an option that is given in full; a schema may also stand bare, and then is no hash of parts -/
def fullParts? (option : String) (config : Value) : Option Parts :=
  config.hash?.filter fun es => option != "json_schema" || wrapsSchema es

/-- every part has one of these names -/
def Parts.Documented (names : List String) (parts : Parts) : Prop := ∀ e ∈ parts, ∃ name ∈ names, e.1.text? = some name

/-- parts as an option documents them -/
structure Proper (option : String) (parts : Parts) : Prop where
  documented : parts.Documented (documentedParts option)
  worded : Worded (Parts.given (Value.field? "message" parts))

namespace Parts

variable {names : List String} {parts : Parts}

theorem documented_of_removeKey {name : String} (hname : name ∈ names)
    (h : Documented names (Value.removeKey name parts)) : Documented names parts := by
  intro e he
  by_cases hk : e.1.text? = some name
  · exact ⟨name, hname, hk⟩
  · exact h e (List.mem_filter.2 ⟨he, by simpa [Value.sameKey, Value.same] using hk⟩)

/-- documented parts may be taken out one after another -/
theorem documented_of_removeKeys {taken : List String} (htaken : ∀ name ∈ taken, name ∈ names)
    (h : Documented names (taken.foldl (fun left name => Value.removeKey name left) parts)) : Documented names parts := by
  induction taken generalizing parts with
  | nil => exact h
  | cons name taken ih =>
    obtain ⟨hname, htaken⟩ := List.forall_mem_cons.1 htaken
    exact documented_of_removeKey hname (ih htaken h)

/-- the bounds of comparisons may be taken out where these are documented -/
theorem documented_of_popBounds {cs : List Comparison} {rest : Parts} {bounds : List (Comparison × Value)}
    (hcs : ∀ c ∈ cs, c.name ∈ names) (h : popBounds cs parts = .ok (bounds, rest)) (hrest : Documented names rest) :
    Documented names parts := by
  induction cs generalizing parts rest bounds with
  | nil =>
    cases h
    exact hrest
  | cons c cs ih =>
    obtain ⟨hc, hcs⟩ := List.forall_mem_cons.1 hcs
    unfold popBounds at h
    split at h
    · exact ih hcs h hrest
    · next v left hpop =>
      obtain ⟨-, rfl⟩ := Prod.mk.inj hpop
      split at h
      · obtain ⟨s, -, h⟩ := bind_eq_ok.1 h
        cases h
      · obtain ⟨⟨bounds', rest'⟩, h', h⟩ := bind_eq_ok.1 h
        cases h
        exact documented_of_removeKey hc (ih hcs h' hrest)

theorem documented_of_rejectUnknown {option : String} {u : Unit} (h : rejectUnknown option parts = .ok u) :
    Documented names parts := by
  unfold rejectUnknown at h
  split at h
  · next hempty =>
    rw [List.isEmpty_iff.1 hempty]
    rintro e ⟨⟩
  · obtain ⟨keys, -, h⟩ := bind_eq_ok.1 h
    obtain ⟨s, -, h⟩ := bind_eq_ok.1 h
    cases h

end Parts

/-! ## Builders that check -/

section Builders

variable {option : String} {config : Value} {es parts rest : Parts}

/-- parts are proper if their message is popped and the others are documented -/
theorem proper_of_popMessage {message : Option Value} (hmem : "message" ∈ documentedParts option)
    (h : popMessage option parts = .ok (message, rest)) (hrest : rest.Documented (documentedParts option)) :
    Proper option parts := by
  obtain ⟨hmessage, rfl⟩ := of_popMessage h
  exact ⟨Parts.documented_of_removeKey hmem hrest, hmessage ▸ worded_of_popMessage h⟩

theorem eq_of_optionParts {short : Option String} (hes : config.hash? = some es)
    (h : optionParts option config short = .ok parts) : parts = es := by
  unfold optionParts at h
  rw [hes] at h
  cases h
  rfl

theorem proper_of_numericality {r : Rule} (h : buildNumericality config = .ok r) (hes : config.hash? = some es) :
    Proper "numericality" es := by
  -- the short form `true` has no parts, and is no hash
  obtain rfl := hash?_eq_some hes
  rw [buildNumericality_eq] at h
  obtain ⟨parts, hparts, h⟩ := bind_eq_ok.1 h
  obtain rfl : es = parts := Except.ok.inj hparts
  obtain ⟨⟨message, rest⟩, hm, h⟩ := bind_eq_ok.1 h
  obtain ⟨⟨bounds, rest'⟩, hbounds, h⟩ := bind_eq_ok.1 h
  obtain ⟨u, hunknown, -⟩ := bind_eq_ok.1 h
  refine proper_of_popMessage (by simp [documentedParts]) hm ?_
  refine Parts.documented_of_popBounds (fun c hc => List.mem_append_right _ (List.mem_map_of_mem hc)) hbounds ?_
  have htaken : ∀ name ∈ ["only_integer", "odd", "even"], name ∈ documentedParts "numericality" := by
    simp [documentedParts]
  exact Parts.documented_of_removeKeys htaken (Parts.documented_of_rejectUnknown hunknown)

theorem proper_of_length {r : Rule} (h : buildLength config = .ok r) (hes : config.hash? = some es) :
    Proper "length" es := by
  rw [buildLength_eq] at h
  obtain ⟨parts, hparts, h⟩ := bind_eq_ok.1 h
  obtain rfl := eq_of_optionParts hes hparts
  obtain ⟨⟨message, rest⟩, hm, h⟩ := bind_eq_ok.1 h
  obtain ⟨ends, -, h⟩ := bind_eq_ok.1 h
  obtain ⟨u, hunknown, -⟩ := bind_eq_ok.1 h
  refine proper_of_popMessage (by simp [documentedParts]) hm ?_
  have htaken : ∀ name ∈ ["minimum", "maximum", "is", "within", "in"], name ∈ documentedParts "length" := by
    simp [documentedParts]
  exact Parts.documented_of_removeKeys htaken (Parts.documented_of_rejectUnknown hunknown)

theorem proper_of_format {r : Rule} (h : buildFormat config = .ok r) (hes : config.hash? = some es) :
    Proper "format" es := by
  rw [buildFormat_eq] at h
  obtain ⟨parts, hparts, h⟩ := bind_eq_ok.1 h
  obtain rfl := eq_of_optionParts hes hparts
  obtain ⟨⟨message, rest⟩, hm, h⟩ := bind_eq_ok.1 h
  obtain ⟨f, -, h⟩ := bind_eq_ok.1 h
  obtain ⟨u, hunknown, -⟩ := bind_eq_ok.1 h
  refine proper_of_popMessage (by simp [documentedParts]) hm ?_
  have htaken : ∀ name ∈ ["with", "without"], name ∈ documentedParts "format" := by simp [documentedParts]
  exact Parts.documented_of_removeKeys htaken (Parts.documented_of_rejectUnknown hunknown)

theorem proper_of_membership {r : Membership} (h : buildMembership option config = .ok r) (hes : config.hash? = some es)
    (hnames : documentedParts option = ["message", "within", "in"]) : Proper option es := by
  unfold buildMembership at h
  obtain ⟨parts, hparts, h⟩ := bind_eq_ok.1 h
  obtain rfl := eq_of_optionParts hes hparts
  obtain ⟨⟨message, rest⟩, hm, h⟩ := bind_eq_ok.1 h
  obtain ⟨u, hunknown, -⟩ := bind_eq_ok.1 h
  refine proper_of_popMessage (by simp [hnames]) hm ?_
  have htaken : ∀ name ∈ ["within", "in"], name ∈ documentedParts option := by simp [hnames]
  exact Parts.documented_of_removeKeys htaken (Parts.documented_of_rejectUnknown hunknown)

/-- what wraps a schema has no other parts than these two -/
theorem proper_of_schema {r : Rule} (h : buildSchema config = .ok r) (hes : config.hash? = some es)
    (hw : wrapsSchema es = true) : Proper "json_schema" es := by
  simp only [buildSchema, hes, hw, if_true] at h
  obtain ⟨⟨message, rest⟩, hm, -⟩ := bind_eq_ok.1 h
  obtain ⟨hmessage, -⟩ := of_popMessage hm
  refine ⟨fun e he => ?_, hmessage ▸ worded_of_popMessage hm⟩
  have hnames := List.all_eq_true.1 (Bool.and_eq_true_iff.1 hw).2 e he
  simpa [documentedParts, Value.sameKey, Value.same, or_comm] using hnames

/-- **An option that gives rules is proper, if it is given in full**, unless it is one for presence. It is one of those
that give rules of their own, unless it is for functions of the caller -/
theorem proper_of_buildOption {key : Value} {rs : List Rule} (h : buildOption key config = .ok rs)
    (hkey : key.text? ≠ some "validate") :
    ∃ option ∈ ruleOptions, key.text? = some option ∧
      (option ≠ "presence" → ∀ parts, fullParts? option config = some parts → Proper option parts) := by
  have hash {option : String} {parts : Parts} (hp : fullParts? option config = some parts) :
      config.hash? = some parts ∧ (option != "json_schema" || wrapsSchema parts) = true := Option.filter_eq_some_iff.1 hp
  cases gives_of_buildOption h with
  | numericality hk hr => exact ⟨_, by simp [ruleOptions], hk, fun _ parts hp => proper_of_numericality hr (hash hp).1⟩
  | length hk hr => exact ⟨_, by simp [ruleOptions], hk, fun _ parts hp => proper_of_length hr (hash hp).1⟩
  | format hk hr => exact ⟨_, by simp [ruleOptions], hk, fun _ parts hp => proper_of_format hr (hash hp).1⟩
  | inclusion hk hr => exact ⟨_, by simp [ruleOptions], hk, fun _ parts hp => proper_of_membership hr (hash hp).1 rfl⟩
  | exclusion hk hr => exact ⟨_, by simp [ruleOptions], hk, fun _ parts hp => proper_of_membership hr (hash hp).1 rfl⟩
  | presence hk => exact ⟨_, by simp [ruleOptions], hk, fun hne => absurd rfl hne⟩
  | schema hk hr =>
    exact ⟨_, by simp [ruleOptions], hk, fun _ parts hp => proper_of_schema hr (hash hp).1 (by simpa using (hash hp).2)⟩
  | callbacks hk _ => exact absurd hk hkey

end Builders

/-! ## Messages -/

/-- the messages that a step gives, if it does, are texts or the message that was declared -/
def Says (message : Option Value) (x : Outcome (List Value)) : Prop :=
  ∀ ms, x = .ok ms → ∀ m ∈ ms, m.text?.isSome ∨ message = some m

section Saying

variable {α : Type} {message : Option Value}

theorem says_nil : Says message (.ok []) := by
  rintro ms ⟨⟩ m ⟨⟩

theorem says_append {ms ns : List Value} (hm : Says message (.ok ms)) (hn : Says message (.ok ns)) :
    Says message (.ok (ms ++ ns)) := by
  rintro ks ⟨⟩ m hmem
  exact (List.mem_append.1 hmem).elim (hm ms rfl m) (hn ns rfl m)

theorem says_bind {x : Outcome α} {f : α → Outcome (List Value)} (h : ∀ a, x = .ok a → Says message (f a)) :
    Says message (x >>= f) := by
  intro ms hms
  obtain ⟨a, ha, hms⟩ := bind_eq_ok.1 hms
  exact h a ha ms hms

theorem says_of_eq {x : Outcome (List Value)} {ms : List Value} (h : Says message x) (hx : x = .ok ms) :
    Says message (.ok ms) := hx ▸ h

theorem says_flatten {f : α → Outcome (List Value)} {xs : List α} {mss : List (List Value)}
    (h : ∀ x ∈ xs, Says message (f x)) (hmss : xs.mapM f = .ok mss) : Says message (.ok mss.flatten) := by
  rintro ks ⟨⟩ m hm
  obtain ⟨ms, hms, hm⟩ := List.mem_flatten.1 hm
  -- the messages stand in the answer to some element
  obtain ⟨x, hx, hxm⟩ := exists_of_mem_right (mapM_eq_ok.1 hmss) hms
  exact h x hx ms hxm m hm

theorem says_messageIf {usual : Outcome String} (broken : Bool) : Says message (messageIf broken message usual) := by
  unfold messageIf
  split
  · refine says_bind fun m hm => ?_
    rintro ms ⟨⟩
    refine List.forall_mem_singleton.2 ?_
    unfold messageOr at hm
    split at hm
    · next own hown =>
      cases hm
      exact .inr (Option.filter_eq_some_iff.1 hown).1
    · obtain ⟨s, -, rfl⟩ := map_eq_ok.1 hm
      exact .inl rfl
  · exact says_nil

end Saying

namespace Rule

theorem says_numericality (r : Numericality) (v : Value) : Says r.message (r.run v) := by
  unfold Numericality.run
  split
  · exact says_messageIf true
  · dsimp only
    split
    · exact says_messageIf true
    · refine says_bind fun bounds hbounds => says_bind fun odd hodd => says_bind fun even heven => ?_
      have hbound (number : Value) (b : Comparison × Value) : Says r.message (r.checkBound number b) :=
        says_bind fun o _ => says_messageIf _
      exact says_append (says_append (says_flatten (fun b _ => hbound _ b) hbounds)
        (says_of_eq (says_messageIf _) hodd)) (says_of_eq (says_messageIf _) heven)

theorem says_length (r : LengthBounds) (v : Value) : Says r.message (r.run v) := by
  have hbound (bound : Option Int) (broken : Int → Bool) (before after : String) :
      Says r.message (LengthBounds.checkBound r.message bound broken before after) := by
    unfold LengthBounds.checkBound
    split
    · exact says_nil
    · exact says_messageIf _
  unfold LengthBounds.run
  refine says_bind fun n _ => says_bind fun exact hexact => says_bind fun short hshort => says_bind fun long hlong => ?_
  exact says_append (says_append (says_of_eq (hbound _ _ _ _) hexact) (says_of_eq (hbound _ _ _ _) hshort))
    (says_of_eq (hbound _ _ _ _) hlong)

theorem says_schema (r : SchemaRule) (v : Value) : Says r.message (runSchema r v) := by
  unfold runSchema
  refine says_bind fun found _ => ?_
  split
  · next m hown _ =>
    rintro ms ⟨⟩
    exact List.forall_mem_singleton.2 (.inr (Option.filter_eq_some_iff.1 hown).1)
  · rintro ms ⟨⟩ m hm
    obtain ⟨place, -, rfl⟩ := List.mem_map.1 hm
    exact .inl rfl

/-- **A rule answers with texts, or with its own message**, unless it is a function of the caller -/
theorem says_run {rule : Rule} (h : rule.option ≠ "validate") (v : Value) : Says rule.message? (rule.run v) := by
  cases rule with
  | numericality r => exact says_numericality r v
  | length r => exact says_length r v
  | format r => exact says_bind fun s _ => says_messageIf _
  | inclusion r => exact says_bind fun b _ => says_messageIf _
  | exclusion r => exact says_bind fun b _ => says_messageIf _
  | presence m => exact says_messageIf _
  | jsonSchema r => exact says_schema r v
  | callback f => exact absurd rfl h

/-- a rule that was built has a text for its message, unless it is one for presence -/
theorem Built.worded {rule : Rule} (h : rule.Built) (hp : rule.option ≠ "presence") : Worded rule.message? := by
  cases h with
  | presence m => exact absurd rfl hp
  | callback f => exact worded_none
  | _ => assumption

end Rule

/-! ## Options that are checked -/

/-- options without functions of the caller, whose hashes have texts as keys -/
structure Declarative (options : Parts) : Prop where
  plain : ∀ o ∈ options, o.1.text? ≠ some "validate"
  keyed : ∀ o ∈ options, ∀ es, o.2.hash? = some es → ∀ e ∈ es, e.1.text?.isSome

/-- a presence option offers this for its message -/
def OffersMessage (options : Parts) (m : Value) : Prop :=
  ∃ o ∈ options, o.1.text? = some "presence" ∧ presenceMessage o.2 = some m

/-- the rules of an attribute answer with texts, if they answer -/
def Attribute.AnswersInTexts (a : Attribute) : Prop := ∀ v ms, runRules a.rules v = .ok ms → ∀ m ∈ ms, m.text?.isSome

/-- what is checked of options that have given rules -/
structure Checked (options : Parts) (rules : List Rule) : Prop where
  /-- each option that is on is one that gives rules -/
  known : ∀ o ∈ options, isOff o.2 = false → ∃ option ∈ ruleOptions, o.1.text? = some option
  /-- an option in full has parts that it documents, and a message that is a text -/
  proper : ∀ o ∈ options, ∀ option, o.1.text? = some option → option ≠ "presence" →
    ∀ parts, fullParts? option o.2 = some parts → Proper option parts
  /-- every message is a text or what a presence option offers -/
  texts : ∀ v ms, runRules rules v = .ok ms → ∀ m ∈ ms, m.text?.isSome ∨ OffersMessage options m
  /-- what a presence option offers is answered to every blank value, unless it counts as none -/
  offered : ∀ m, OffersMessage options m → m.truthy = true → ∀ v ms, Rule.isBlankValue v = true →
    runRules rules v = .ok ms → m ∈ ms
  /-- where presence options offer texts, a report has a text, as long as other rules answer with texts, too -/
  renders : (∀ m, OffersMessage options m → m.text?.isSome) →
    ∀ (r : Registry) (here : Place) (d : Definition) (raw : Value) (rep : Report),
    (∀ c, Definition.Within c d → ∀ a ∈ c.attributes, a.rules = rules ∨ a.AnswersInTexts) →
    d.read r here raw = .ok (.error rep) → Report.Renders rep.entries

/-- **Where the rules of every attribute answer with texts, a report has a text** -/
theorem Definition.renders_of_answers {r : Registry} {here : Place} {d : Definition} {raw : Value} {rep : Report}
    (h : ∀ c, Definition.Within c d → ∀ a ∈ c.attributes, a.AnswersInTexts)
    (hrep : d.read r here raw = .ok (.error rep)) :
    Report.Renders rep.entries := by
  have hanswers : d.AnswersInTexts r raw := fun hx _ ha _ hms => h _ hx.within _ ha _ _ hms
  exact Report.renders_of_written (AnswersInTexts.report_written hanswers hrep)

section Rules

variable {options : Parts} {rules : List Rule}

/-- a rule that is built is no function of the caller, and has a text for its message or what a presence option offers -/
theorem message_of_mem_rules (hd : Declarative options) (h : buildRules options = .ok rules) {rule : Rule}
    (hr : rule ∈ rules) : rule.option ≠ "validate" ∧
      ∀ m, rule.message? = some m → m.text?.isSome ∨ OffersMessage options m := by
  obtain ⟨o, ho, rs, hbuild, hmem⟩ := option_of_mem_rules h hr
  obtain ⟨option, hkey, hbuilt, -⟩ := built_of_buildOption hbuild
  obtain ⟨hb, rfl⟩ := hbuilt rule hmem
  refine ⟨fun hv => hd.plain o ho (hkey.trans (by rw [hv])), fun m hm => ?_⟩
  by_cases hp : rule.option = "presence"
  · -- the one rule whose message was not checked when it was built
    rw [hp] at hkey
    simp only [buildOption, hkey, Except.ok.injEq] at hbuild
    subst hbuild
    obtain rfl := List.mem_singleton.1 hmem
    exact .inr ⟨o, ho, hkey, hm⟩
  · exact .inl (hb.worded hp m hm)

theorem texts_of_buildRules (hd : Declarative options) (h : buildRules options = .ok rules) {v : Value} {ms : List Value}
    (hms : runRules rules v = .ok ms) : ∀ m ∈ ms, m.text?.isSome ∨ OffersMessage options m := by
  obtain ⟨mss, hall, hms⟩ := bind_eq_ok.1 hms
  cases hms
  intro m hm
  obtain ⟨ns, hns, hm⟩ := List.mem_flatten.1 hm
  obtain ⟨rule, hr, hrun⟩ := exists_of_mem_right (mapM_eq_ok.1 hall) hns
  obtain ⟨hplain, hmessage⟩ := message_of_mem_rules hd h hr
  rcases Rule.says_run hplain v ns hrun m hm with ht | hown
  · exact .inl ht
  · exact hmessage m hown

/-- an option that offers a message is a hash, and so is not switched off -/
theorem isOff_of_presenceMessage {config m : Value} (h : presenceMessage config = some m) : isOff config = false := by
  cases config with
  | map ro es => rfl
  | _ => cases h

theorem offered_of_buildRules (h : buildRules options = .ok rules) {m : Value} (ho : OffersMessage options m)
    (hm : m.truthy = true) {v : Value} {ms : List Value} (hv : Rule.isBlankValue v = true)
    (hms : runRules rules v = .ok ms) : m ∈ ms := by
  obtain ⟨o, hmem, hkey, hmessage⟩ := ho
  obtain ⟨rs, hbuild, hrules⟩ := rules_of_mem_options h hmem (isOff_of_presenceMessage hmessage)
  simp only [buildOption, hkey, Except.ok.injEq] at hbuild
  subst hbuild
  obtain ⟨mss, hall, hms⟩ := bind_eq_ok.1 hms
  cases hms
  obtain ⟨ns, hns, hrun⟩ := exists_of_mem_left (mapM_eq_ok.1 hall) (hrules _ List.mem_cons_self)
  have hown : ownMessage (presenceMessage o.2) = some m := by rw [hmessage, ownMessage, Option.filter_some, if_pos hm]
  simp only [Rule.run, messageIf, hv, if_true, messageOr, hown, ok_bind, Except.ok.injEq] at hrun
  subst hrun
  exact List.mem_flatten.2 ⟨_, hns, List.mem_cons_self⟩

/-- **The options of rules are checked.** -/
theorem checked_of_buildRules (hd : Declarative options) (h : buildRules options = .ok rules) :
    Checked options rules where
  known o ho hon := by
    obtain ⟨rs, hbuild, -⟩ := rules_of_mem_options h ho hon
    obtain ⟨option, hoption, hkey, -⟩ := proper_of_buildOption hbuild (hd.plain o ho)
    exact ⟨option, hoption, hkey⟩
  proper o ho option hkey hne parts hparts := by
    obtain ⟨hhash, -⟩ := Option.filter_eq_some_iff.1 hparts
    have hon : isOff o.2 = false := by
      rw [hash?_eq_some hhash]
      rfl
    obtain ⟨rs, hbuild, -⟩ := rules_of_mem_options h ho hon
    obtain ⟨option', -, hkey', hproper⟩ := proper_of_buildOption hbuild (hd.plain o ho)
    obtain rfl : option = option' := Option.some.inj (hkey.symm.trans hkey')
    exact hproper hne parts hparts
  texts _ _ := texts_of_buildRules hd h
  offered _ ho hm _ _ := offered_of_buildRules h ho hm
  renders hoffered r here d raw rep hrules hrep := by
    refine Definition.renders_of_answers (fun c hc a ha => ?_) hrep
    rcases hrules c hc a ha with hsame | htexts
    · intro v ms hms m hm
      rw [hsame] at hms
      exact (texts_of_buildRules hd h hms m hm).elim id (hoffered m)
    · exact htexts

end Rules

/-- **Options give rules or are refused, and are checked if they give rules.** Every part of an option is one that it
documents and every message is a text, but for presence options, whose messages are what they offer. Building fails
otherwise only where a refusal cannot be told or reading a pattern ends in a fault -/
theorem options_checked {options : Parts} (hd : Declarative options) :
    (Reportable options → (∃ e, buildRules options = .error (.definition e)) ∨ ∃ rules, buildRules options = .ok rules) ∧
      ∀ rules, buildRules options = .ok rules → Checked options rules := by
  refine ⟨fun hr => ?_, fun rules h => checked_of_buildRules hd h⟩
  have hall := refusable_buildRules hr hd.keyed
  cases hbuild : buildRules options with
  | ok rules => exact .inr ⟨rules, rfl⟩
  | error f =>
    rw [hbuild] at hall
    obtain ⟨e, rfl⟩ := hall
    exact .inl ⟨e, rfl⟩

/-- a title that must not be empty, told of in words of its own, and that must be there -/
def titleOptions : Fields :=
  [("length", .ofFields [("minimum", .int 1), ("message", .text "is empty")]), ("presence", .bool true)]

def titleRules : List Rule := [.length ⟨some 1, none, none, some (.text "is empty")⟩, .presence none]

theorem declarative_entries {fs : Fields} (hv : "validate" ∉ fs.names)
    (hk : ∀ f ∈ fs, ∀ es, f.2.hash? = some es → ∀ e ∈ es, e.1.text?.isSome) : Declarative fs.entries where
  plain o ho := by
    obtain ⟨f, hf, rfl⟩ := List.mem_map.1 ho
    intro h
    exact hv (Option.some.inj h ▸ List.mem_map_of_mem hf)
  keyed o ho := by
    obtain ⟨f, hf, rfl⟩ := List.mem_map.1 ho
    exact hk f hf

theorem texts_of_entries {fs : Fields} {es : List (Value × Value)} (h : (Value.ofFields fs).hash? = some es) :
    ∀ e ∈ es, e.1.text?.isSome := by
  cases h
  intro e he
  obtain ⟨f, -, rfl⟩ := List.mem_map.1 he
  rfl

theorem reportable_title : Reportable titleOptions.entries := by
  have leaf {v : Value} (hv : v.IsPresentable) (h : ∀ x, ¬ Value.Child x v) : v.Throughout Value.IsPresentable :=
    .of_leaf hv h
  have text (s : String) : (Value.text s).Throughout Value.IsPresentable := Value.Throughout.text_iff.2 trivial
  constructor
  case names =>
    intro o ho
    obtain ⟨f, -, rfl⟩ := List.mem_map.1 ho
    exact Value.showable_text f.1
  case configs =>
    intro o ho
    rcases List.mem_pair.1 ho with rfl | rfl
    · refine ⟨Value.Throughout.map_iff.2 ⟨trivial, fun e he => ?_⟩, by decide⟩
      rcases List.mem_pair.1 he with rfl | rfl
      · exact ⟨text _, leaf (show (Number.intText? 1).isSome by decide) nofun⟩
      · exact ⟨text _, text _⟩
    · exact ⟨leaf trivial nofun, by decide⟩
  case patterns =>
    intro o ho hkey
    rcases List.mem_pair.1 ho with rfl | rfl <;> exact absurd (Option.some.inj hkey) (by decide)
  case schemas =>
    intro o ho hkey
    rcases List.mem_pair.1 ho with rfl | rfl <;> exact absurd (Option.some.inj hkey) (by decide)

/-- an empty title is told of by both of its rules, in texts -/
theorem title_checked :
    (Declarative titleOptions.entries ∧ Reportable titleOptions.entries) ∧
      buildRules titleOptions.entries = .ok titleRules ∧ Checked titleOptions.entries titleRules ∧
      runRules titleRules (.text "") = .ok [.text "is empty", .text "can't be blank"] := by
  have hd : Declarative titleOptions.entries := by
    refine declarative_entries (by decide) fun f hf es hes => ?_
    rcases List.mem_pair.1 hf with rfl | rfl
    · exact texts_of_entries hes
    · cases hes
  have hbuilt : buildRules titleOptions.entries = .ok titleRules := by cbv
  exact ⟨⟨hd, reportable_title⟩, hbuilt, (options_checked hd).2 _ hbuilt, rfl⟩

def presenceOf (name : String) (v : Value) : Parts := Fields.entries [("presence", .ofFields [(name, v)])]

/-- a presence option is built with a number for its message, which it answers with, with a part that it does not
document, and with a message that no report can be written with -/
theorem presence_message_unchecked :
    (Declarative (presenceOf "message" (.int 5)) ∧
      buildRules (presenceOf "message" (.int 5)) = .ok [.presence (some (.int 5))] ∧
      runRules [.presence (some (.int 5))] (.text "") = .ok [.int 5] ∧ (Value.int 5).text? = none) ∧
    (buildRules (presenceOf "mesage" (.text "is missing")) = .ok [.presence none] ∧
      ¬ Proper "presence" (Fields.entries [("mesage", .text "is missing")])) ∧
    (buildRules (presenceOf "message" (.set false [.int 5])) = .ok [.presence (some (.set false [.int 5]))] ∧
      runRules [.presence (some (.set false [.int 5]))] (.text "") = .ok [.set false [.int 5]] ∧
      ¬ Report.Renders [("title", .messages [.set false [.int 5]])]) := by
  refine ⟨⟨?_, by cbv, rfl, rfl⟩, ⟨by cbv, fun h => ?_⟩, ⟨by cbv, rfl, fun h => ?_⟩⟩
  · refine declarative_entries (by decide) fun f hf es hes => ?_
    rw [List.mem_singleton.1 hf] at hes
    exact texts_of_entries hes
  · obtain ⟨name, hname, htext⟩ := h.documented _ List.mem_cons_self
    cases htext
    exact absurd hname (by decide)
  · have hprint : Json.print .compact 2 (.list [.set false [.int 5]]) = .error .illTyped := by cbv
    obtain ⟨l, hl⟩ := Report.renders_iff.1 h
    simp only [Report.entriesValue] at hl
    obtain ⟨-, ⟨cs, hcs⟩, -⟩ := Json.printEntries_cons_ok.1 ⟨l, hl⟩
    cases hprint.symm.trans hcs

end Intake
