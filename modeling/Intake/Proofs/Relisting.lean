/-
What becomes of the lists of a definition in its document.

The document of a definition holds decimals, identifiers, dates, moments and times as texts. A default is cast back by the
declared type when the document is read, but what a rule lists stays a text. So the definition that is loaded is the
one with these texts in its lists (`Definition.relisted`): both have the same declarative form
(`Definition.toFields_relisted`), and what is declared stays declared (`Definition.Declared.relisted`).

No value of such a type equals a text. So an attribute of the type that has an inclusion rule accepts no value once it
is loaded, and one that has an exclusion rule is read as if it had none (`Definition.loaded_with_texts`).
-/
import Intake.Proofs.Dumping
import Intake.Proofs.Recasting
import Intake.Proofs.RuleDescription

namespace Intake

open Outcome

/-! ## Lists -/

/-- a value as it stands in a list that was written and read: as its text, if one is written of it -/
def Value.relisted (v : Value) : Value :=
  match v.canonical with
  | .ok (.text s) => .text s
  | _ => v

namespace Value

theorem relisted_of_canonical {v : Value} {s : String} (h : v.canonical = .ok (.text s)) : v.relisted = .text s := by
  simp only [relisted, h]

theorem canonical_relisted (v : Value) : v.relisted.canonical = v.canonical := by
  unfold relisted
  split
  · next s h =>
    rw [h]
    rfl
  · rfl

theorem canonicalAll_relisted (xs : List Value) : canonicalAll (xs.map relisted) = canonicalAll xs := by
  induction xs with
  | nil => rfl
  | cons x xs ih => rw [List.map_cons, canonicalAll, canonicalAll, canonical_relisted, ih]

end Value

namespace Membership

/-- the rule with its values as they are written and read -/
def relisted (r : Membership) : Membership :=
  match r.values with
  | .tuple xs => ⟨.tuple (xs.map Value.relisted), r.message⟩
  | _ => r

theorem relisted_cases (r : Membership) :
    r.relisted = r ∨ ∃ xs, r.values = .tuple xs ∧ r.relisted = ⟨.tuple (xs.map Value.relisted), r.message⟩ := by
  unfold relisted
  split
  · next xs h => exact .inr ⟨xs, h, rfl⟩
  · exact .inl rfl

@[simp] theorem message_relisted (r : Membership) : r.relisted.message = r.message := by
  rcases r.relisted_cases with h | ⟨xs, -, h⟩ <;> rw [h]

theorem countable_relisted (r : Membership) : r.relisted.values.countable = r.values.countable := by
  rcases r.relisted_cases with h | ⟨xs, hxs, h⟩
  · rw [h]
  · rw [h, hxs]
    rfl

theorem canonical_listed_relisted (r : Membership) : r.relisted.listed.canonical = r.listed.canonical := by
  rcases r.relisted_cases with h | ⟨xs, hxs, h⟩
  · rw [h]
  · rw [h]
    simp only [listed, hxs, Value.items?, Option.getD_some, Value.canonical, Value.canonicalAll_relisted]

theorem isCollection_relisted {r : Membership} (h : Rule.IsCollection r.values) :
    Rule.IsCollection r.relisted.values := by
  rcases r.relisted_cases with he | ⟨xs, -, he⟩
  · rwa [he]
  · rw [he]
    exact .inr ⟨_, rfl⟩

end Membership

/-- a field and a message are written alike, if the field is -/
theorem canonical_withMessage_congr {name : String} {v w : Value} {message : Option Value}
    (h : v.canonical = w.canonical) :
    (withMessage [(name, v)] message).canonical = (withMessage [(name, w)] message).canonical := by
  have hentries (u : Value) (rest : Fields) : Value.canonicalEntries (Fields.entries ((name, u) :: rest)) = (do
      let x ← u.canonical
      let es ← Value.canonicalEntries rest.entries
      .ok ((.text name, x) :: es)) := by
    rw [Fields.entries_cons, Value.canonicalEntries, Value.plain_text, ok_bind]
  rw [withMessage_eq, withMessage_eq, Value.ofFields_eq, Value.ofFields_eq, Value.canonical, Value.canonical]
  rw [List.singleton_append, List.singleton_append, hentries, hentries, h]

namespace Rule

/-- the rule with its list as that is written and read -/
def relisted : Rule → Rule
  | .inclusion r => .inclusion r.relisted
  | .exclusion r => .exclusion r.relisted
  | rule => rule

@[simp] theorem option_relisted (rule : Rule) : rule.relisted.option = rule.option := by
  cases rule <;> rfl

theorem Built.relisted {rule : Rule} (h : rule.Built) : rule.relisted.Built := by
  cases h with
  | inclusion hv hm => exact .inclusion (Membership.isCollection_relisted hv) (by rwa [Membership.message_relisted])
  | exclusion hv hm => exact .exclusion (Membership.isCollection_relisted hv) (by rwa [Membership.message_relisted])
  | numericality hs hn hm => exact .numericality hs hn hm
  | length hmin hmax his hm => exact .length hmin hmax his hm
  | format hc hm => exact .format hc hm
  | presence m => exact .presence m
  | jsonSchema hh hs hm => exact .jsonSchema hh hs hm
  | callback f => exact .callback f

theorem written_relisted (rule : Rule) : rule.relisted.written = rule.written := by
  have hconfig (r : Membership) : (withMessage [("in", r.relisted.listed)] r.relisted.message).canonical =
      (withMessage [("in", r.listed)] r.message).canonical := by
    rw [Membership.message_relisted]
    exact canonical_withMessage_congr r.canonical_listed_relisted
  cases rule with
  | inclusion r =>
    by_cases hc : r.values.countable = true
    · simp only [relisted, written, described, listable, describe, Membership.countable_relisted, hc, if_true,
        ok_bind, hconfig]
    · simp only [relisted, written, described, listable, Membership.countable_relisted, hc, Bool.false_eq_true, if_false]
  | exclusion r =>
    by_cases hc : r.values.countable = true
    · simp only [relisted, written, described, listable, describe, Membership.countable_relisted, hc, if_true,
        ok_bind, hconfig]
    · simp only [relisted, written, described, listable, Membership.countable_relisted, hc, Bool.false_eq_true, if_false]
  | _ => rfl

end Rule

theorem describeRules_relisted (rules : List Rule) : describeRules (rules.map Rule.relisted) = describeRules rules := by
  have hall : (rules.map Rule.relisted).mapM Rule.written = rules.mapM Rule.written := by
    rw [List.mapM_map]
    exact mapM_congr fun rule _ => rule.written_relisted
  rw [describeRules, describeRules, hall]

/-! ## Definitions -/

namespace Definition

mutual

/-- the definition with every list as that is written and read -/
def relisted : Definition → Definition
  | ⟨stamp, name, attributes, settings⟩ => ⟨stamp, name, relistedAll attributes, settings⟩

def relistedAll : List Attribute → List Attribute
  | [] => []
  | a :: as => relistedAttribute a :: relistedAll as

def relistedAttribute : Attribute → Attribute
  | ⟨name, shape, required, default, rules⟩ => ⟨name, relistedShape shape, required, default, rules.map Rule.relisted⟩

def relistedShape : Shape → Shape
  | .nested d => .nested (relisted d)
  | .arrayOf d => .arrayOf (relisted d)
  | .untyped => .untyped
  | .scalar t => .scalar t

end

theorem relistedAll_eq_map (as : List Attribute) : relistedAll as = as.map relistedAttribute := by
  induction as with
  | nil => rfl
  | cons a as ih => rw [relistedAll, ih, List.map_cons]

theorem relisted_eq (d : Definition) :
    d.relisted = ⟨d.stamp, d.name, d.attributes.map relistedAttribute, d.settings⟩ := by
  cases d
  rw [relisted, relistedAll_eq_map]

theorem relistedAttribute_eq (a : Attribute) :
    relistedAttribute a = ⟨a.name, relistedShape a.shape, a.required, a.default, a.rules.map Rule.relisted⟩ := by
  cases a
  rfl

theorem definition?_relistedShape (shape : Shape) :
    (relistedShape shape).definition? = shape.definition?.map relisted := by
  cases shape <;> rfl

mutual

theorem attributeFields_relisted (r : Registry) : ∀ d : Definition, d.relisted.attributeFields r = d.attributeFields r
  | ⟨_, _, attributes, _⟩ => attributesFields_relistedAll r attributes

theorem attributesFields_relistedAll (r : Registry) : ∀ as : List Attribute,
    attributesFields r (relistedAll as) = attributesFields r as
  | [] => rfl
  | a :: as => by
    have hname : (relistedAttribute a).name = a.name := by rw [relistedAttribute_eq]
    simp only [relistedAll, attributesFields, toValue_relistedAttribute r a, attributesFields_relistedAll r as, hname]

theorem toValue_relistedAttribute (r : Registry) : ∀ a : Attribute, (relistedAttribute a).toValue r = a.toValue r
  | ⟨_, shape, _, _, rules⟩ => by
    simp only [relistedAttribute, Attribute.toValue, toFields_relistedShape r shape, describeRules_relisted rules]

theorem toFields_relistedShape (r : Registry) : ∀ shape : Shape, (relistedShape shape).toFields r = shape.toFields r
  | .untyped => rfl
  | .scalar _ => rfl
  | .nested d => by simp only [relistedShape, Shape.toFields, attributeFields_relisted r d]
  | .arrayOf d => by simp only [relistedShape, Shape.toFields, attributeFields_relisted r d]

end

/-- **The declarative form does not tell a value that is listed from its text.** -/
theorem toFields_relisted (r : Registry) (d : Definition) : d.relisted.toFields r = d.toFields r := by
  have hname : d.relisted.name = d.name := by rw [relisted_eq]
  have hsettings : d.relisted.settings = d.settings := by rw [relisted_eq]
  simp only [toFields, attributeFields_relisted, hname, hsettings]

end Definition

theorem Attribute.Sound.relisted {a : Attribute} (h : a.Sound) : (Definition.relistedAttribute a).Sound := by
  rw [Definition.relistedAttribute_eq]
  refine ⟨h.identifier, h.visible, h.free, h.optional, h.given, ?_, ?_⟩
  · intro rule hrule
    obtain ⟨rule', hrule', rfl⟩ := List.mem_map.1 hrule
    exact (h.built rule' hrule').relisted
  · intro hplain
    have hoptions : (a.rules.map Rule.relisted).map Rule.option = a.rules.map Rule.option := by
      simp [Function.comp_def]
    rw [hoptions]
    refine h.kinds fun rule hrule => ?_
    rw [← rule.option_relisted]
    exact hplain _ (List.mem_map_of_mem hrule)

namespace Definition

theorem Declared.relisted {s : Settings} {stamp left : Nat} {d : Definition} (h : d.Declared s stamp left) :
    d.relisted.Declared s stamp left := by
  induction h with
  | @mk left name attributes hn ha hl hname hd ih =>
    rw [relisted_eq]
    have hpart {a : Attribute} {e : Definition} (he : (relistedAttribute a).shape.definition? = some e) :
        ∃ d, a.shape.definition? = some d ∧ d.relisted = e := by
      rw [relistedAttribute_eq, definition?_relistedShape] at he
      exact Option.map_eq_some_iff.1 he
    refine .mk ?_ ?_ ?_ ?_ ?_
    · have hnames : (attributes.map relistedAttribute).map (·.name) = attributes.map (·.name) := by
        simp [Function.comp_def, relistedAttribute_eq]
      rwa [hnames]
    · exact List.forall_mem_map.2 fun a hmem => (ha a hmem).relisted
    · refine List.forall_mem_map.2 fun a hmem he => hl a hmem ?_
      obtain ⟨e, he⟩ := Option.isSome_iff_exists.1 he
      obtain ⟨d, hd, -⟩ := hpart he
      exact Option.isSome_iff_exists.2 ⟨d, hd⟩
    · refine List.forall_mem_map.2 fun a hmem e he => ?_
      obtain ⟨d, hd, rfl⟩ := hpart he
      rw [relisted_eq, relistedAttribute_eq]
      exact hname a hmem d hd
    · refine List.forall_mem_map.2 fun a hmem e he => ?_
      obtain ⟨d, hd, rfl⟩ := hpart he
      exact ih a hmem d hd

/-- **A definition is loaded from its document with texts in its lists**, but for its stamp. -/
theorem ofText_dump_relisted {w : Workshop} (hw : w.registry = .builtin) {d : Definition}
    (hd : d.Declared d.settings d.stamp (d.settings.maxDepth - 1)) (hp : d.relisted.Portable) (hname : d.name ≠ "")
    (hl : d.Legible) :
    ∃ text, d.dump .builtin = .ok text ∧ ∀ n, ofText w n text none = .ok (d.relisted.restamp n) := by
  have hdeclared : d.relisted.Declared d.relisted.settings d.relisted.stamp (d.relisted.settings.maxDepth - 1) := by
    have := hd.relisted
    rwa [relisted_eq] at this ⊢
  have hnamed : d.relisted.name ≠ "" := by rwa [relisted_eq]
  have hlegible : d.relisted.Legible := fun fs hfs => hl fs (by rwa [toFields_relisted] at hfs)
  obtain ⟨text, hdump, hload⟩ := ofText_dump hw hdeclared hp hnamed hlegible
  refine ⟨text, ?_, hload⟩
  rwa [dump, toFields_relisted] at hdump

end Definition

/-! ## Values that are read -/

/-- a type whose values are written as texts -/
def ValueType.WrittenAsText (t : ValueType) : Prop := t = .decimal ∨ t = .uuid ∨ t = .date ∨ t = .moment ∨ t = .time

namespace ValueType.WrittenAsText

variable {t : ValueType} (ht : t.WrittenAsText)

include ht

theorem builtin : t.IsBuiltin := by
  rcases ht with rfl | rfl | rfl | rfl | rfl <;> rintro c ⟨⟩

theorem ne_text : t ≠ .text := by
  rcases ht with rfl | rfl | rfl | rfl | rfl <;> rintro ⟨⟩

theorem canonical {x : Value} (hx : x.hasType t = true) : ∃ s, x.canonical = .ok (.text s) := by
  cases x with
  | decimal d => exact ⟨_, rfl⟩
  | uuid u => exact ⟨_, rfl⟩
  | date d => exact ⟨_, rfl⟩
  | moment m => exact ⟨_, rfl⟩
  | time c => exact ⟨_, rfl⟩
  | map ro es => rcases ht with rfl | rfl | rfl | rfl | rfl <;> cases ro <;> cases hx
  | bytes m bs => rcases ht with rfl | rfl | rfl | rfl | rfl <;> cases hx
  | _ => rcases ht with rfl | rfl | rfl | rfl | rfl <;> cases hx

end ValueType.WrittenAsText

theorem Value.same_text_eq_false {v : Value} (h : v.text? = none) (s : String) : same v (.text s) = false := by
  cases v with
  | text t => cases h
  | textMember t => cases h
  | _ => simp [same, sameNumber, numeric?]

theorem Membership.among_texts {v : Value} (h : v.text? = none) (texts : List String) :
    among v (texts.map .text) = .ok false := by
  induction texts with
  | nil => rfl
  | cons s texts ih =>
    have hsignal : v.signalsWith (.text s) = false := by simp [Value.signalsWith, Value.numeric?]
    rw [List.map_cons, among, hsignal, Value.same_text_eq_false h, ih]
    rfl

/-- the rule lists values of a type, one by one -/
def Membership.Lists (t : ValueType) (r : Membership) : Prop := ∃ xs, r.values = .tuple xs ∧ ∀ x ∈ xs, x.hasType t = true

/-- values of such a type stand as texts in a list that was written and read -/
theorem ValueType.WrittenAsText.map_relisted {t : ValueType} (ht : t.WrittenAsText) {xs : List Value}
    (hxs : ∀ x ∈ xs, x.hasType t = true) : ∃ texts : List String, xs.map Value.relisted = texts.map .text := by
  induction xs with
  | nil => exact ⟨[], rfl⟩
  | cons x xs ih =>
    obtain ⟨hx, hxs⟩ := List.forall_mem_cons.1 hxs
    obtain ⟨s, hs⟩ := ht.canonical hx
    obtain ⟨texts, htexts⟩ := ih hxs
    exact ⟨s :: texts, by rw [List.map_cons, List.map_cons, Value.relisted_of_canonical hs, htexts]⟩

section Lists

variable {t : ValueType} (ht : t.WrittenAsText) {r : Membership} (hr : r.Lists t) {v : Value} (hv : v.text? = none)

include ht hr hv

/-- what is no text is in no list that was written and read -/
theorem Membership.holds_relisted : r.relisted.holds v = .ok false := by
  obtain ⟨xs, hxs, htype⟩ := hr
  obtain ⟨texts, htexts⟩ := ht.map_relisted htype
  have hrelisted : r.relisted = ⟨.tuple (texts.map .text), r.message⟩ := by
    simp only [relisted, hxs, htexts]
  rw [hrelisted]
  exact among_texts hv texts

theorem Rule.run_inclusion_relisted : (Rule.inclusion r.relisted).run v =
    (messageOr r.message (.ok "is not included in the list")).map fun m => [m] := by
  rw [run, Membership.holds_relisted ht hr hv, Membership.message_relisted]
  show (messageOr r.message _ >>= fun m => .ok [m]) = _
  cases messageOr r.message (.ok "is not included in the list") <;> rfl

theorem Rule.run_exclusion_relisted : (Rule.exclusion r.relisted).run v = .ok [] := by
  rw [run, Membership.holds_relisted ht hr hv]
  rfl

end Lists

/-- the messages of a rule stand before those of the rules after it -/
theorem runRules_cons {rule : Rule} {rules : List Rule} {v : Value} : runRules (rule :: rules) v = (do
    let ms ← rule.run v
    let rest ← runRules rules v
    .ok (ms ++ rest)) := by
  rw [runRules, List.mapM_cons]
  cases rule.run v with
  | error f => rfl
  | ok ms => cases h : rules.mapM (fun r => r.run v) <;> simp [runRules, h]

/-- rules that have nothing to say of a value may be left out -/
theorem runRules_filter {asked : Rule → Bool} {rules : List Rule} {v : Value}
    (h : ∀ rule ∈ rules, asked rule = false → rule.run v = .ok []) :
    runRules (rules.filter asked) v = runRules rules v := by
  induction rules with
  | nil => rfl
  | cons rule rules ih =>
    obtain ⟨hrule, hrules⟩ := List.forall_mem_cons.1 h
    by_cases ha : asked rule = true
    · rw [List.filter_cons_of_pos ha, runRules_cons, runRules_cons, ih hrules]
    · rw [List.filter_cons_of_neg ha, ih hrules, runRules_cons, hrule (by simpa using ha)]
      cases runRules rules v <;> rfl

namespace Attribute

open Definition

variable {a : Attribute} {here : Place} {strict : Bool} {view : KeyView}

/-- rules that say the same of every value that an attribute can have make the same reading -/
theorem read_congr_rules {r : Registry} {rules : List Rule} (h : ∀ v,
    Shape.resolve r (here.within a.name) strict a.shape (a.rawValue view) = .ok (.ok v) →
      runRules rules v = runRules a.rules v) :
    Attribute.read r here strict view { a with rules } = Attribute.read r here strict view a := by
  cases hm : a.missingIn view with
  | true =>
    have hm' : ({ a with rules } : Attribute).missingIn view = true := hm
    rw [read_eq, read_eq, if_pos hm, if_pos hm']
    rfl
  | false =>
    have hm' : ({ a with rules } : Attribute).missingIn view = false := hm
    by_cases hn : a.rawValue view = .null
    · have hn' : ({ a with rules } : Attribute).rawValue view = .null := hn
      rw [read_of_null hm hn, read_of_null hm' hn']
      rfl
    · have hn' : ({ a with rules } : Attribute).rawValue view ≠ .null := hn
      rw [read_of_not_null hm hn, read_of_not_null hm' hn']
      show readValue r here strict view { a with rules } (a.rawValue view) = _
      unfold readValue
      cases hr : Shape.resolve r (here.within a.name) strict a.shape (a.rawValue view) with
      | error f => rfl
      | ok resolved =>
        cases resolved with
        | error f => rfl
        | ok v =>
          simp only [ok_bind, checked, h v hr]
          rfl

/-- the reading is a finding: the one that the attribute had before, or the message of an inclusion rule, among others -/
def FindsUnlisted (a : Attribute) (r : Membership) (here : Place) (strict : Bool) (view : KeyView)
    (x : NamedReading) : Prop :=
  ∃ f, x.reading = .error f ∧ (Attribute.read .builtin here strict view a = .ok x ∨
    ∃ ms m, f = .messages ms ∧ m ∈ ms ∧ messageOr r.message (.ok "is not included in the list") = .ok m)

/-- an attribute of a type, next to the one that is loaded from its document -/
structure Relists (t : ValueType) (a b : Attribute) : Prop where
  /-- nothing but the rules differs -/
  same : b = { a with rules := b.rules }
  /-- with an inclusion rule no value is accepted -/
  refuses : ∀ r : Membership, .inclusion r ∈ a.rules → r.Lists t → ∀ here strict view x, a.rawValue view ≠ .null →
    Attribute.read .builtin here strict view b = .ok x → a.FindsUnlisted r here strict view x
  /-- with exclusion rules all is read as if there were none -/
  reserves : (∀ r : Membership, .exclusion r ∈ a.rules → r.Lists t) → ∀ here strict view,
    Attribute.read .builtin here strict view b =
      Attribute.read .builtin here strict view { b with rules := b.rules.filter fun rule => rule.option != "exclusion" }
  /-- a value that no rule lists is read as before -/
  alike : (∀ r : Membership, .inclusion r ∈ a.rules ∨ .exclusion r ∈ a.rules → r.Lists t) → ∀ here strict view,
    (∀ v, Registry.builtin.cast t strict (a.rawValue view) = .ok (.ok v) →
      ∀ r : Membership, .inclusion r ∈ a.rules ∨ .exclusion r ∈ a.rules → r.holds v = .ok false) →
    Attribute.read .builtin here strict view b = Attribute.read .builtin here strict view a

section Scalar

variable {t : ValueType} (ha : a.shape = .scalar t)

include ha

theorem relistedAttribute_of_scalar : relistedAttribute a = { a with rules := a.rules.map Rule.relisted } := by
  rw [relistedAttribute_eq, ha]
  rfl

variable (ht : t.WrittenAsText)

include ht

theorem text?_of_resolve {v : Value} (h : Shape.resolve .builtin here strict a.shape (a.rawValue view) = .ok (.ok v)) :
    Registry.builtin.cast t strict (a.rawValue view) = .ok (.ok v) ∧ v.text? = none := by
  rw [ha, Shape.resolve, castScalar_eq_ok] at h
  obtain ⟨w, hw, rfl⟩ := h
  rw [(Registry.makesNone_of_builtin ht.builtin).placedAt_eq_self hw]
  exact ⟨hw, Registry.text?_of_cast ht.builtin ht.ne_text hw⟩

theorem finds_unlisted {r : Membership} (hmem : .inclusion r ∈ a.rules) (hr : r.Lists t) {x : NamedReading}
    (hgiven : a.rawValue view ≠ .null) (hx : Attribute.read .builtin here strict view (relistedAttribute a) = .ok x) :
    a.FindsUnlisted r here strict view x := by
  rw [relistedAttribute_of_scalar ha] at hx
  obtain ⟨hname, hsupplied, hyields⟩ := read_eq_ok.1 hx
  -- the rule's message is among those of all rules
  have hsays {v : Value} {ms : List Value} (hv : v.text? = none) (hms : runRules (a.rules.map Rule.relisted) v = .ok ms) :
      ∃ m ∈ ms, messageOr r.message (.ok "is not included in the list") = .ok m := by
    obtain ⟨mss, hmss, hms⟩ := bind_eq_ok.1 hms
    cases hms
    obtain ⟨ns, hns, hrun⟩ := exists_of_mem_left (mapM_eq_ok.1 hmss) (List.mem_map_of_mem hmem)
    rw [Rule.relisted, Rule.run_inclusion_relisted ht hr hv] at hrun
    obtain ⟨m, hm, rfl⟩ := map_eq_ok.1 hrun
    exact ⟨m, List.mem_flatten_of_mem hns (List.mem_singleton_self m), hm⟩
  obtain ⟨name, supplied, reading⟩ := x
  cases hyields with
  | missing hm => exact ⟨_, rfl, .inl (read_eq_ok.2 ⟨hname, hsupplied, .missing hm⟩)⟩
  | absent hm hn ho => exact absurd hn hgiven
  | failed hm hn hf => exact ⟨_, rfl, .inl (read_eq_ok.2 ⟨hname, hsupplied, .failed hm hn hf⟩)⟩
  | broken hm hn hv hms hne =>
    obtain ⟨m, hmem, hmessage⟩ := hsays (text?_of_resolve ha ht hv).2 hms
    exact ⟨_, rfl, .inr ⟨_, m, rfl, hmem, hmessage⟩⟩
  | accepted hm hn hv hms =>
    obtain ⟨m, hmem, -⟩ := hsays (text?_of_resolve ha ht hv).2 hms
    cases hmem

theorem read_without_exclusion (hlists : ∀ r : Membership, .exclusion r ∈ a.rules → r.Lists t) :
    Attribute.read .builtin here strict view (relistedAttribute a) = Attribute.read .builtin here strict view
      { relistedAttribute a with rules := (relistedAttribute a).rules.filter fun rule =>
          rule.option != "exclusion" } := by
  rw [relistedAttribute_of_scalar ha]
  refine (read_congr_rules fun v hv => runRules_filter fun rule hrule hoption => ?_).symm
  obtain ⟨rule', hrule', rfl⟩ := List.mem_map.1 hrule
  cases rule' with
  | exclusion r => exact Rule.run_exclusion_relisted ht (hlists r hrule') (text?_of_resolve ha ht hv).2
  | _ => simp [Rule.relisted, Rule.option] at hoption

theorem read_of_unlisted (hlists : ∀ r : Membership, .inclusion r ∈ a.rules ∨ .exclusion r ∈ a.rules → r.Lists t)
    (hnone : ∀ v, Registry.builtin.cast t strict (a.rawValue view) = .ok (.ok v) →
      ∀ r : Membership, .inclusion r ∈ a.rules ∨ .exclusion r ∈ a.rules → r.holds v = .ok false) :
    Attribute.read .builtin here strict view (relistedAttribute a) = Attribute.read .builtin here strict view a := by
  rw [relistedAttribute_of_scalar ha]
  refine read_congr_rules fun v hv => ?_
  obtain ⟨hcast, htext⟩ := text?_of_resolve ha ht hv
  have hrun : ∀ rule ∈ a.rules, rule.relisted.run v = rule.run v := by
    intro rule hrule
    cases rule with
    | inclusion r =>
      rw [Rule.relisted, Rule.run, Rule.run, Membership.holds_relisted ht (hlists r (.inl hrule)) htext,
        hnone v hcast r (.inl hrule), Membership.message_relisted]
    | exclusion r =>
      rw [Rule.relisted, Rule.run, Rule.run, Membership.holds_relisted ht (hlists r (.inr hrule)) htext,
        hnone v hcast r (.inr hrule), Membership.message_relisted]
    | _ => rfl
  have hall : (a.rules.map Rule.relisted).mapM (fun rule => rule.run v) = a.rules.mapM fun rule => rule.run v := by
    rw [List.mapM_map]
    exact mapM_congr hrun
  rw [runRules, runRules, hall]

/-- **What becomes of an attribute whose rules list values of its type**, if a document has texts in their place. -/
theorem relists_of_scalar : a.Relists t (relistedAttribute a) where
  same := by rw [relistedAttribute_of_scalar ha]
  refuses := fun _ hmem hr _ _ _ _ hgiven hx => finds_unlisted ha ht hmem hr hgiven hx
  reserves := fun hlists _ _ _ => read_without_exclusion ha ht hlists
  alike := fun hlists _ _ _ hnone => read_of_unlisted ha ht hlists hnone

end Scalar

end Attribute

/-! ## Definitions that are loaded -/

namespace Definition

theorem attributes_loaded (n : Nat) (d : Definition) :
    (d.relisted.restamp n).attributes = d.attributes.map fun a => restampAttribute n (relistedAttribute a) := by
  rw [restamp_eq, relisted_eq, restampAll_eq_map, List.map_map]
  rfl

theorem definition?_loaded (n : Nat) (shape : Shape) :
    (restampShape n (relistedShape shape)).definition? = shape.definition?.map fun e => e.relisted.restamp n := by
  cases shape <;> rfl

theorem Within.loaded {c d : Definition} (h : c.Within d) (n : Nat) :
    (c.relisted.restamp n).Within (d.relisted.restamp n) := by
  induction h with
  | here => exact .here _
  | @part d e a ha he hc ih =>
    have hmem : restampAttribute n (relistedAttribute a) ∈ (d.relisted.restamp n).attributes := by
      rw [attributes_loaded]
      exact List.mem_map_of_mem ha
    refine .part hmem ?_ ih
    rw [restampAttribute_eq, relistedAttribute_eq, definition?_loaded, he]
    rfl

theorem mem_attributes_loaded {a : Attribute} {c : Definition} {t : ValueType} (ha : a ∈ c.attributes)
    (hshape : a.shape = .scalar t) (n : Nat) : relistedAttribute a ∈ (c.relisted.restamp n).attributes := by
  rw [attributes_loaded]
  have hself : restampAttribute n (relistedAttribute a) = relistedAttribute a := by
    rw [Attribute.relistedAttribute_of_scalar hshape, restampAttribute_eq]
    dsimp only
    rw [hshape, restampShape]
  rw [← hself]
  exact List.mem_map_of_mem ha

/-- **A definition is loaded from its document with texts in place of the decimals, identifiers, dates, moments and times
that its rules list**, at every depth. Where an inclusion rule lists values of the type of its attribute, the
definition that is loaded accepts nothing that gives the attribute a value. -/
theorem loaded_with_texts {w : Workshop} (hw : w.registry = .builtin) (hk : w.known = []) {d : Definition}
    (hd : d.Given w)
    (hp : d.relisted.Portable) (hname : d.name ≠ "") (hl : d.Legible) :
    ∃ text, d.dump .builtin = .ok text ∧ ∀ n, ofText w n text none = .ok (d.relisted.restamp n) ∧
      ∀ c, Within c d → Within (c.relisted.restamp n) (d.relisted.restamp n) ∧
        ∀ a ∈ c.attributes, ∀ t : ValueType, a.shape = .scalar t → t.WrittenAsText →
          (∃ b ∈ (c.relisted.restamp n).attributes, a.Relists t b) ∧
          ∀ r : Membership, .inclusion r ∈ a.rules → r.Lists t → ∀ here raw view p, viewOf raw = .ok view →
            (c.relisted.restamp n).read .builtin here raw = .ok (.ok p) → a.rawValue view = .null := by
  obtain ⟨text, hdump, hload⟩ := ofText_dump_relisted hw (hd.declared hk) hp hname hl
  refine ⟨text, hdump, fun n => ⟨hload n, fun c hc => ⟨hc.loaded n, fun a ha t hshape ht => ?_⟩⟩⟩
  have hmem := mem_attributes_loaded ha hshape n
  have hrelists := Attribute.relists_of_scalar hshape ht
  refine ⟨⟨_, hmem, hrelists⟩, fun r hr hlists here raw view p hview hread => ?_⟩
  by_contra hgiven
  obtain ⟨view', rs, hview', hrs, hgather⟩ := read_eq_ok.1 hread
  rw [hview] at hview'
  cases hview'
  obtain ⟨x, hx, hreading⟩ := exists_of_mem_left hrs hmem
  obtain ⟨f, hf, -⟩ := hrelists.refuses r hr hlists _ _ _ x hgiven hreading
  -- a finding leaves no instance
  have hfound : (x.name, f) ∈ findings rs := mem_findings.2 ⟨x, hx, rfl, hf⟩
  rw [(gather_eq_ok.1 hgather.symm).1] at hfound
  cases hfound

/-! ## An example -/

def listedPrices : Membership := ⟨.tuple [.decimal (.finite false 15 (-1)), .decimal (.finite false 25 (-1))], none⟩

def amount : Attribute := ⟨"amount", .scalar .decimal, true, none, [.inclusion listedPrices]⟩

def price : Definition := ⟨0, "price", [amount], Settings.default⟩

/-- what is declared of the amount besides its type -/
def amountOptions : Fields :=
  [("inclusion", .ofFields [("in", .list [.decimal (.finite false 15 (-1)), .decimal (.finite false 25 (-1))])])]

def priceBlock : Block :=
  .declarations [⟨true, .text "amount", .value (.text "decimal"), .none, amountOptions.entries⟩]

theorem amount_sound : amount.Sound := by
  refine ⟨rfl, by decide, by decide, fun _ => rfl, by simp [amount], ?_, by simp [amount]⟩
  exact List.forall_mem_singleton.2 (.inclusion (.inr ⟨_, rfl⟩) (by simp [Worded, listedPrices]))

theorem define_price : define CommandLine.workshop 0 (.text "price") priceBlock Settings.default = .ok price := by
  have hprepare : Builder.prepare .builtin (.empty "price" Settings.default 0) (amount.redeclaration none amountOptions) =
      .ok ⟨"amount", .value (.text "decimal"), some .decimal, none, amountOptions.entries⟩ :=
    Builder.prepare_of_sound amount_sound (by simp [amount]) rfl (by simp)
      (by simp [amountOptions, leadingNames, Builder.partNames])
  have hrules : buildRules amountOptions.entries = .ok [.inclusion listedPrices] := by
    refine buildRules_cons (r := .inclusion listedPrices) rfl ?_ rfl
    show (buildMembership "inclusion" (withMessage _ none) >>= fun x => .ok [Rule.inclusion x]) = _
    rw [buildMembership_listed "inclusion" _ worded_none]
    rfl
  have hdeclare : Builder.declare CommandLine.workshop 31 (.empty "price" Settings.default 0)
      ⟨true, .text "amount", .value (.text "decimal"), .none, amountOptions.entries⟩ =
      .ok ⟨"price", Settings.default, 0, [amount]⟩ := by
    simp only [Builder.declare, Builder.buildBlock]
    show (Builder.prepare .builtin _ (amount.redeclaration none amountOptions) >>= _) = _
    rw [hprepare, ok_bind, ok_bind, Builder.append, hrules]
    rfl
  unfold define priceBlock
  simp only [Builder.declareAll]
  show (Builder.declare CommandLine.workshop 31 _ _ >>= _) >>= _ = _
  rw [hdeclare]
  rfl

theorem price_given : price.Given CommandLine.workshop := by
  refine .block (.declarations ?_ ?_ ?_) define_price
  · exact List.forall_mem_singleton.2 fun e => nofun
  · exact List.forall_mem_singleton.2 (by simp [DistinctTexts, amountOptions, Fields.entries, Value.text?])
  · exact List.forall_mem_singleton.2 .none

theorem price_portable : price.relisted.Portable := by
  have hamount : (relistedAttribute amount).Portable := by
    rw [Attribute.relistedAttribute_of_scalar rfl]
    refine ⟨by simp [amount], by simp [amount], ?_⟩
    refine List.forall_mem_singleton.2 (.inclusion ⟨_, rfl, ?_⟩ (by rintro m ⟨⟩))
    exact List.forall_mem_cons.2 ⟨.text "1.5", List.forall_mem_singleton.2 (.text "2.5")⟩
  refine .mk (List.forall_mem_singleton.2 hamount) (List.forall_mem_singleton.2 ?_)
  rw [Attribute.relistedAttribute_of_scalar rfl]
  rintro e ⟨⟩

def priceFields : Fields :=
  [("name", .text "price"),
    ("attributes", .ofFields [
      ("amount", .ofFields [("type", .text "decimal"), ("required", .bool true),
        ("inclusion", .ofFields [("in", .list [.text "1.5", .text "2.5"])])])])]

theorem toFields_price : price.toFields .builtin = .ok priceFields := by
  refine toFields_eq ?_
  simp only [price, amount, attributeFields, attributesFields]
  rw [Attribute.toValue_eq rfl rfl rfl rfl (by decide)]
  rfl

theorem price_legible : price.Legible := by
  rintro fs h
  rw [toFields_price] at h
  cases h
  decide

def listedAmount : Value := .map false [(.text "amount", .text "1.5")]

theorem price_accepts : price.parse .builtin 0 listedAmount =
    .ok ⟨price.heading, listedAmount, [("amount", .decimal (.finite false 15 (-1)))], ["amount"]⟩ := by
  have hself : Value.same (.decimal (.finite false 15 (-1))) (.decimal (.finite false 15 (-1))) = true :=
    Value.same_self (.of_leaf trivial fun x hx => by cases hx)
  have hholds : listedPrices.holds (.decimal (.finite false 15 (-1))) = .ok true := by
    simp [listedPrices, Membership.holds, Value.items?, Membership.among, Value.signalsWith, hself]
  have hrules : runRules [.inclusion listedPrices] (.decimal (.finite false 15 (-1))) = .ok [] := by
    rw [runRules_cons, Rule.run, hholds]
    rfl
  refine parse_eq_ok.2 (read_eq_ok.2 ⟨⟨[("amount", .text "1.5")]⟩,
    [⟨"amount", true, .ok (some (.decimal (.finite false 15 (-1))))⟩], rfl, .cons ?_ .nil, rfl⟩)
  exact Attribute.read_eq_ok.2 ⟨rfl, rfl, .accepted rfl (by rintro ⟨⟩) rfl hrules⟩

/-- a price that is listed is accepted by the definition, and by the one that is loaded from its document it is not -/
theorem price_loaded_with_texts : (∃ p, price.parse .builtin 0 listedAmount = .ok p) ∧
    ∃ text e, price.dump .builtin = .ok text ∧ ofText CommandLine.workshop 0 text none = .ok e ∧
      ∀ p, e.parse .builtin 1 listedAmount ≠ .ok p := by
  obtain ⟨text, hdump, hload⟩ := loaded_with_texts rfl rfl price_given price_portable (by decide) price_legible
  obtain ⟨he, hwithin⟩ := hload 0
  refine ⟨⟨_, price_accepts⟩, text, _, hdump, he, fun p hp => ?_⟩
  have hnull := ((hwithin price (.here _)).2 amount List.mem_cons_self .decimal rfl (.inl rfl)).2 listedPrices
    List.mem_cons_self ⟨_, rfl, by simp [Value.hasType]⟩ _ listedAmount _ p rfl (parse_eq_ok.1 hp)
  cases hnull

end Definition

end Intake
