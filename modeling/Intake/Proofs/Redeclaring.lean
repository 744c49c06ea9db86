/-
Definitions written as documents are declared again from them.

A definition is written attribute by attribute, each as a configuration: its type, its nested attributes, whether
it is required, its default and its rules. For a declared definition whose defaults and rules a document can hold
(`Definition.Portable`) the configurations are plain data, and declaring them one after another gives back the
attributes (`Definition.Declared.redeclares`). Only the stamp that tells declarations apart is new
(`Definition.restamp`).
-/
import Intake.Proofs.Declared
import Intake.Proofs.RuleDescription

namespace Intake

open Intake.Outcome

/-! ## Another stamp -/

namespace Definition

mutual

/-- the definition, as if it had been declared under another stamp -/
def restamp (n : Nat) : Definition → Definition
  | ⟨_, name, attributes, settings⟩ => ⟨n, name, restampAll n attributes, settings⟩

def restampAll (n : Nat) : List Attribute → List Attribute
  | [] => []
  | a :: as => restampAttribute n a :: restampAll n as

def restampAttribute (n : Nat) : Attribute → Attribute
  | ⟨name, shape, required, default, rules⟩ => ⟨name, restampShape n shape, required, default, rules⟩

def restampShape (n : Nat) : Shape → Shape
  | .nested d => .nested (restamp n d)
  | .arrayOf d => .arrayOf (restamp n d)
  | .untyped => .untyped
  | .scalar t => .scalar t

end

theorem restamp_eq (n : Nat) (d : Definition) : d.restamp n = ⟨n, d.name, restampAll n d.attributes, d.settings⟩ := by
  cases d
  rfl

theorem restampAttribute_eq (n : Nat) (a : Attribute) :
    restampAttribute n a = ⟨a.name, restampShape n a.shape, a.required, a.default, a.rules⟩ := by
  cases a
  rfl

theorem restampAll_eq_map (n : Nat) (as : List Attribute) : restampAll n as = as.map (restampAttribute n) := by
  induction as with
  | nil => rfl
  | cons a as ih => rw [restampAll, ih, List.map_cons]

end Definition

/-! ## What a document can hold -/

/-- a default that a document can hold, beside what the attribute holds: one that the type keeps, or plain data
where no type casts it -/
def PortableDefault (shape : Shape) (v : Value) : Prop :=
  match shape with
  | .scalar t => v = .null ∨ KeptBy t v
  | _ => v.Plain

/-- an attribute of a built-in type, or of none, whose default and rules a document can hold -/
structure Attribute.Portable (a : Attribute) : Prop where
  type : ∀ c, a.shape ≠ .scalar (.custom c)
  default : ∀ v, a.default = some v → PortableDefault a.shape v
  rules : ∀ r ∈ a.rules, r.Portable

/-- a definition whose attributes a document can hold, at every level -/
inductive Definition.Portable : Definition → Prop where
  | mk {d : Definition} (ha : ∀ a ∈ d.attributes, a.Portable)
    (hd : ∀ a ∈ d.attributes, ∀ e, a.shape.definition? = some e → Portable e) : Portable d

/-! ## Configurations as fields -/

/-- a field, if there is anything to write under it -/
def optionalField (name : String) (v : Option Value) : Fields :=
  match v with
  | none => []
  | some v => [(name, v)]

/-- the fields of a configuration, in the order in which they are written -/
def configFields (type nested : Option Value) (required : Bool) (default : Option Value) (options : Fields) : Fields :=
  optionalField "type" type ++ (optionalField "attributes" nested ++
    (requiredField required ++ (optionalField "default" default ++ options)))

def leadingNames : List String := ["type", "attributes", "required", "default"]

theorem names_optionalField (name : String) (v : Option Value) : (optionalField name v).names.Sublist [name] := by
  cases v <;> simp [optionalField]

theorem requiredField_eq (required : Bool) :
    requiredField required = optionalField "required" (if required then some (.bool true) else none) := by
  cases required <;> rfl

theorem plain_optionalField {name : String} {v : Option Value} (hv : ∀ c, v = some c → c.Plain) :
    ∀ f ∈ optionalField name v, f.2.Plain := by
  cases v with
  | none => exact fun f hf => absurd hf List.not_mem_nil
  | some c => exact List.forall_mem_singleton.2 (hv c rfl)

/-- a configuration is plain data if its parts are -/
theorem plain_configFields {type : Option String} {nested default : Option Value} {required : Bool} {options : Fields}
    (hnested : ∀ c, nested = some c → c.Plain) (hdefault : ∀ c, default = some c → c.Plain)
    (hoptions : ∀ f ∈ options, f.2.Plain) :
    ∀ f ∈ configFields (type.map .text) nested required default options, f.2.Plain := by
  intro f hf
  simp only [configFields, requiredField_eq, List.mem_append] at hf
  rcases hf with hf | hf | hf | hf | hf
  · refine plain_optionalField (fun c hc => ?_) f hf
    obtain ⟨t, -, rfl⟩ := Option.map_eq_some_iff.1 hc
    exact .text t
  · exact plain_optionalField hnested f hf
  · refine plain_optionalField (fun c hc => ?_) f hf
    split at hc <;> cases hc
    exact .bool true
  · exact plain_optionalField hdefault f hf
  · exact hoptions f hf

theorem names_configFields (type nested : Option Value) (required : Bool) (default : Option Value) (options : Fields) :
    (configFields type nested required default options).names.Sublist (leadingNames ++ options.names) := by
  unfold configFields
  simp only [Fields.names_append, requiredField_eq]
  exact (names_optionalField _ _).append ((names_optionalField _ _).append ((names_optionalField _ _).append
    ((names_optionalField _ _).append (List.Sublist.refl _))))

/-- the names of a configuration are distinct, since no option is named like a field before it -/
theorem nodup_configFields {options : Fields} (hn : options.names.Nodup)
    (hl : ∀ name ∈ options.names, name ∉ leadingNames)
    (type nested : Option Value) (required : Bool) (default : Option Value) :
    (configFields type nested required default options).names.Nodup := by
  refine List.Nodup.sublist (names_configFields type nested required default options) ?_
  exact List.nodup_append.2 ⟨by decide, hn, fun x hx y hy e => hl y hy (e ▸ hx)⟩

theorem Parts.pop_optional (name : String) (before after : Fields) (hb : name ∉ before.names)
    (ha : name ∉ after.names) (v : Option Value) :
    Parts.pop name (before ++ (optionalField name v ++ after)).entries = (v, (before ++ after).entries) := by
  have hself : (optionalField name v).without name = [] := by
    cases v <;> simp [optionalField, Fields.without_cons_self]
  have hfound : (optionalField name v ++ after).lookup name = v := by
    cases v with
    | none => exact Fields.lookup_eq_none ha
    | some v => exact List.lookup_cons_self
  rw [Parts.pop_entries, Fields.lookup_append_right hb, hfound, Fields.without_append, Fields.without_append, hself,
    Fields.without_eq_self hb, Fields.without_eq_self ha, List.nil_append]

def blockOf (nested : Option Fields) : Block :=
  match nested with
  | none => .none
  | some fs => .document fs.entries

/-- the declaration that a written configuration stands for, once the default is cast -/
theorem declarationOf_configFields {known : List Definition} {name : Value} {type : Option String}
    {nested : Option Fields}
    {required : Bool} {written default : Option Value} {options : Fields}
    (hl : ∀ name ∈ options.names, name ∉ leadingNames)
    (hcast : castDefaultOption .builtin name (type.map .text) (nested.map .ofFields)
      (optionalField "default" written ++ options).entries = .ok (optionalField "default" default ++ options).entries) :
    declarationOf .builtin known name
        (configFields (type.map .text) (nested.map .ofFields) required written options).entries =
      .ok ⟨required, name, (type.map fun t => .value (.text t)).getD .none, blockOf nested,
        (optionalField "default" default ++ options).entries⟩ := by
  have absent {n m : String} {v : Option Value} (h : n ≠ m) : n ∉ (optionalField m v).names := by
    intro hn
    exact h (by simpa using (names_optionalField m v).subset hn)
  have other {n : String} (h : n ∈ leadingNames) : n ∉ options.names := fun hn => hl n hn h
  have hrequired : Parts.pop "required"
      (configFields (type.map .text) (nested.map .ofFields) required written options).entries =
      ((if required then some (.bool true) else none), (optionalField "type" (type.map .text) ++
        (optionalField "attributes" (nested.map .ofFields) ++
            (optionalField "default" written ++ options))).entries) := by
    have := Parts.pop_optional "required"
      (optionalField "type" (type.map .text) ++ optionalField "attributes" (nested.map .ofFields))
      (optionalField "default" written ++ options)
      (by simpa using ⟨absent (by decide), absent (by decide)⟩)
      (by simpa using ⟨absent (by decide), other (by decide)⟩)
      (if required then some (.bool true) else none)
    simpa only [configFields, requiredField_eq, List.append_assoc] using this
  have htype := Parts.pop_optional "type" [] (optionalField "attributes" (nested.map Value.ofFields) ++
      (optionalField "default" written ++ options)) (by simp)
    (by simpa using ⟨absent (by decide), absent (by decide), other (by decide)⟩) (type.map .text)
  have hnested := Parts.pop_optional "attributes" [] (optionalField "default" written ++ options) (by simp)
    (by simpa using ⟨absent (by decide), other (by decide)⟩) (nested.map .ofFields)
  rw [List.nil_append] at htype hnested
  have hgiven : Parts.given (type.map Value.text) = type.map .text := by cases type <;> rfl
  have hgiven' : Parts.given (nested.map Value.ofFields) = nested.map .ofFields := by cases nested <;> rfl
  have hflag : requiredFlag name (if required then some (.bool true) else none) = .ok required := by
    cases required <;> rfl
  have hblock : nestedBlock name (nested.map .ofFields) = .ok (blockOf nested) := by cases nested <;> rfl
  have htyped : ((type.map Value.text).map (documentType known)).getD .none =
      (type.map fun t => DeclaredType.value (.text t)).getD .none := by cases type <;> rfl
  unfold declarationOf
  simp only [hrequired, htype, hnested, hgiven, hgiven', hflag, hblock, hcast, htyped, ok_bind, List.nil_append]

/-! ## Defaults -/

theorem KeptBy.canonical_ne_null {t : ValueType} {v : Value} (h : KeptBy t v) : v.canonical ≠ .ok .null := by
  cases h with
  | array h => rw [h.canonical_eq]; nofun
  | hash h => rw [h.canonical_eq]; nofun
  | _ => nofun

theorem field?_optional_default {v : Option Value} {options : Fields} (h : "default" ∉ options.names) :
    Value.field? "default" (optionalField "default" v ++ options).entries = v := by
  rw [Value.field?_entries]
  cases v with
  | none => exact Fields.lookup_eq_none h
  | some v => exact List.lookup_cons_self

/-- without a default that the type casts, the options stay -/
theorem castDefaultOption_plain {name : Value} {type nested : Option Value} {written : Option Value} {options : Fields}
    (ho : "default" ∉ options.names) (h : type = none ∨ nested.isSome ∨ Parts.given written = none) :
    castDefaultOption .builtin name type nested (optionalField "default" written ++ options).entries =
      .ok (optionalField "default" written ++ options).entries := by
  unfold castDefaultOption
  rw [field?_optional_default ho]
  rcases h with rfl | h | h
  · cases nested <;> rfl
  · obtain ⟨v, rfl⟩ := Option.isSome_iff_exists.1 h
    rfl
  · rw [h]
    cases nested <;> cases type <;> rfl

/-- a default that its type keeps is cast back from what is written -/
theorem castDefaultOption_kept {name : Value} {t : ValueType} {type c v : Value} {options : Fields}
    (ho : "default" ∉ options.names) (ht : Registry.builtin.resolve type = .ok t) (hc : c ≠ .null)
    (hcast : Registry.builtin.cast t false c = .ok (.ok v)) :
    castDefaultOption .builtin name (some type) none (optionalField "default" (some c) ++ options).entries =
      .ok (optionalField "default" (some v) ++ options).entries := by
  have hgiven : Parts.given (some c) = some c := by
    unfold Parts.given
    split
    · rename_i h
      exact absurd (Option.some.inj h) hc
    · rfl
  have hdefault : castDefault .builtin name type c = .ok v := by
    simp only [castDefault, ht, hcast, ok_bind]
  unfold castDefaultOption
  rw [field?_optional_default ho, hgiven]
  simp only [hdefault, ok_bind]
  simp [optionalField, Value.insertEntry]

theorem resolve_typeName {t : ValueType} (h : ∀ c, t ≠ .custom c) :
    Registry.builtin.resolve (.text (Registry.builtin.typeName t)) = .ok t := by
  cases t with
  | custom c => exact absurd rfl (h c)
  | _ => rfl

/-! ## Attributes -/

namespace Shape

def writtenType (r : Registry) : Shape → Option String
  | .scalar t => some (r.typeName t)
  | .arrayOf _ => some "array"
  | _ => none

def declaredType : Shape → Option ValueType
  | .scalar t => some t
  | .arrayOf _ => some .array
  | _ => none

theorem resolve_writtenType {shape : Shape} (h : ∀ c, shape ≠ .scalar (.custom c)) :
    shape.writtenType .builtin = none ∧ shape.declaredType = none ∨ ∃ s t, shape.writtenType .builtin = some s ∧
      shape.declaredType = some t ∧ Registry.builtin.resolve (.text s) = .ok t := by
  cases shape with
  | untyped => exact .inl ⟨rfl, rfl⟩
  | nested d => exact .inl ⟨rfl, rfl⟩
  | arrayOf d => exact .inr ⟨_, _, rfl, rfl, rfl⟩
  | scalar t => exact .inr ⟨_, _, rfl, rfl, resolve_typeName fun c e => h c (e ▸ rfl)⟩

end Shape

/-- what fields declare: the attributes of a definition, plain data all of them -/
structure Definition.RedeclaredBy (w : Workshop) (left : Nat) (d : Definition) (fs : Fields) : Prop where
  fields : d.attributeFields .builtin = .ok fs
  plain : (Value.ofFields fs).Plain
  declares : ∀ n, Builder.declareDocument w left (.empty d.name d.settings n) fs.entries =
    .ok ⟨d.name, d.settings, n, restampAll n d.attributes⟩

/-- the fields of the definition inside a shape, if there is one -/
inductive Shape.InnerFields (w : Workshop) (left : Nat) : Shape → Option Fields → Prop where
  | untyped : InnerFields w left .untyped none
  | scalar (t : ValueType) : InnerFields w left (.scalar t) none
  | nested {d : Definition} {fs : Fields} (hl : 0 < left) (h : d.RedeclaredBy w (left - 1) fs) :
    InnerFields w left (.nested d) (some fs)
  | arrayOf {d : Definition} {fs : Fields} (hl : 0 < left) (h : d.RedeclaredBy w (left - 1) fs) :
    InnerFields w left (.arrayOf d) (some fs)

theorem Shape.InnerFields.toFields {w : Workshop} {left : Nat} {shape : Shape} {nested : Option Fields}
    (h : shape.InnerFields w left nested) : shape.toFields .builtin =
      .ok (optionalField "type" ((shape.writtenType .builtin).map .text) ++ optionalField "attributes"
          (nested.map .ofFields)) := by
  cases h with
  | untyped => rfl
  | scalar t => rfl
  | nested hl h => simp only [Shape.toFields, h.fields, ok_bind]; rfl
  | arrayOf hl h => simp only [Shape.toFields, h.fields, ok_bind]; rfl

/-- nested attributes stand alone, or beside the type of lists -/
theorem Shape.InnerFields.declaredType {w : Workshop} {left : Nat} {shape : Shape} {nested : Option Fields}
    (h : shape.InnerFields w left nested) (hn : nested.isSome) :
    shape.declaredType = none ∨ shape.declaredType = some .array := by
  cases h with
  | untyped => cases hn
  | scalar t => cases hn
  | nested hl h => exact .inl rfl
  | arrayOf hl h => exact .inr rfl

theorem Shape.InnerFields.plain {w : Workshop} {left : Nat} {shape : Shape} {fs : Fields}
    (h : shape.InnerFields w left (some fs)) : (Value.ofFields fs).Plain := by
  cases h with
  | nested hl h => exact h.plain
  | arrayOf hl h => exact h.plain

/-- a default as it is written, and as it is read beside the type and the nested attributes -/
theorem Attribute.Portable.writtenDefault {a : Attribute} (hp : a.Portable) {w : Workshop} {left : Nat}
    {nested : Option Fields} (hi : a.shape.InnerFields w left nested) {options : Fields}
    (ho : "default" ∉ options.names) :
    ∃ written, defaultField a.default = .ok (optionalField "default" written) ∧ (∀ c, written = some c → c.Plain) ∧
      ∀ name, castDefaultOption .builtin name ((a.shape.writtenType .builtin).map .text) (nested.map .ofFields)
        (optionalField "default" written ++ options).entries =
          .ok (optionalField "default" a.default ++ options).entries := by
  obtain ⟨aname, shape, required, default, rules⟩ := a
  dsimp only at hi ⊢
  have keeps {v : Value} (hv : v.Plain) (h : shape.writtenType .builtin = none ∨ nested.isSome) :
      ∃ written, defaultField (some v) = .ok (optionalField "default" written) ∧ (∀ c, written = some c → c.Plain) ∧
        ∀ name, castDefaultOption .builtin name ((shape.writtenType .builtin).map .text) (nested.map .ofFields)
          (optionalField "default" written ++ options).entries =
            .ok (optionalField "default" (some v) ++ options).entries := by
    refine ⟨some v, ?_, by rintro c ⟨⟩; exact hv, fun name => castDefaultOption_plain ho ?_⟩
    · simp only [defaultField, hv.canonical_eq, ok_bind]; rfl
    · rcases h with h | h
      · exact .inl (by rw [h]; rfl)
      · exact .inr (.inl (by simpa using h))
  cases default with
  | none => exact ⟨none, rfl, nofun, fun name => castDefaultOption_plain ho (.inr (.inr rfl))⟩
  | some v =>
    have hv := hp.default v rfl
    cases hi with
    | untyped => exact keeps hv (.inl rfl)
    | nested hl h => exact keeps hv (.inl rfl)
    | arrayOf hl h => exact keeps hv (.inr rfl)
    | scalar t =>
      rcases hv with rfl | hv
      · exact ⟨some .null, rfl, by rintro c ⟨⟩; exact .null, fun name => castDefaultOption_plain ho (.inr (.inr rfl))⟩
      · obtain ⟨c, hc, hplain, hcast⟩ := hv.cast_canonical
        have hne : c ≠ .null := by
          rintro rfl
          exact hv.canonical_ne_null hc
        have ht : ∀ c, t ≠ .custom c := fun c e => hp.type c (by rw [e])
        refine ⟨some c, ?_, by rintro c ⟨⟩; exact hplain, fun name => ?_⟩
        · simp only [defaultField, hc, ok_bind]; rfl
        · exact castDefaultOption_kept ho (resolve_typeName ht) hne hcast

/-- what a value declares: one attribute, plain data -/
structure Attribute.RedeclaredBy (w : Workshop) (left : Nat) (name : String) (s : Settings) (a : Attribute) (v : Value) :
    Prop where
  value : a.toValue .builtin = .ok v
  plain : v.Plain
  declares : ∀ b : Builder, b.name = name → b.settings = s → b.attributes.any (·.name == a.name) = false →
    ∃ d, Declaration.ofConfig w.registry w.known (.text a.name) v = .ok d ∧
      Builder.declare w left b d = .ok { b with attributes := b.attributes ++ [Definition.restampAttribute b.stamp a] }

/-- the declaration that an attribute is written as, given the fields of its definition and of its rules -/
def Attribute.redeclaration (a : Attribute) (nested : Option Fields) (options : Fields) : Declaration :=
  ⟨a.required, .text a.name, ((a.shape.writtenType .builtin).map fun t => .value (.text t)).getD .none, blockOf nested,
    (optionalField "default" a.default ++ options).entries⟩

theorem Rule.Portable.option_ne_validate {r : Rule} (h : r.Portable) : r.option ≠ "validate" := by
  cases h <;> simp [Rule.option]

/-- no option is named like another field or part of a declaration -/
theorem Rule.option_not_leading (r : Rule) : r.option ∉ leadingNames ∧ r.option ∉ Builder.partNames := by
  cases r <;> simp [Rule.option, leadingNames, Builder.partNames]

namespace Builder

/-- a name that was declared once can be declared where it is new -/
theorem checkName_of_sound {b : Builder} {a : Attribute} (hs : a.Sound)
    (hnew : b.attributes.any (·.name == a.name) = false) : b.checkName (.text a.name) = .ok a.name := by
  have hkey : normalizeKey (.text a.name) = .ok a.name := rfl
  have hfree : reservedNames.contains a.name = false := by simpa using hs.free
  simp only [checkName, hkey, ok_bind, hs.identifier, Bool.not_true, Bool.false_eq_true, if_false, if_neg hs.visible,
    hfree, hnew]

theorem checkOptionNames_entries {fs : Fields} (h : ∀ name ∈ fs.names, name ∉ partNames) :
    checkOptionNames fs.entries = .ok () := by
  refine if_pos (List.all_eq_true.2 fun o ho => ?_)
  obtain ⟨f, hf, rfl⟩ := List.mem_map.1 ho
  have := h f.1 (List.mem_map_of_mem hf)
  simpa [Value.text?] using this

/-- the options of a written configuration, with the default, are prepared -/
theorem prepare_of_sound {b : Builder} {a : Attribute} (hs : a.Sound) (ht : ∀ c, a.shape ≠ .scalar (.custom c))
    (hnew : b.attributes.any (·.name == a.name) = false) {nested : Option Fields}
    (hn : nested.isSome → a.shape.declaredType = none ∨ a.shape.declaredType = some .array) {options : Fields}
    (hl : ∀ name ∈ options.names, name ∉ leadingNames ∧ name ∉ partNames) :
    prepare .builtin b (a.redeclaration nested options) =
    .ok ⟨a.name, ((a.shape.writtenType .builtin).map fun t => .value (.text t)).getD .none, a.shape.declaredType,
        a.default, options.entries⟩ := by
  have hdefault : "default" ∉ options.names := fun h => (hl _ h).1 (by decide)
  have hpop :
      Parts.pop "default" (optionalField "default" a.default ++ options).entries = (a.default, options.entries) := by
    simpa using Parts.pop_optional "default" [] options (by simp) hdefault a.default
  have hpopped : popDefault (optionalField "default" a.default ++ options).entries = (a.default, options.entries) := by
    unfold popDefault
    rw [hpop]
    dsimp only
    split
    · rename_i h
      exact absurd h hs.given
    · rfl
  have hnames : checkOptionNames (optionalField "default" a.default ++ options).entries = .ok () := by
    refine checkOptionNames_entries fun name h => ?_
    rw [Fields.names_append] at h
    rcases List.mem_append.1 h with h | h
    · rw [List.mem_singleton.1 ((names_optionalField _ _).subset h)]
      decide
    · exact (hl name h).2
  have hoptional :
    (a.required && (Value.field? "default" (optionalField "default" a.default ++ options).entries).isSome) =
      false := by
    rw [field?_optional_default hdefault]
    cases hr : a.required with
    | false => rfl
    | true => rw [hs.optional hr]; rfl
  rw [prepare_eq]
  unfold Attribute.redeclaration
  simp only [hnames, ok_bind, hoptional, Bool.false_eq_true, if_false, checkName_of_sound hs hnew]
  rcases Shape.resolve_writtenType ht with ⟨hw, hd⟩ | ⟨s, t, hw, hd, hres⟩
  · rw [hw, hd]
    simp only [Option.map_none, Option.getD_none, declaredScalar, ok_bind, fitted, hpopped]
    rfl
  · rw [hw, hd]
    have hfits : (some t).any (fun t => hasBlock (blockOf nested) && t != .array) = false := by
      cases nested with
      | none => rfl
      | some fs =>
        rcases hn rfl with h | h
        · rw [hd] at h; cases h
        · rw [hd] at h; cases h; rfl
    simp only [Option.map_some, Option.getD_some, declaredScalar, hres, Except.map, fitted, hpopped, hfits, ok_bind,
      Bool.false_eq_true, if_false]

/-- the block of written attributes builds the definition that they were written for, under the builder's stamp -/
theorem buildBlock_blockOf {w : Workshop} {left : Nat} {b : Builder} {a : Attribute} {nested : Option Fields}
    (hi : a.shape.InnerFields w left nested)
    (hd : ∀ e, a.shape.definition? = some e → e.name = b.name ++ "." ++ a.name ∧ e.settings = b.settings) :
    buildBlock w left b a.name (blockOf nested) = .ok (a.shape.definition?.map (Definition.restamp b.stamp)) := by
  have builds {e : Definition} {fs : Fields} (hl : 0 < left) (h : e.RedeclaredBy w (left - 1) fs)
      (he : a.shape.definition? = some e) :
      buildBlock w left b a.name (.document fs.entries) = .ok (some (e.restamp b.stamp)) := by
    obtain ⟨hname, hsettings⟩ := hd e he
    obtain ⟨k, rfl⟩ := Nat.exists_eq_succ_of_ne_zero (Nat.pos_iff_ne_zero.1 hl)
    have hdeclares := h.declares b.stamp
    rw [hname, hsettings] at hdeclares
    rw [buildBlock]
    simp only [Nat.succ_sub_one] at hdeclares
    simp only [inner, hdeclares, ok_bind, Definition.restamp_eq, hname, hsettings]
    rfl
  revert builds hd
  generalize a.shape = shape at hi
  intro hd builds
  cases hi with
  | untyped => rw [blockOf, buildBlock]; rfl
  | scalar t => rw [blockOf, buildBlock]; rfl
  | nested hl h => exact builds hl h rfl
  | arrayOf hl h => exact builds hl h rfl

theorem shapeOf_declared {w : Workshop} {left : Nat} {shape : Shape} {nested : Option Fields} {name : String}
    {default : Option Value} {options : List (Value × Value)} (hi : shape.InnerFields w left nested) (n : Nat) :
    shapeOf ⟨name, ((shape.writtenType .builtin).map fun t => .value (.text t)).getD .none, shape.declaredType,
      default, options⟩
      (shape.definition?.map (Definition.restamp n)) = Definition.restampShape n shape := by
  cases hi <;> rfl

end Builder

/-- **An attribute is declared again from what it is written as.** -/
theorem Attribute.Portable.redeclared {w : Workshop} (hw : w.registry = .builtin) {left : Nat} {name : String}
    {s : Settings}
    {a : Attribute} (hs : a.Sound) (hp : a.Portable) {nested : Option Fields} (hi : a.shape.InnerFields w left nested)
    (hd : ∀ e, a.shape.definition? = some e → e.name = name ++ "." ++ a.name ∧ e.settings = s) :
    ∃ v, a.RedeclaredBy w left name s v := by
  obtain ⟨options, hdesc, hnames, hplain, hbuild⟩ := buildRules_describeRules hs.built hp.rules
  have hkinds : options.names.Nodup := by
    rw [hnames]
    exact hs.kinds fun r hr => (hp.rules r hr).option_ne_validate
  have hother : ∀ name ∈ options.names, name ∉ leadingNames ∧ name ∉ Builder.partNames := by
    intro name hname
    rw [hnames] at hname
    obtain ⟨r, -, rfl⟩ := List.mem_map.1 hname
    exact r.option_not_leading
  have hleading : ∀ name ∈ options.names, name ∉ leadingNames := fun name h => (hother name h).1
  obtain ⟨written, hdefault, hwritten, hcast⟩ := hp.writtenDefault hi fun h => hleading _ h (by decide)
  have hnodup := nodup_configFields hkinds hleading ((a.shape.writtenType .builtin).map .text) (nested.map .ofFields)
    a.required written
  refine ⟨.ofFields (configFields ((a.shape.writtenType .builtin).map .text)
    (nested.map .ofFields) a.required written options),
    ?_, ?_, ?_⟩
  · have hfields := hi.toFields
    have hwrites : (optionalField "type" ((a.shape.writtenType .builtin).map .text) ++
        optionalField "attributes" (nested.map Value.ofFields) ++ requiredField a.required ++
        optionalField "default" written ++ options) = configFields ((a.shape.writtenType .builtin).map .text)
          (nested.map .ofFields) a.required written options := by
      simp only [configFields, List.append_assoc]
    have hentries := Value.ofEntries_entries hnodup
    rw [← hwrites] at hentries ⊢
    obtain ⟨aname, shape, required, default, rules⟩ := a
    dsimp only at hfields hdefault hdesc hentries ⊢
    unfold Attribute.toValue
    simp only [hfields, hdefault, hdesc, ok_bind]
    exact congrArg (fun es => Except.ok (Value.map false es)) hentries
  · refine .map hnodup (plain_configFields (fun c hc => ?_) hwritten hplain)
    obtain ⟨fs, rfl, rfl⟩ := Option.map_eq_some_iff.1 hc
    exact hi.plain
  · intro b hname hsettings hnew
    refine ⟨a.redeclaration nested options, ?_, ?_⟩
    · rw [hw, ofConfig_eq]
      exact declarationOf_configFields hleading (hcast _)
    · have hinside : ∀ e, a.shape.definition? = some e → e.name = b.name ++ "." ++ a.name ∧ e.settings = b.settings := by
        rw [hname, hsettings]
        exact hd
      have hprep := Builder.prepare_of_sound hs hp.type hnew hi.declaredType hother
      have hblock := Builder.buildBlock_blockOf hi hinside
      rw [Builder.declare, hw]
      simp only [hprep, ok_bind]
      have hblock' : Builder.buildBlock w left b a.name (a.redeclaration nested options).block = _ := hblock
      simp only [hblock', ok_bind, Builder.append, hbuild, Builder.shapeOf_declared hi, Definition.restampAttribute_eq]
      rfl

/-! ## Definitions -/

theorem redeclared_all {w : Workshop} {left : Nat} {name : String} {s : Settings} {as : List Attribute}
    (h : ∀ a ∈ as, ∃ v, a.RedeclaredBy w left name s v) :
    ∃ fs : Fields, attributesFields .builtin as = .ok fs ∧ fs.names = as.map (·.name) ∧ (∀ f ∈ fs, f.2.Plain) ∧
      ∀ b : Builder, b.name = name → b.settings = s → ((b.attributes ++ as).map (·.name)).Nodup →
        Builder.declareDocument w left b fs.entries =
          .ok { b with attributes := b.attributes ++ Definition.restampAll b.stamp as } := by
  induction as with
  | nil =>
    refine ⟨[], rfl, rfl, by simp, fun b _ _ _ => ?_⟩
    rw [Fields.entries_nil, Builder.declareDocument]
    simp [Definition.restampAll]
  | cons a as ih =>
    obtain ⟨hhead, htail⟩ := List.forall_mem_cons.1 h
    obtain ⟨v, hv⟩ := hhead
    obtain ⟨fs, hfields, hnames, hplain, hdeclares⟩ := ih htail
    refine ⟨(a.name, v) :: fs, ?_, by rw [Fields.names_cons, hnames]; rfl, List.forall_mem_cons.2 ⟨hv.plain, hplain⟩, ?_⟩
    · simp only [attributesFields, hv.value, hfields, ok_bind]
    · intro b hname hsettings hnodup
      have hnew : b.attributes.any (·.name == a.name) = false := by
        refine List.any_eq_false.2 fun x hx => ?_
        have hne : x.name ≠ a.name := by
          rw [List.map_append, List.nodup_append] at hnodup
          exact hnodup.2.2 _ (List.mem_map_of_mem hx) _ (List.mem_map_of_mem List.mem_cons_self)
        simpa using hne
      obtain ⟨d, hd, hdecl⟩ := hv.declares b hname hsettings hnew
      have hrest := hdeclares { b with attributes := b.attributes ++ [Definition.restampAttribute b.stamp a] } hname
        hsettings (by simpa [Definition.restampAttribute_eq] using hnodup)
      rw [Fields.entries_cons, Builder.declareDocument]
      simp only [hd, hdecl, hrest, ok_bind, Definition.restampAll, List.append_assoc, List.singleton_append]

/-- **A declared definition that a document can hold is declared again from what it is written as.** -/
theorem Definition.Declared.redeclared {w : Workshop} (hw : w.registry = .builtin) {s : Settings} {stamp left : Nat}
    {d : Definition} (h : d.Declared s stamp left) (hp : d.Portable) : ∃ fs, d.RedeclaredBy w left fs := by
  induction h with
  | @mk left name attributes hn ha hl hname hd ih =>
    cases hp with
    | mk hpa hpd =>
    dsimp only at hpa hpd
    have hinner : ∀ a ∈ attributes, ∃ nested, a.shape.InnerFields w left nested := by
      intro a hmem
      cases hs : a.shape with
      | untyped => exact ⟨none, .untyped⟩
      | scalar t => exact ⟨none, .scalar t⟩
      | nested e =>
        have he : a.shape.definition? = some e := by rw [hs]; rfl
        obtain ⟨fs, hfs⟩ := ih a hmem e he (hpd a hmem e he)
        exact ⟨some fs, .nested (hl a hmem (by rw [he]; rfl)) hfs⟩
      | arrayOf e =>
        have he : a.shape.definition? = some e := by rw [hs]; rfl
        obtain ⟨fs, hfs⟩ := ih a hmem e he (hpd a hmem e he)
        exact ⟨some fs, .arrayOf (hl a hmem (by rw [he]; rfl)) hfs⟩
    have hattributes : ∀ a ∈ attributes, ∃ v, a.RedeclaredBy w left name s v := by
      intro a hmem
      obtain ⟨nested, hi⟩ := hinner a hmem
      refine (hpa a hmem).redeclared hw (ha a hmem) hi fun e he => ⟨hname a hmem e he, ?_⟩
      cases hd a hmem e he
      rfl
    obtain ⟨fs, hfields, hnames, hplain, hdeclares⟩ := redeclared_all hattributes
    refine ⟨fs, hfields, .map (by rwa [hnames]) hplain, fun n => ?_⟩
    have := hdeclares (.empty name s n) rfl rfl (by simpa [Builder.empty] using hn)
    simpa [Builder.empty] using this

end Intake
