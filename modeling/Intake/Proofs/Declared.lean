/-
What declared definitions are like.

A definition that is declared with blocks inside it, or by a document, holds what its builder checked, at every
level: names that can be declared, each once, no default beside a requirement, rules of distinct kinds, the
builder's settings, the names of nested definitions made of the names on the way, and no more levels than are
allowed (`Definition.Declared`).

A declared attribute keeps it (`Builder.continues_of_declare`), and so do all declarations one after another
(`Builder.continues_of_declareAll`, `Builder.continues_of_declareDocument`), as deep as blocks go
(`Builder.builds_of_inline`). So it holds of every definition (`Definition.declared_of_define`,
`Definition.declared_of_ofDocument`).
-/
import Intake.Definition.Document
import Intake.Proofs.RuleBuilding

namespace Intake

open Intake.Outcome

/-! ## Declarations without built definitions -/

/-- the texts among the keys are distinct, as the keys of any mapping are -/
def DistinctTexts (es : List (Value × Value)) : Prop := (es.filterMap (·.1.text?)).Nodup

/-- every mapping that is reached through mappings has distinct texts among its keys -/
inductive Value.Keyed : Value → Prop where
  | map {readOnly : Bool} {es : List (Value × Value)} (hn : DistinctTexts es) (h : ∀ e ∈ es, Keyed e.2) :
    Keyed (.map readOnly es)
  | other {v : Value} (h : v.entries? = none) : Keyed v

/-- a block that declares its attributes itself, at every level -/
inductive Block.Inline : Block → Prop where
  | none : Inline .none
  | value (v : Value) : Inline (.value v)
  | declarations {ds : List Declaration} (ht : ∀ d ∈ ds, ∀ e, d.type ≠ .definition e)
    (ho : ∀ d ∈ ds, DistinctTexts d.options) (hb : ∀ d ∈ ds, Inline d.block) : Inline (.declarations ds)
  | document {es : List (Value × Value)} (h : ∀ e ∈ es, e.2.Keyed) : Inline (.document es)

/-- a declaration without built definitions -/
structure Declaration.Inline (d : Declaration) : Prop where
  type : ∀ e, d.type ≠ .definition e
  options : DistinctTexts d.options
  block : d.block.Inline

/-! ## The invariant -/

/-- what a builder checks of an attribute -/
structure Attribute.Sound (a : Attribute) : Prop where
  identifier : Text.isIdentifier a.name.toList = true
  visible : a.name.toList.head? ≠ some '_'
  free : a.name ∉ reservedNames
  optional : a.required = true → a.default = none
  given : a.default ≠ some .missing
  built : ∀ r ∈ a.rules, r.Built
  kinds : (∀ r ∈ a.rules, r.option ≠ "validate") → (a.rules.map Rule.option).Nodup

/-- what a builder makes, with `left` more levels allowed below: sound attributes under distinct names, and
definitions of the same settings inside them, which are named after the way to them -/
inductive Definition.Declared (s : Settings) (stamp : Nat) : Nat → Definition → Prop where
  | mk {left : Nat} {name : String} {attributes : List Attribute} (hn : (attributes.map (·.name)).Nodup)
    (ha : ∀ a ∈ attributes, a.Sound) (hl : ∀ a ∈ attributes, a.shape.definition?.isSome → 0 < left)
    (hname : ∀ a ∈ attributes, ∀ e, a.shape.definition? = some e → e.name = name ++ "." ++ a.name)
    (hd : ∀ a ∈ attributes, ∀ e, a.shape.definition? = some e → Declared s stamp (left - 1) e) :
    Declared s stamp left ⟨stamp, name, attributes, s⟩

namespace Builder

/-- what the builder has made so far is declared -/
def Sound (left : Nat) (b : Builder) : Prop := b.build.Declared b.settings b.stamp left

theorem sound_empty (left : Nat) (name : String) (settings : Settings) (stamp : Nat) :
    (empty name settings stamp).Sound left :=
  .mk (by simp [empty]) (by simp [empty]) (by simp [empty]) (by simp [empty]) (by simp [empty])

theorem sound_append {left : Nat} {b : Builder} {a : Attribute} (hb : b.Sound left) (ha : a.Sound)
    (hnew : b.attributes.any (·.name == a.name) = false)
    (hd : ∀ e, a.shape.definition? = some e → 0 < left ∧ e.name = b.name ++ "." ++ a.name ∧
      e.Declared b.settings b.stamp (left - 1)) :
    ({ b with attributes := b.attributes ++ [a] } : Builder).Sound left := by
  cases hb with
  | mk hn hall hl hname hdecl =>
    have hfresh : a.name ∉ b.attributes.map (·.name) := by
      intro h
      obtain ⟨x, hx, he⟩ := List.mem_map.1 h
      have := List.any_eq_false.1 hnew x hx
      simp [he] at this
    refine .mk ?_ ?_ ?_ ?_ ?_
    · rw [List.map_append, List.map_singleton, List.nodup_append]
      refine ⟨hn, List.nodup_singleton _, fun x hx y hy => ?_⟩
      rw [List.mem_singleton.1 hy]
      exact fun e => hfresh (e ▸ hx)
    · intro x hx
      rcases List.mem_append.1 hx with hx | hx
      · exact hall x hx
      · rw [List.mem_singleton.1 hx]; exact ha
    · intro x hx h
      rcases List.mem_append.1 hx with hx | hx
      · exact hl x hx h
      · rw [List.mem_singleton.1 hx] at h
        obtain ⟨e, he⟩ := Option.isSome_iff_exists.1 h
        exact (hd e he).1
    · intro x hx e he
      rcases List.mem_append.1 hx with hx | hx
      · exact hname x hx e he
      · rw [List.mem_singleton.1 hx] at he ⊢
        exact (hd e he).2.1
    · intro x hx e he
      rcases List.mem_append.1 hx with hx | hx
      · exact hdecl x hx e he
      · rw [List.mem_singleton.1 hx] at he
        exact (hd e he).2.2

/-! ## Preparing an attribute -/

theorem of_checkName {b : Builder} {given : Value} {name : String} (h : b.checkName given = .ok name) :
    normalizeKey given = .ok name ∧ Text.isIdentifier name.toList = true ∧ name.toList.head? ≠ some '_' ∧
      name ∉ reservedNames ∧ b.attributes.any (·.name == name) = false := by
  obtain ⟨n, hn, h⟩ := bind_eq_ok.1 h
  split at h
  · cases h
  · rename_i hid
    split at h
    · cases h
    · rename_i hlow
      split at h
      · cases h
      · rename_i hres
        split at h
        · cases h
        · rename_i hany
          cases h
          exact ⟨hn, by simpa using hid, hlow, by simpa using hres, by simpa using hany⟩

theorem popDefault_ne_missing (options : List (Value × Value)) : (popDefault options).1 ≠ some .missing := by
  unfold popDefault
  dsimp only [Parts.pop]
  split
  · simp
  · rename_i h
    exact h

theorem popDefault_of_none {options : List (Value × Value)} (h : Value.field? "default" options = none) :
    (popDefault options).1 = none := by
  unfold popDefault
  dsimp only [Parts.pop]
  rw [h]

theorem snd_popDefault (options : List (Value × Value)) : (popDefault options).2 = Value.removeKey "default" options := by
  unfold popDefault
  dsimp only [Parts.pop]
  split <;> rfl

/-- the scalar type of a declaration, if it gives one -/
def declaredScalar (r : Registry) (name : String) (d : Declaration) : Outcome (Option ValueType) :=
  match d.type with
  | .none => .ok none
  | .definition _ => if hasBlock d.block then refuse (.twoSchemas name) else .ok none
  | .value v => (r.resolve v).map some

/-- a declaration whose type can stand beside its block -/
def fitted (name : String) (d : Declaration) (scalar : Option ValueType) : Outcome Prepared :=
  if scalar.any (fun t => hasBlock d.block && t != .array) then
    refuse (.scalarWithBlock name ((scalar.map ValueType.className).getD ""))
  else .ok ⟨name, d.type, scalar, (popDefault d.options).1, (popDefault d.options).2⟩

theorem prepare_eq (r : Registry) (b : Builder) (d : Declaration) : prepare r b d = (do
    checkOptionNames d.options
    if d.required && (Value.field? "default" d.options).isSome then refuse (.requiredDefault (← d.name.plain))
    else
      let name ← b.checkName d.name
      let scalar ← declaredScalar r name d
      fitted name d scalar) := by
  unfold prepare declaredScalar fitted
  cases d.type with
  | none => rfl
  | value v => dsimp only; cases r.resolve v <;> rfl
  | definition e => dsimp only; cases hasBlock d.block <;> rfl

/-- what is known of a declaration that is prepared -/
structure Prepares (b : Builder) (d : Declaration) (p : Prepared) : Prop where
  named : b.checkName d.name = .ok p.name
  texts : ∀ o ∈ d.options, o.1.text?.isSome
  default : p.default = (popDefault d.options).1
  options : p.options = (popDefault d.options).2
  optional : d.required = true → p.default = none
  type : p.type = d.type

theorem of_prepare {r : Registry} {b : Builder} {d : Declaration} {p : Prepared} (h : prepare r b d = .ok p) :
    Prepares b d p := by
  rw [prepare_eq] at h
  obtain ⟨u, hnames, h⟩ := bind_eq_ok.1 h
  have htexts : ∀ o ∈ d.options, o.1.text?.isSome := by
    unfold checkOptionNames at hnames
    split at hnames
    · rename_i hall
      intro o ho
      have := List.all_eq_true.1 hall o ho
      cases ht : o.1.text? with
      | none => simp [ht] at this
      | some s => rfl
    · cases hnames
  split at h
  · obtain ⟨s, -, h⟩ := bind_eq_ok.1 h
    cases h
  · rename_i hreq
    obtain ⟨name, hname, h⟩ := bind_eq_ok.1 h
    obtain ⟨scalar, -, h⟩ := bind_eq_ok.1 h
    unfold fitted at h
    split at h
    · cases h
    · cases h
      refine ⟨hname, htexts, rfl, rfl, fun hr => popDefault_of_none ?_, rfl⟩
      simpa [hr] using hreq

/-! ## Declaring an attribute -/

/-- a builder that goes on with what another began -/
structure Continues (left : Nat) (b b' : Builder) : Prop where
  sound : b'.Sound left
  name : b'.name = b.name
  settings : b'.settings = b.settings
  stamp : b'.stamp = b.stamp

theorem Continues.trans {left : Nat} {b b' b'' : Builder} (h : b.Continues left b') (h' : b'.Continues left b'') :
    b.Continues left b'' :=
  ⟨h'.sound, h'.name.trans h.name, h'.settings.trans h.settings, h'.stamp.trans h.stamp⟩

/-- what a block builds inside a builder is declared, one level further down -/
def Builds (w : Workshop) (left : Nat) (block : Block) : Prop :=
  ∀ (b : Builder) (name : String) (e : Definition), buildBlock w left b name block = .ok (some e) →
    0 < left ∧ e.name = b.name ++ "." ++ name ∧ e.Declared b.settings b.stamp (left - 1)

theorem optionNames_nodup {options : List (Value × Value)} (h : DistinctTexts options)
    (ht : ∀ o ∈ options, o.1.text?.isSome) : (optionNames options).Nodup := by
  have hsome : (options.filterMap (·.1.text?)).map some = optionNames options := by
    unfold optionNames
    clear h
    induction options with
    | nil => rfl
    | cons o os ih =>
      obtain ⟨s, hs⟩ := Option.isSome_iff_exists.1 (ht o List.mem_cons_self)
      have := ih fun o ho => ht o (List.mem_cons_of_mem _ ho)
      simp only [List.filterMap_cons, hs, List.map_cons, this]
  rw [← hsome]
  exact h.map fun _ _ => Option.some.inj

/-- the definition inside an attribute is that of its block -/
theorem definition?_shapeOf {p : Prepared} {block : Option Definition} {e : Definition}
    (ht : ∀ e, p.type ≠ .definition e) (h : (shapeOf p block).definition? = some e) : block = some e := by
  unfold shapeOf at h
  split at h
  · exact h
  · exact h
  · rename_i he
    exact absurd he (ht _)
  · cases h
  · cases h

theorem continues_of_declare {w : Workshop} {left : Nat} {b b' : Builder} {d : Declaration} (hd : d.Inline)
    (hblock : Builds w left d.block) (hb : b.Sound left) (h : declare w left b d = .ok b') : b.Continues left b' := by
  unfold declare at h
  obtain ⟨p, hp, h⟩ := bind_eq_ok.1 h
  obtain ⟨block, hbuild, h⟩ := bind_eq_ok.1 h
  obtain ⟨rules, hrules, h⟩ := bind_eq_ok.1 h
  cases h
  have prep := of_prepare hp
  obtain ⟨-, hid, hvis, hfree, hnew⟩ := of_checkName prep.named
  have hsub : p.options.Sublist d.options := by
    rw [prep.options, snd_popDefault]
    exact List.filter_sublist
  have hnodup : (optionNames p.options).Nodup := (optionNames_nodup hd.options prep.texts).sublist (hsub.map _)
  obtain ⟨hbuilt, hkinds⟩ := built_of_buildRules hrules
  have ha : Attribute.Sound ⟨p.name, shapeOf p block, d.required, p.default, rules⟩ :=
    { identifier := hid, visible := hvis, free := hfree, optional := prep.optional
      given := by rw [prep.default]; exact popDefault_ne_missing _
      built := hbuilt, kinds := hkinds hnodup }
  refine ⟨sound_append hb ha hnew fun e he => ?_, rfl, rfl, rfl⟩
  obtain rfl := definition?_shapeOf (by rw [prep.type]; exact hd.type) he
  exact hblock b p.name e hbuild

theorem continues_of_declareAll {w : Workshop} {left : Nat} {ds : List Declaration} (hd : ∀ d ∈ ds, d.Inline)
    (hblocks : ∀ block : Block, block.Inline → Builds w left block) {b b' : Builder} (hb : b.Sound left)
    (h : declareAll w left b ds = .ok b') : b.Continues left b' := by
  induction ds generalizing b with
  | nil =>
    rw [declareAll] at h
    cases h
    exact ⟨hb, rfl, rfl, rfl⟩
  | cons d ds ih =>
    rw [declareAll] at h
    obtain ⟨c, hc, h⟩ := bind_eq_ok.1 h
    obtain ⟨hhead, htail⟩ := List.forall_mem_cons.1 hd
    have hstep := continues_of_declare hhead (hblocks _ hhead.block) hb hc
    exact hstep.trans (ih htail hstep.sound h)

end Builder

/-! ## Configurations -/

theorem DistinctTexts.sublist {es fs : List (Value × Value)} (h : DistinctTexts es) (hs : fs.Sublist es) :
    DistinctTexts fs :=
  List.Nodup.sublist (hs.filterMap _) h

theorem keys_insertEntry {k v : Value} {es : List (Value × Value)} (h : es.any fun e => k.sameKey e.1) :
    (Value.insertEntry k v es).map (·.1) = es.map (·.1) := by
  induction es with
  | nil => cases h
  | cons e es ih =>
    obtain ⟨l, w⟩ := e
    unfold Value.insertEntry
    by_cases hk : k.sameKey l = true
    · simp [hk]
    · rw [if_neg hk]
      simp only [List.any_cons, hk, Bool.false_or] at h
      rw [List.map_cons, List.map_cons, ih h]

theorem distinctTexts_of_castDefaultOption {r : Registry} {name : Value} {type nested : Option Value}
    {options options' : List (Value × Value)} (ho : DistinctTexts options)
    (h : castDefaultOption r name type nested options = .ok options') : DistinctTexts options' := by
  unfold castDefaultOption at h
  split at h
  · rename_i d hd
    obtain ⟨v, -, h⟩ := bind_eq_ok.1 h
    cases h
    obtain ⟨e, he, hsame, -⟩ := any_of_field? (field?_of_given hd)
    have hkeys := keys_insertEntry (v := v) (List.any_eq_true.2 ⟨e, he, hsame⟩)
    unfold DistinctTexts at ho ⊢
    have hmap (es : List (Value × Value)) : es.filterMap (·.1.text?) = (es.map (·.1)).filterMap Value.text? := by
      rw [List.filterMap_map]
      rfl
    rwa [hmap, hkeys, ← hmap]
  · cases h
    exact ho

/-- the parts of a configuration have distinct names, and what they hold is keyed -/
theorem keyed_of_configParts {name config : Value} {parts : List (Value × Value)} (hc : config.Keyed)
    (h : configParts name config = .ok parts) : DistinctTexts parts ∧ ∀ e ∈ parts, e.2.Keyed := by
  unfold configParts at h
  split at h
  · cases h
    exact ⟨List.nodup_nil, by simp⟩
  · cases h
    cases hc with
    | map hn h => exact ⟨hn, h⟩
    | other h => cases h
  · split at h
    · cases h
      exact ⟨by simp [DistinctTexts, Value.text?], by simpa using hc⟩
    · obtain ⟨s, -, h⟩ := bind_eq_ok.1 h
      cases h

def requiredFlag (name : Value) (required : Option Value) : Outcome Bool :=
  match required.getD (.bool false) with
  | .bool isRequired => .ok isRequired
  | _ => do refuse (.requiredNotBoolean (← name.plain))

/-- the block of a configuration: the mapping of its attributes, if it has any -/
def nestedBlock (name : Value) (nested : Option Value) : Outcome Block :=
  match nested with
  | none => .ok .none
  | some (.map _ es) => .ok (.document es)
  | some _ => do refuse (.attributesNotMapping (← name.plain))

/-- the declaration that the parts of a configuration stand for -/
def declarationOf (r : Registry) (known : List Definition) (name : Value) (parts : Parts) : Outcome Declaration := do
  let (required, parts) := Parts.pop "required" parts
  let (type, parts) := Parts.pop "type" parts
  let (nested, parts) := Parts.pop "attributes" parts
  let isRequired ← requiredFlag name required
  let block ← nestedBlock name (Parts.given nested)
  let options ← castDefaultOption r name (Parts.given type) (Parts.given nested) parts
  .ok ⟨isRequired, name, ((Parts.given type).map (documentType known)).getD .none, block, options⟩

theorem ofConfig_eq (r : Registry) (known : List Definition) (name config : Value) :
    Declaration.ofConfig r known name config = configParts name config >>= declarationOf r known name := by
  unfold Declaration.ofConfig declarationOf requiredFlag nestedBlock
  refine congrArg _ (funext fun parts => ?_)
  dsimp only
  generalize (Parts.pop "required" parts).1.getD (.bool false) = flag
  generalize Parts.given (Parts.pop "attributes" (Parts.pop "type" (Parts.pop "required" parts).2).2).1 = nested
  cases flag with
  | bool isRequired =>
    cases nested with
    | none => rfl
    | some v => cases v <;> cases name.plain <;> rfl
  | _ => cases name.plain <;> rfl

theorem documentType_nil (v : Value) : documentType [] v = .value v := by
  unfold documentType
  split <;> rfl

theorem inline_of_ofConfig {r : Registry} {name config : Value} {d : Declaration} (hc : config.Keyed)
    (h : Declaration.ofConfig r [] name config = .ok d) : d.Inline := by
  rw [ofConfig_eq] at h
  obtain ⟨parts, hparts, h⟩ := bind_eq_ok.1 h
  obtain ⟨hnames, hkeyed⟩ := keyed_of_configParts hc hparts
  unfold declarationOf at h
  dsimp only [Parts.pop] at h
  obtain ⟨isRequired, -, h⟩ := bind_eq_ok.1 h
  obtain ⟨block, hblock, h⟩ := bind_eq_ok.1 h
  obtain ⟨options, hoptions, h⟩ := bind_eq_ok.1 h
  cases h
  have hsub : ∀ (name : String) (es : List (Value × Value)), (Value.removeKey name es).Sublist es :=
    fun _ _ => List.filter_sublist
  refine ⟨fun e => ?_, ?_, ?_⟩
  · dsimp only
    cases Parts.given (Value.field? "type" (Value.removeKey "required" parts)) with
    | none => nofun
    | some v => simp [documentType_nil]
  · refine distinctTexts_of_castDefaultOption (hnames.sublist ?_) hoptions
    exact (hsub _ _).trans ((hsub _ _).trans (hsub _ _))
  · unfold nestedBlock at hblock
    split at hblock
    · cases hblock
      exact .none
    · rename_i es hes
      cases hblock
      have hfield : Value.field? "attributes" (Value.removeKey "type" (Value.removeKey "required" parts)) =
          some (.map _ es) := field?_of_given hes
      obtain ⟨f, hf, -, hv⟩ := any_of_field? hfield
      have := hkeyed f ((hsub _ _).subset ((hsub _ _).subset hf))
      rw [hv] at this
      cases this with
      | map hn h => exact .document h
      | other h => cases h
    · obtain ⟨s, -, hblock⟩ := bind_eq_ok.1 hblock
      cases hblock

namespace Builder

theorem continues_of_declareDocument {w : Workshop} {left : Nat} {es : List (Value × Value)} (hk : w.known = [])
    (he : ∀ e ∈ es, e.2.Keyed) (hblocks : ∀ block : Block, block.Inline → Builds w left block) {b b' : Builder}
    (hb : b.Sound left) (h : declareDocument w left b es = .ok b') : b.Continues left b' := by
  induction es generalizing b with
  | nil =>
    rw [declareDocument] at h
    cases h
    exact ⟨hb, rfl, rfl, rfl⟩
  | cons e es ih =>
    obtain ⟨name, config⟩ := e
    rw [declareDocument] at h
    obtain ⟨d, hd, h⟩ := bind_eq_ok.1 h
    obtain ⟨c, hc, h⟩ := bind_eq_ok.1 h
    obtain ⟨hhead, htail⟩ := List.forall_mem_cons.1 he
    rw [hk] at hd
    have hinline := inline_of_ofConfig hhead hd
    have hstep := continues_of_declare hinline (hblocks _ hinline.block) hb hc
    exact hstep.trans (ih htail hstep.sound h)

/-- **Blocks build declared definitions**, as deep as is allowed -/
theorem builds_of_inline {w : Workshop} (hk : w.known = []) (left : Nat) :
    ∀ block : Block, block.Inline → Builds w left block := by
  induction left with
  | zero =>
    intro block hi b name e h
    cases hi with
    | none => simp [buildBlock] at h
    | value v =>
      unfold buildBlock at h
      dsimp only at h
      split at h <;> cases h
    | declarations => simp [buildBlock, refuse] at h
    | document => simp [buildBlock, refuse] at h
  | succ left ih =>
    intro block hi b name e h
    have hstart := sound_empty left (b.name ++ "." ++ name) b.settings b.stamp
    have done {c : Builder} (hc : (b.inner name).Continues left c) : 0 < left + 1 ∧
        c.build.name = b.name ++ "." ++ name ∧ c.build.Declared b.settings b.stamp (left + 1 - 1) := by
      have hsound := hc.sound
      unfold Sound at hsound
      rw [hc.settings, hc.stamp] at hsound
      exact ⟨Nat.succ_pos left, hc.name, hsound⟩
    cases hi with
    | none => simp [buildBlock] at h
    | value v =>
      unfold buildBlock at h
      dsimp only at h
      split at h
      · cases h
      · obtain ⟨u, -, h⟩ := bind_eq_ok.1 h
        cases h
        exact done ⟨hstart, rfl, rfl, rfl⟩
    | declarations ht ho hb =>
      unfold buildBlock at h
      obtain ⟨c, hc, h⟩ := bind_eq_ok.1 h
      cases h
      exact done (continues_of_declareAll (fun d hd => ⟨ht d hd, ho d hd, hb d hd⟩) ih hstart hc)
    | document hes =>
      unfold buildBlock at h
      obtain ⟨c, hc, h⟩ := bind_eq_ok.1 h
      cases h
      exact done (continues_of_declareDocument hk hes ih hstart hc)

end Builder

/-! ## Whole definitions -/

namespace Definition

theorem declared_of_continues {name : String} {s : Settings} {stamp : Nat} {b : Builder}
    (h : (Builder.empty name s stamp).Continues (s.maxDepth - 1) b) :
    b.build.Declared b.build.settings b.build.stamp (b.build.settings.maxDepth - 1) := by
  have hsound := h.sound
  have hsettings : b.settings = s := h.settings
  unfold Builder.Sound at hsound
  show b.build.Declared b.settings b.stamp (b.settings.maxDepth - 1)
  rw [hsettings] at hsound ⊢
  exact hsound

/-- **A definition that is declared with blocks inside it is as its builder checked it.** -/
theorem declared_of_define {w : Workshop} (hk : w.known = []) {n : Nat} {name : Value} {block : Block}
    (hb : block.Inline) {s : Settings} {d : Definition} (h : define w n name block s = .ok d) :
    d.Declared d.settings d.stamp (d.settings.maxDepth - 1) := by
  cases hb with
  | none =>
    obtain ⟨u, -, h⟩ := bind_eq_ok.1 h
    cases h
  | value f =>
    unfold define at h
    dsimp only at h
    split at h
    · obtain ⟨name, -, h⟩ := bind_eq_ok.1 h
      obtain ⟨u, -, h⟩ := bind_eq_ok.1 h
      cases h
      exact Builder.sound_empty _ _ _ _
    · obtain ⟨u, -, h⟩ := bind_eq_ok.1 h
      cases h
  | declarations ht ho hb =>
    obtain ⟨name, -, h⟩ := bind_eq_ok.1 h
    obtain ⟨b, hb', h⟩ := bind_eq_ok.1 h
    cases h
    exact declared_of_continues (Builder.continues_of_declareAll (fun d hd => ⟨ht d hd, ho d hd, hb d hd⟩)
      (Builder.builds_of_inline hk _) (Builder.sound_empty _ _ _ _) hb')
  | document hes =>
    obtain ⟨name, -, h⟩ := bind_eq_ok.1 h
    obtain ⟨b, hb', h⟩ := bind_eq_ok.1 h
    cases h
    exact declared_of_continues (Builder.continues_of_declareDocument hk hes
      (Builder.builds_of_inline hk _) (Builder.sound_empty _ _ _ _) hb')

theorem keyed_of_envelope? {es inner : List (Value × Value)} (he : ∀ e ∈ es, e.2.Keyed) (h : envelope? es = some inner) :
    ∀ e ∈ inner, e.2.Keyed := by
  unfold envelope? at h
  split at h
  · obtain ⟨v, hv, hes⟩ := Option.bind_eq_some_iff.1 h
    obtain ⟨e, hmem, -, rfl⟩ := any_of_field? hv
    have := he e hmem
    cases hk : e.2 with
    | map readOnly fs =>
      rw [hk] at this hes
      cases hes
      cases this with
      | map _ h => exact h
      | other h => cases h
    | _ => rw [hk] at hes; cases hes
  · cases h

/-- the configurations of a document are keyed as the document is -/
theorem keyed_of_draft {v : Value} (hv : v.Keyed) {name : Option String} {s : Option Settings} {p : Draft}
    (h : draft v name s = .ok p) : ∀ e ∈ p.configs, e.2.Keyed := by
  unfold draft at h
  split at h
  · cases hv with
    | other hv => cases hv
    | map _ hes =>
      split at h
      · rename_i inner hinner
        have hconfigs : p.configs = inner := by
          cases s with
          | none =>
            obtain ⟨settings, -, h⟩ := bind_eq_ok.1 h
            obtain ⟨title, -, h⟩ := bind_eq_ok.1 h
            cases h
            rfl
          | some s =>
            obtain ⟨settings, -, h⟩ := bind_eq_ok.1 h
            obtain ⟨title, -, h⟩ := bind_eq_ok.1 h
            cases h
            rfl
        rw [hconfigs]
        exact keyed_of_envelope? hes hinner
      · obtain ⟨title, -, h⟩ := bind_eq_ok.1 h
        cases h
        exact hes
  · cases h

/-- **A definition from a document is as its builder checked it.** -/
theorem declared_of_ofDocument {w : Workshop} (hk : w.known = []) {n : Nat} {v : Value} (hv : v.Keyed)
    {name : Option String} {s : Option Settings} {d : Definition} (h : ofDocument w n v name s = .ok d) :
    d.Declared d.settings d.stamp (d.settings.maxDepth - 1) := by
  obtain ⟨draft, hdraft, h⟩ := bind_eq_ok.1 h
  obtain ⟨b, hb, h⟩ := bind_eq_ok.1 h
  cases h
  exact declared_of_continues (Builder.continues_of_declareDocument hk (keyed_of_draft hv hdraft)
      (Builder.builds_of_inline hk _) (Builder.sound_empty _ _ _ _) hb)

end Definition

end Intake
