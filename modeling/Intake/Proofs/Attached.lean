/-
What a definition takes from the block that declares it.

A block declares attributes, and an attribute may have a block of its own. There are two ways for a definition to come
inside another. A block that is open is given a builder, one level below the builder that declares the attribute, and its
definition is built there. A definition that is built already is attached as it is, as the type of an attribute or as its
block, and no builder looks into it.

The configurations of a document stand for declarations, so a builder takes a list of declarations whatever the block is
(`Block.Lists`), and makes an attribute of each (`Declaration.Makes`). What a block declares at any level
(`Block.Declares`) is therefore all that there is to know of a definition, but for what is attached to it.

Results:
- `Definition.defines_of_made`: a definition is defined by its block;
- `Block.Defines.within`: every definition inside it is defined by a block inside the block, under the same settings, or
  stands inside a definition that is attached.
-/
import Intake.Proofs.BuilderCalls
import Intake.Proofs.Reading

namespace Intake

open Intake.Outcome

variable {w : Workshop} {left stamp : Nat} {s : Settings} {b b' : Builder} {block : Block} {ds : List Declaration}
  {d e : Definition} {x : Declaration} {a : Attribute}

/-! ## What is in a block -/

def Block.isOpen : Block → Bool
  | .none => false
  | .definition _ => false
  | .declarations _ => true
  | .document _ => true
  | .value v => v.callable

/-- what is asked of a block before its declarations: a function of the caller is called -/
def Block.called (w : Workshop) : Block → Outcome Unit
  | .value v => (w.call v builderObject).map fun _ => ()
  | _ => .ok ()

/-- the declarations that a block consists of -/
inductive Block.Lists (w : Workshop) : Block → List Declaration → Prop where
  | declarations (ds : List Declaration) : Lists w (.declarations ds) ds
  | document {es : List (Value × Value)} {ds : List Declaration}
    (h : List.Forall₂ (fun e d => Declaration.ofConfig w.registry w.known e.1 e.2 = .ok d) es ds) :
    Lists w (.document es) ds
  | function {v : Value} (h : v.callable = true) : Lists w (.value v) []

/-- a block declares an attribute, so many levels down -/
inductive Block.Declares (w : Workshop) : Block → Nat → Declaration → Prop where
  | listed {block : Block} {ds : List Declaration} {x : Declaration} (h : block.Lists w ds) (hx : x ∈ ds) :
    Declares w block 1 x
  | inside {block : Block} {ds : List Declaration} {x y : Declaration} {k : Nat} (h : block.Lists w ds) (hx : x ∈ ds)
    (hy : Declares w x.block k y) : Declares w block (k + 1) y

/-- a built definition is attached to an attribute: it is the type or the block -/
def Declaration.Attaches (x : Declaration) (e : Definition) : Prop := x.type = .definition e ∨ x.block = .definition e

/-- a built definition is attached to an attribute that a block declares, so many levels down -/
def Block.Attaches (w : Workshop) (block : Block) (k : Nat) (e : Definition) : Prop :=
  ∃ x, block.Declares w k x ∧ x.Attaches e

/-- a block needs a builder at a level: the first for itself, and the one below an attribute for the attribute's block -/
def Block.Opens (w : Workshop) (block : Block) (level : Nat) : Prop :=
  block.isOpen = true ∧ level = 1 ∨ ∃ k x, block.Declares w k x ∧ x.block.isOpen = true ∧ level = k + 1

namespace Block

theorem Lists.isOpen (h : block.Lists w ds) : block.isOpen = true := by
  cases h with
  | declarations => rfl
  | document => rfl
  | function h => exact h

theorem Lists.unique {ds' : List Declaration} (h : block.Lists w ds) (h' : block.Lists w ds') : ds = ds' := by
  cases h with
  | declarations => cases h'; rfl
  | function => cases h'; rfl
  | document h =>
    cases h' with
    | document h' => exact List.right_unique_forall₂' (fun _ _ _ hd hd' => Except.ok.inj (hd.symm.trans hd')) h h'

/-- what a block declares is what it lists, and what the blocks of these declare one level further down -/
theorem declares_iff (h : block.Lists w ds) {level : Nat} :
    block.Declares w level x ↔ (level = 1 ∧ x ∈ ds) ∨ ∃ y ∈ ds, ∃ k, level = k + 1 ∧ y.block.Declares w k x := by
  constructor
  · intro hx
    cases hx with
    | listed h' hx => exact .inl ⟨rfl, h.unique h' ▸ hx⟩
    | inside h' hy hx => exact .inr ⟨_, h.unique h' ▸ hy, _, rfl, hx⟩
  · rintro (⟨rfl, hx⟩ | ⟨y, hy, k, rfl, hx⟩)
    · exact .listed h hx
    · exact .inside h hy hx

/-- a block that lists declarations opens the first level, and the levels of their blocks one further down -/
theorem opens_iff (h : block.Lists w ds) {level : Nat} :
    block.Opens w level ↔ level = 1 ∨ ∃ x ∈ ds, ∃ k, level = k + 1 ∧ x.block.Opens w k := by
  constructor
  · rintro (⟨-, rfl⟩ | ⟨k, x, hx, ho, rfl⟩)
    · exact .inl rfl
    · rcases (declares_iff h).1 hx with ⟨rfl, hx'⟩ | ⟨y, hy, j, rfl, hx'⟩
      · exact .inr ⟨x, hx', 1, rfl, .inl ⟨ho, rfl⟩⟩
      · exact .inr ⟨y, hy, j + 1, rfl, .inr ⟨j, x, hx', ho, rfl⟩⟩
  · rintro (rfl | ⟨x, hx, k, rfl, ho | ⟨j, y, hy, ho, rfl⟩⟩)
    · exact .inl ⟨h.isOpen, rfl⟩
    · obtain ⟨ho, rfl⟩ := ho
      exact .inr ⟨1, x, .listed h hx, ho, rfl⟩
    · exact .inr ⟨j + 1, y, .inside h hx hy, ho, rfl⟩

theorem attaches_iff (h : block.Lists w ds) {level : Nat} :
    block.Attaches w level e ↔
      (level = 1 ∧ ∃ x ∈ ds, x.Attaches e) ∨ ∃ x ∈ ds, ∃ k, level = k + 1 ∧ x.block.Attaches w k e := by
  constructor
  · rintro ⟨x, hx, he⟩
    rcases (declares_iff h).1 hx with ⟨rfl, hx'⟩ | ⟨y, hy, k, rfl, hx'⟩
    · exact .inl ⟨rfl, x, hx', he⟩
    · exact .inr ⟨y, hy, k, rfl, x, hx', he⟩
  · rintro (⟨rfl, x, hx, he⟩ | ⟨x, hx, k, rfl, y, hy, he⟩)
    · exact ⟨x, .listed h hx, he⟩
    · exact ⟨y, .inside h hx hy, he⟩

theorem isOpen_of_declares {level : Nat} (h : block.Declares w level x) : block.isOpen = true := by
  cases h with
  | listed h _ => exact h.isOpen
  | inside h _ _ => exact h.isOpen

theorem isOpen_of_opens {level : Nat} (h : block.Opens w level) : block.isOpen = true := by
  rcases h with ⟨h, -⟩ | ⟨k, x, hx, -⟩
  · exact h
  · exact isOpen_of_declares hx

/-- only to a block that is open anything is attached below -/
theorem isOpen_of_attaches {level : Nat} (h : block.Attaches w level e) : block.isOpen = true := by
  obtain ⟨x, hx, -⟩ := h
  exact isOpen_of_declares hx

end Block

/-! ## What a builder makes of declarations -/

/-- an attribute is what a declaration asks for, in a builder that allows `left` levels below -/
structure Declaration.Makes (w : Workshop) (left : Nat) (b : Builder) (x : Declaration) (a : Attribute) : Prop where
  named : normalizeKey x.name = .ok a.name
  texts : ∀ o ∈ x.options, o.1.text?.isSome
  required : a.required = x.required
  default : a.default = (Builder.popDefault x.options).1
  rules : buildRules (Builder.popDefault x.options).2 = .ok a.rules
  shape : ∃ block, Builder.buildBlock w left b a.name x.block = .ok block ∧ a.shape.Joins w.registry x.type block

/-- a definition is what a block declares under settings, with `left` levels allowed below -/
inductive Block.Defines (w : Workshop) (left : Nat) (s : Settings) (stamp : Nat) : Block → Definition → Prop where
  | intro {block : Block} {ds : List Declaration} {title : String} {as : List Attribute} (lists : block.Lists w ds)
    (distinct : (as.map (·.name)).Nodup) (makes : List.Forall₂ (Declaration.Makes w left (.empty title s stamp)) ds as) :
    Defines w left s stamp block ⟨stamp, title, as, s⟩

namespace Builder

theorem buildBlock_attributes (as : List Attribute) (name : String) :
    buildBlock w left { b with attributes := as } name block = buildBlock w left b name block := by
  cases block <;> cases left <;> (unfold buildBlock; rfl)

theorem isSome_of_buildBlock {name : String} {o : Option Definition} (h : buildBlock w left b name block = .ok o) :
    o.isSome = hasBlock block := by
  rw [← build_inside] at h
  rw [Inside.isSome_of_build h, hasBlock_outline]

theorem makes_of_declare (h : declare w left b x = .ok b') :
    ∃ a, x.Makes w left b a ∧ b.attributes.any (·.name == a.name) = false ∧
      b' = { b with attributes := b.attributes ++ [a] } := by
  rw [declare] at h
  obtain ⟨p, hp, h⟩ := bind_eq_ok.1 h
  obtain ⟨block, hblock, h⟩ := bind_eq_ok.1 h
  obtain ⟨rules, hrules, h⟩ := bind_eq_ok.1 h
  cases h
  have prep := of_prepare hp
  obtain ⟨hnamed, -, -, -, hnew⟩ := of_checkName prep.named
  refine ⟨_, ?_, hnew, rfl⟩
  exact
    { named := hnamed, texts := prep.texts, required := rfl, default := prep.default
      rules := by rw [prep.options] at hrules; exact hrules
      shape := ⟨block, hblock, joins_of_prepare hp (isSome_of_buildBlock hblock)⟩ }

/-- declarations one after another add the attributes that they make, under new names -/
theorem makes_of_declareAll (hn : (b.attributes.map (·.name)).Nodup) (h : declareAll w left b ds = .ok b') :
    ∃ as, List.Forall₂ (Declaration.Makes w left b) ds as ∧ b' = { b with attributes := b.attributes ++ as } ∧
      (b'.attributes.map (·.name)).Nodup := by
  induction ds generalizing b with
  | nil =>
    rw [declareAll] at h
    cases h
    exact ⟨[], .nil, by rw [List.append_nil], hn⟩
  | cons x ds ih =>
    rw [declareAll] at h
    obtain ⟨c, hc, h⟩ := bind_eq_ok.1 h
    obtain ⟨a, ha, hnew, rfl⟩ := makes_of_declare hc
    have hn' : ((b.attributes ++ [a]).map (·.name)).Nodup := by
      rw [List.map_append, List.map_singleton, ← List.concat_eq_append]
      refine hn.concat fun hmem => ?_
      obtain ⟨y, hy, he⟩ := List.mem_map.1 hmem
      exact absurd (beq_iff_eq.2 he) (List.any_eq_false.1 hnew y hy)
    obtain ⟨as, has, rfl, hnodup⟩ := ih hn' h
    refine ⟨a :: as, .cons ha (has.imp fun y c hy => ?_), by simp, hnodup⟩
    obtain ⟨block, hblock, hjoins⟩ := hy.shape
    rw [buildBlock_attributes] at hblock
    exact { hy with shape := ⟨block, hblock, hjoins⟩ }

/-- the configurations of a document are declared as the declarations that they stand for -/
theorem declareAll_of_declareDocument {es : List (Value × Value)} (h : declareDocument w left b es = .ok b') :
    ∃ ds, Block.Lists w (.document es) ds ∧ declareAll w left b ds = .ok b' := by
  induction es generalizing b with
  | nil =>
    rw [declareDocument] at h
    exact ⟨[], .document .nil, by rw [declareAll]; exact h⟩
  | cons e es ih =>
    obtain ⟨name, config⟩ := e
    rw [declareDocument] at h
    obtain ⟨x, hx, h⟩ := bind_eq_ok.1 h
    obtain ⟨c, hc, h⟩ := bind_eq_ok.1 h
    obtain ⟨ds, hds, h⟩ := ih h
    cases hds with
    | document hds => exact ⟨x :: ds, .document (.cons hx hds), by rw [declareAll, hc, ok_bind, h]⟩

/-- the declarations of a document that can be listed are declared in its place -/
theorem declareDocument_of_lists {es : List (Value × Value)} (h : Block.Lists w (.document es) ds) (b : Builder) :
    declareDocument w left b es = declareAll w left b ds := by
  cases h with
  | document h =>
    induction h generalizing b with
    | nil => rw [declareDocument, declareAll]
    | @cons e x es ds hx _ ih =>
      obtain ⟨name, config⟩ := e
      rw [declareDocument, declareAll, hx, ok_bind]
      exact bind_congr ih

/-- a builder that starts without attributes defines what is declared -/
theorem defines_of_declareAll {title : String} (hl : block.Lists w ds)
    (h : declareAll w left (.empty title s stamp) ds = .ok b) : block.Defines w left s stamp b.build := by
  obtain ⟨as, has, rfl, hn⟩ := makes_of_declareAll (by rw [Builder.empty]; exact List.nodup_nil) h
  exact .intro hl hn has

/-- an open block defines what it declares, one level below -/
theorem defines_of_buildBlock {name : String} (h : buildBlock w left b name block = .ok (some e))
    (ho : block.isOpen = true) : ∃ lower, left = lower + 1 ∧ block.Defines w lower b.settings b.stamp e := by
  unfold buildBlock at h
  cases block with
  | none => cases ho
  | definition => cases ho
  | value v =>
    dsimp only at h
    rw [if_neg (by rw [show v.callable = true from ho]; decide)] at h
    cases left with
    | zero => cases h
    | succ lower =>
      obtain ⟨u, -, h⟩ := bind_eq_ok.1 h
      cases h
      exact ⟨lower, rfl, .intro (.function ho) List.nodup_nil .nil⟩
  | declarations ds =>
    cases left with
    | zero => cases h
    | succ lower =>
      obtain ⟨inner, hinner, h⟩ := bind_eq_ok.1 h
      cases h
      exact ⟨lower, rfl, defines_of_declareAll (.declarations ds) hinner⟩
  | document es =>
    cases left with
    | zero => cases h
    | succ lower =>
      obtain ⟨inner, hinner, h⟩ := bind_eq_ok.1 h
      cases h
      obtain ⟨ds, hds, hinner⟩ := declareAll_of_declareDocument hinner
      exact ⟨lower, rfl, defines_of_declareAll hds hinner⟩

/-- a block that builds a definition has it attached, or is open -/
theorem attached_or_open {name : String} (h : buildBlock w left b name block = .ok (some e)) :
    block = .definition e ∨ block.isOpen = true := by
  unfold buildBlock at h
  cases block with
  | none => cases h
  | definition e => cases h; exact .inl rfl
  | value v =>
    dsimp only at h
    by_cases hv : v.callable = true
    · exact .inr hv
    · rw [if_pos (by simpa using hv)] at h
      cases h
  | declarations ds => exact .inr rfl
  | document es => exact .inr rfl

end Builder

/-! ## The definitions inside attributes -/

namespace Declaration.Makes

/-- the definition inside an attribute is the one that is attached, or the one that its block defines one level below -/
theorem part (h : x.Makes w left b a) (he : a.shape.definition? = some e) :
    x.Attaches e ∨ ∃ lower, left = lower + 1 ∧ x.block.Defines w lower b.settings b.stamp e := by
  obtain ⟨block, hblock, hjoins⟩ := h.shape
  have of_block (hblock : Builder.buildBlock w left b a.name x.block = .ok (some e)) :
      x.Attaches e ∨ ∃ lower, left = lower + 1 ∧ x.block.Defines w lower b.settings b.stamp e := by
    rcases Builder.attached_or_open hblock with hx | ho
    · exact .inl (.inr hx)
    · exact .inr (Builder.defines_of_buildBlock hblock ho)
  generalize hs : a.shape = shape at he hjoins
  generalize ht : x.type = type at hjoins
  cases hjoins with
  | untyped => cases he
  | scalar => cases he
  | typed => cases he; exact .inl (.inl ht)
  | nested => cases he; exact of_block hblock
  | array => cases he; exact of_block hblock

/-- a definition that is attached is inside the attribute -/
theorem definition?_of_attaches (h : x.Makes w left b a) (he : x.Attaches e) : a.shape.definition? = some e := by
  obtain ⟨block, hblock, hjoins⟩ := h.shape
  rcases he with ht | hb
  · rw [ht] at hjoins
    generalize a.shape = shape at hjoins ⊢
    cases hjoins
    rfl
  · rw [hb, Builder.buildBlock] at hblock
    cases hblock
    generalize a.shape = shape at hjoins ⊢
    generalize x.type = type at hjoins
    cases hjoins <;> rfl

/-- an open block has its definition inside the attribute -/
theorem definition?_of_open (h : x.Makes w left b a) (ho : x.block.isOpen = true) :
    ∃ e lower, a.shape.definition? = some e ∧ left = lower + 1 ∧ x.block.Defines w lower b.settings b.stamp e := by
  obtain ⟨block, hblock, hjoins⟩ := h.shape
  have hsome := Builder.isSome_of_buildBlock hblock
  rw [show Builder.hasBlock x.block = true by cases hx : x.block <;> simp_all [Block.isOpen, Builder.hasBlock]] at hsome
  obtain ⟨e, rfl⟩ := Option.isSome_iff_exists.1 hsome
  obtain ⟨lower, hlower, he⟩ := Builder.defines_of_buildBlock hblock ho
  refine ⟨e, lower, ?_, hlower, he⟩
  generalize a.shape = shape at hjoins ⊢
  generalize x.type = type at hjoins
  cases hjoins <;> rfl

end Declaration.Makes

/-- **A definition inside another is attached, or its own block defines it** under the settings of the whole. -/
theorem Block.Defines.within {c : Definition} (h : block.Defines w left s stamp d) (hc : c.Within d) :
    (∃ k e, block.Attaches w k e ∧ c.Within e) ∨
      ∃ inner lower, inner.Defines w lower s stamp c ∧
        (inner = block ∨ ∃ k x, block.Declares w k x ∧ x.block = inner) := by
  induction hc generalizing block left with
  | here => exact .inr ⟨block, left, h, .inl rfl⟩
  | @part d e a ha he hc ih =>
    cases h with
    | intro lists _ makes =>
      obtain ⟨x, hx, hmakes⟩ := exists_of_mem_right makes ha
      rcases hmakes.part he with hattach | ⟨lower, -, hdefines⟩
      · exact .inl ⟨1, e, ⟨x, .listed lists hx, hattach⟩, hc⟩
      · rcases ih hdefines with ⟨k, e', ⟨y, hy, he'⟩, hc'⟩ | ⟨inner, lower', hinner, hwhere⟩
        · exact .inl ⟨k + 1, e', ⟨y, .inside lists hx hy, he'⟩, hc'⟩
        · refine .inr ⟨inner, lower', hinner, .inr ?_⟩
          rcases hwhere with rfl | ⟨k, y, hy, rfl⟩
          · exact ⟨1, x, .listed lists hx, rfl⟩
          · exact ⟨k + 1, y, .inside lists hx hy, rfl⟩

/-! ## Whole definitions -/

namespace Definition

/-- a block, which a caller gives or a document holds, is made into a definition under settings -/
inductive MadeOf (w : Workshop) (stamp : Nat) : Block → Settings → Outcome Definition → Prop where
  | defined {name : Value} {title : String} (h : normalizeKey name = .ok title) (block : Block) (s : Settings) :
    MadeOf w stamp block s (define w stamp name block s)
  | described {v : Value} {name : Option String} {given : Option Settings} {p : Draft} (h : draft v name given = .ok p) :
    MadeOf w stamp (.document p.configs) p.settings (ofDocument w stamp v name given)

/-- a block that a definition is made of lists its declarations -/
theorem lists_of_made (h : MadeOf w stamp block s (.ok d)) : ∃ ds, block.Lists w ds := by
  generalize ho : (.ok d : Outcome Definition) = o at h
  cases h with
  | @defined name title htitle =>
    cases block with
    | none => obtain ⟨u, -, h⟩ := bind_eq_ok.1 ho.symm; cases h
    | definition => obtain ⟨u, -, h⟩ := bind_eq_ok.1 ho.symm; cases h
    | value f =>
      rw [define] at ho
      by_cases hf : f.callable = true
      · exact ⟨[], .function hf⟩
      · rw [if_neg hf] at ho
        obtain ⟨u, -, h⟩ := bind_eq_ok.1 ho.symm
        cases h
    | declarations ds => exact ⟨ds, .declarations ds⟩
    | document es =>
      obtain ⟨title, -, h⟩ := bind_eq_ok.1 ho.symm
      obtain ⟨b, hb, -⟩ := bind_eq_ok.1 h
      obtain ⟨ds, hds, -⟩ := Builder.declareAll_of_declareDocument hb
      exact ⟨ds, hds⟩
  | @described v name given p hp =>
    unfold ofDocument at ho
    rw [hp, ok_bind] at ho
    obtain ⟨b, hb, -⟩ := bind_eq_ok.1 ho.symm
    obtain ⟨ds, hds, -⟩ := Builder.declareAll_of_declareDocument hb
    exact ⟨ds, hds⟩

/-- a definition is made of the declarations that its block lists, after a function has been called -/
theorem made_eq {o : Outcome Definition} (h : MadeOf w stamp block s o) (hl : block.Lists w ds) :
    ∃ title, o = (do
      block.called w
      let b ← Builder.declareAll w (s.maxDepth - 1) (.empty title s stamp) ds
      .ok b.build) := by
  cases h with
  | @defined name title htitle =>
    refine ⟨title, ?_⟩
    cases hl with
    | declarations => rw [define, htitle]; rfl
    | document hds =>
      rw [define, htitle, ok_bind, Builder.declareDocument_of_lists (.document hds)]
      rfl
    | @function f hf =>
      rw [define, if_pos hf, htitle, ok_bind, Builder.declareAll, Block.called]
      cases w.call f builderObject <;> rfl
  | @described v name given p hp =>
    refine ⟨p.name, ?_⟩
    rw [ofDocument, hp, ok_bind, Builder.declareDocument_of_lists hl]
    rfl

/-- **A definition is defined by its block.** -/
theorem defines_of_made (h : MadeOf w stamp block s (.ok d)) : block.Defines w (s.maxDepth - 1) s stamp d := by
  obtain ⟨ds, hl⟩ := lists_of_made h
  obtain ⟨title, ho⟩ := made_eq h hl
  obtain ⟨u, -, h⟩ := bind_eq_ok.1 ho.symm
  obtain ⟨b, hb, h⟩ := bind_eq_ok.1 h
  cases h
  exact Builder.defines_of_declareAll hl hb

/-- definitions that blocks define inside one another have the settings of the whole -/
theorem settings_within {c : Definition} (h : MadeOf w stamp block s (.ok d)) (hc : c.Within d) :
    c.settings = s ∨ ∃ k e, block.Attaches w k e ∧ c.Within e := by
  rcases (defines_of_made h).within hc with hattached | ⟨inner, lower, hinner, -⟩
  · exact .inr hattached
  · refine .inl ?_
    cases hinner with
    | intro => rfl

end Definition

end Intake
