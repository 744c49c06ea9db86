/-
How deep definitions are nested.

A builder counts the levels of the builders above it, and refuses a block that would need one more than its settings
allow. What is built already has been counted by builders of its own, from one on, and is attached without a look at
what is inside. So the levels that builders are opened at are bounded, and the length of a chain of nested definitions
is bounded as far as what is attached leaves room for the levels above it.

The bound decides nothing else. Whoever declares a block twice, under two settings, gets two definitions, or is refused
where the second settings end: induction on the levels that are left, for both runs side by side (`Builder.Ends`).

Results:
- `Block.Defines.height_le_iff`: what the longest chain of nested definitions consists of;
- `Definition.depth_of_made`: which levels are bounded, and when the whole is; and that a level that is not allowed
  refuses the definition, and nothing else about the depth does;
- `shallow_holds_two_levels`: a definition is nested deeper than its settings allow.
-/
import Intake.Proofs.Attached

namespace Intake

open Intake.Outcome

variable {w : Workshop} {left stamp : Nat} {s t : Settings} {b b' c : Builder} {block : Block} {ds : List Declaration}
  {d : Definition} {x : Declaration}

/-! ## Heights -/

theorem Definition.heightOfAll_le_iff {as : List Attribute} {m : Nat} :
    heightOfAll as ≤ m ↔ ∀ a ∈ as, ∀ e, a.shape.definition? = some e → e.height ≤ m := by
  induction as with
  | nil => simp [heightOfAll]
  | cons a as ih =>
    obtain ⟨name, shape, required, default, rules⟩ := a
    rw [heightOfAll, Nat.max_le, ih, List.forall_mem_cons, heightOfAttribute]
    refine and_congr_left fun _ => ?_
    cases shape with
    | untyped => simp [heightOfShape, Shape.definition?]
    | scalar t => simp [heightOfShape, Shape.definition?]
    | nested e => simp [heightOfShape, Shape.definition?]
    | arrayOf e => simp [heightOfShape, Shape.definition?]

/-- a definition is as high as the definitions inside it, and one more -/
theorem Definition.height_le_iff {m : Nat} :
    d.height ≤ m + 1 ↔ ∀ a ∈ d.attributes, ∀ e, a.shape.definition? = some e → e.height ≤ m := by
  obtain ⟨n, name, as, s⟩ := d
  rw [height, Nat.add_le_add_iff_right, heightOfAll_le_iff]

theorem Definition.height_pos (d : Definition) : 0 < d.height := by
  obtain ⟨n, name, as, s⟩ := d
  rw [height]
  exact Nat.succ_pos _

/-! ## Levels -/

namespace Block

/-- every builder that a block needs is among so many levels -/
def Fits (w : Workshop) (block : Block) (levels : Nat) : Prop := ∀ k, block.Opens w k → k ≤ levels

theorem fits_iff (h : block.Lists w ds) {levels : Nat} :
    block.Fits w (levels + 1) ↔ ∀ x ∈ ds, x.block.Fits w levels := by
  constructor
  · intro hf x hx k hk
    exact Nat.le_of_succ_le_succ (hf _ ((opens_iff h).2 (.inr ⟨x, hx, k, rfl, hk⟩)))
  · intro hf k hk
    rcases (opens_iff h).1 hk with rfl | ⟨x, hx, j, rfl, hj⟩
    · exact Nat.succ_pos levels
    · exact Nat.succ_le_succ (hf x hx j hj)

/-- a block that is not open needs no builder, and fits anywhere -/
theorem fits_of_not_open (h : block.isOpen = false) (levels : Nat) : block.Fits w levels := fun _ hk => by
  rw [isOpen_of_opens hk] at h
  cases h

theorem not_fits_zero (h : block.isOpen = true) : ¬ block.Fits w 0 :=
  fun hf => absurd (hf 1 (.inl ⟨h, rfl⟩)) (by decide)

theorem Defines.fits (h : block.Defines w left s stamp d) : block.Fits w (left + 1) := by
  induction left generalizing block d with
  | zero =>
    cases h with
    | intro lists _ makes =>
      refine (fits_iff lists).2 fun x hx => ?_
      obtain ⟨a, -, ha⟩ := exists_of_mem_left makes hx
      cases ho : x.block.isOpen with
      | false => exact fits_of_not_open ho 0
      | true =>
        obtain ⟨e, lower, -, hlower, -⟩ := ha.definition?_of_open ho
        cases hlower
  | succ left ih =>
    cases h with
    | intro lists _ makes =>
      refine (fits_iff lists).2 fun x hx => ?_
      obtain ⟨a, -, ha⟩ := exists_of_mem_left makes hx
      cases ho : x.block.isOpen with
      | false => exact fits_of_not_open ho _
      | true =>
        obtain ⟨e, lower, -, hlower, he⟩ := ha.definition?_of_open ho
        cases hlower
        exact ih he

/-- **The longest chain of nested definitions** ends where the last builder is opened, or in a definition that is
attached: by induction on the levels that are left. -/
theorem Defines.height_le_iff (h : block.Defines w left s stamp d) {m : Nat} :
    d.height ≤ m ↔ block.Fits w m ∧ ∀ k e, block.Attaches w k e → k + e.height ≤ m := by
  induction left using Nat.strongRecOn generalizing block d m with
  | ind left ih =>
    cases h with
    | @intro ds title as lists _ makes =>
      cases m with
      | zero =>
        refine iff_of_false (Nat.not_le.2 (Definition.height_pos _)) fun hm => ?_
        exact not_fits_zero lists.isOpen hm.1
      | succ m =>
        rw [Definition.height_le_iff, fits_iff lists]
        constructor
        · intro hall
          have inner {y : Declaration} (hy : y ∈ ds) : y.block.Fits w m ∧
              ∀ k e, y.block.Attaches w k e → k + e.height ≤ m := by
            obtain ⟨a, hmem, ha⟩ := exists_of_mem_left makes hy
            cases ho : y.block.isOpen with
            | false =>
              refine ⟨fits_of_not_open ho m, fun k e he => ?_⟩
              rw [isOpen_of_attaches he] at ho
              cases ho
            | true =>
              obtain ⟨e, lower, he, hlower, hdefines⟩ := ha.definition?_of_open ho
              exact (ih lower (by omega) hdefines).1 (hall a hmem e he)
          refine ⟨fun y hy => (inner hy).1, fun k e he => ?_⟩
          rcases (attaches_iff lists).1 he with ⟨rfl, y, hy, hattach⟩ | ⟨y, hy, j, rfl, hinner⟩
          · obtain ⟨a, hmem, ha⟩ := exists_of_mem_left makes hy
            have := hall a hmem e (ha.definition?_of_attaches hattach)
            omega
          · have := (inner hy).2 j e hinner
            omega
        · rintro ⟨hfits, hattached⟩ a ha e he
          obtain ⟨y, hy, hmakes⟩ := exists_of_mem_right makes ha
          rcases hmakes.part he with hattach | ⟨lower, hlower, hdefines⟩
          · have := hattached 1 e ⟨y, .listed lists hy, hattach⟩
            omega
          · refine (ih lower (by omega) hdefines).2 ⟨hfits y hy, fun k f hf => ?_⟩
            have := hattached (k + 1) f ((attaches_iff lists).2 (.inr ⟨y, hy, k, rfl, hf⟩))
            omega

end Block

/-! ## Two settings side by side -/

namespace Builder

/-- a step succeeds where a condition holds, and else is refused since it needs a level more than the settings allow -/
def Ends {α : Type} (t : Settings) (P : Prop) (o : Outcome α) : Prop :=
  (P ∧ ∃ y, o = .ok y) ∨ (¬ P ∧ ∃ place, o = refuse (.tooDeep place (t.maxDepth + 1) t.maxDepth))

/-- builders that have declared the same names -/
def SameNames (b b' : Builder) : Prop := b'.attributes.map (·.name) = b.attributes.map (·.name)

theorem SameNames.any (h : b.SameNames b') (name : String) :
    b'.attributes.any (·.name == name) = b.attributes.any (·.name == name) := by
  have of_names (as : List Attribute) : as.any (·.name == name) = (as.map (·.name)).any (· == name) := by
    rw [List.any_map]
    rfl
  rw [of_names, of_names, h]

/-- a declaration is prepared alike where the same names are declared -/
theorem SameNames.prepare {r : Registry} {p : Prepared} (h : b.SameNames b') (hp : prepare r b x = .ok p) :
    prepare r b' x = .ok p := by
  rw [prepare_eq] at hp ⊢
  obtain ⟨u, hu, hp⟩ := bind_eq_ok.1 hp
  refine bind_eq_ok.2 ⟨u, hu, ?_⟩
  split at hp
  · obtain ⟨u, -, hp⟩ := bind_eq_ok.1 hp
    cases hp
  · rename_i hrequired
    rw [if_neg hrequired]
    obtain ⟨name, hname, hp⟩ := bind_eq_ok.1 hp
    obtain ⟨hnamed, hid, hvisible, hfree, hnew⟩ := of_checkName hname
    refine bind_eq_ok.2 ⟨name, ?_, hp⟩
    rw [← h.any] at hnew
    unfold checkName
    rw [hnamed, ok_bind, hid, hnew]
    simp [hvisible, hfree]

/-- a block that builds under some settings builds under others, in whatever builder, as far as its levels are left -/
def Again (w : Workshop) (left' : Nat) (b' : Builder) (name : String) (block : Block) : Prop :=
  Ends b'.settings (block.Fits w left') (buildBlock w left' b' name block)

/-- a declaration whose block builds again is declared again -/
theorem ends_declare {left' : Nat} (hnames : b.SameNames b') (h : declare w left b x = .ok c)
    (hblock : ∀ name o, buildBlock w left b name x.block = .ok o → Again w left' b' name x.block) :
    Ends b'.settings (x.block.Fits w left') (declare w left' b' x) ∧
      ∀ c', declare w left' b' x = .ok c' → c.SameNames c' ∧ c'.settings = b'.settings := by
  rw [declare] at h ⊢
  obtain ⟨p, hp, h⟩ := bind_eq_ok.1 h
  obtain ⟨o, ho, h⟩ := bind_eq_ok.1 h
  obtain ⟨rules, hrules, h⟩ := bind_eq_ok.1 h
  cases h
  rw [hnames.prepare hp, ok_bind]
  rcases hblock p.name o ho with ⟨hfits, o', ho'⟩ | ⟨hfits, place, ho'⟩
  · rw [ho', ok_bind]
    unfold append
    rw [hrules, ok_bind]
    refine ⟨.inl ⟨hfits, _, rfl⟩, fun c' hc' => ?_⟩
    cases hc'
    refine ⟨?_, rfl⟩
    unfold SameNames
    rw [List.map_append, List.map_append, hnames]
    rfl
  · rw [ho']
    refine ⟨.inr ⟨hfits, place, rfl⟩, ?_⟩
    rintro c' ⟨⟩

/-- declarations whose blocks build again are declared again, until one needs a level that is not there -/
theorem ends_declareAll {left' : Nat} (hnames : b.SameNames b') (h : declareAll w left b ds = .ok c)
    (hblock : ∀ x ∈ ds, ∀ (b b' : Builder) name o, buildBlock w left b name x.block = .ok o →
      Again w left' b' name x.block) :
    Ends b'.settings (∀ x ∈ ds, x.block.Fits w left') (declareAll w left' b' ds) := by
  induction ds generalizing b b' with
  | nil => exact .inl ⟨by simp, b', by rw [declareAll]⟩
  | cons x ds ih =>
    rw [declareAll] at h ⊢
    obtain ⟨m, hm, h⟩ := bind_eq_ok.1 h
    obtain ⟨hhead, htail⟩ := List.forall_mem_cons.1 hblock
    obtain ⟨hends, hkeeps⟩ := ends_declare hnames hm fun name o => hhead b b' name o
    rcases hends with ⟨hfits, m', hm'⟩ | ⟨hfits, place, hm'⟩
    · obtain ⟨hnames', hsettings⟩ := hkeeps m' hm'
      rw [hm', ok_bind]
      have hrest := ih hnames' h htail
      rw [hsettings] at hrest
      unfold Ends at hrest ⊢
      rwa [List.forall_mem_cons, and_iff_right hfits]
    · rw [hm']
      exact .inr ⟨fun hall => hfits (hall x List.mem_cons_self), place, rfl⟩

/-- the condition under which a step succeeds may be put in other words -/
theorem Ends.congr {α : Type} {P Q : Prop} {o : Outcome α} (h : Ends t P o) (hPQ : P ↔ Q) : Ends t Q o := by
  rwa [propext hPQ] at h

/-- a step that only turns what it is given into something else ends the same -/
theorem Ends.bind {α β : Type} {P : Prop} {o : Outcome α} (h : Ends t P o) (f : α → β) :
    Ends t P (o >>= fun y => .ok (f y)) := by
  rcases h with ⟨hP, y, rfl⟩ | ⟨hP, place, rfl⟩
  · exact .inl ⟨hP, f y, rfl⟩
  · exact .inr ⟨hP, place, rfl⟩

/-- **A block that builds once builds again** as far as its levels are left: by induction on the levels of the first
run, with those of the second at hand. -/
theorem again_of_buildBlock {name : String} {o : Option Definition} (h : buildBlock w left b name block = .ok o)
    (left' : Nat) (b' : Builder) (name' : String) : Again w left' b' name' block := by
  induction left generalizing block b name o left' b' name' with
  | zero =>
    unfold Again
    cases block with
    | none => exact .inl ⟨Block.fits_of_not_open rfl _, none, by rw [buildBlock]⟩
    | definition e => exact .inl ⟨Block.fits_of_not_open rfl _, some e, by rw [buildBlock]⟩
    | value v => rw [buildBlock] at h; split at h <;> cases h
    | declarations ds => rw [buildBlock] at h; cases h
    | document es => rw [buildBlock] at h; cases h
  | succ left ih =>
    have listed {ds : List Declaration} {c : Builder} (hl : block.Lists w ds)
      (hc : declareAll w left (b.inner name) ds = .ok c)
        (left' : Nat) : Ends b'.settings (block.Fits w (left' + 1)) (declareAll w left' (b'.inner name') ds) := by
      have hnames : (b.inner name).SameNames (b'.inner name') := rfl
      exact (ends_declareAll hnames hc fun x _ b b' name o ho => ih ho left' b' name).congr (Block.fits_iff hl).symm
    unfold Again
    unfold buildBlock at h ⊢
    cases block with
    | none => exact .inl ⟨Block.fits_of_not_open rfl _, none, rfl⟩
    | definition e => exact .inl ⟨Block.fits_of_not_open rfl _, some e, rfl⟩
    | value v =>
      dsimp only at h ⊢
      by_cases hv : v.callable = true
      · rw [if_neg (by simp [hv])] at h ⊢
        obtain ⟨u, hcall, h⟩ := bind_eq_ok.1 h
        cases left' with
        | zero => exact .inr ⟨Block.not_fits_zero hv, _, rfl⟩
        | succ left' =>
          refine .inl ⟨(Block.fits_iff (.function hv)).2 (by simp), some (b'.inner name').build, ?_⟩
          unfold callBlock at hcall ⊢
          rw [if_pos hv] at hcall ⊢
          obtain ⟨y, hy, -⟩ := bind_eq_ok.1 hcall
          rw [hy]
          rfl
      · rw [if_pos (by simpa using hv)] at h
        cases h
    | declarations ds =>
      obtain ⟨c, hc, h⟩ := bind_eq_ok.1 h
      cases left' with
      | zero => exact .inr ⟨Block.not_fits_zero rfl, _, rfl⟩
      | succ left' => exact (listed (.declarations ds) hc left').bind fun inner => some inner.build
    | document es =>
      obtain ⟨c, hc, h⟩ := bind_eq_ok.1 h
      cases left' with
      | zero => exact .inr ⟨Block.not_fits_zero rfl, _, rfl⟩
      | succ left' =>
        obtain ⟨ds, hds, hc⟩ := declareAll_of_declareDocument hc
        have hends := listed hds hc left'
        rw [← declareDocument_of_lists hds] at hends
        exact hends.bind fun inner => some inner.build

end Builder

/-! ## Whole definitions -/

namespace Definition

open Builder

/-- what is made once is made again under other settings, as far as these reach -/
theorem ends_of_made {o : Outcome Definition} (h : MadeOf w stamp block s (.ok d)) (h' : MadeOf w stamp block t o) :
    Ends t (block.Fits w t.maxDepth) o := by
  obtain ⟨ds, hl⟩ := lists_of_made h
  obtain ⟨title, hd⟩ := made_eq h hl
  obtain ⟨title', rfl⟩ := made_eq h' hl
  obtain ⟨u, hcalled, hd⟩ := bind_eq_ok.1 hd.symm
  obtain ⟨c, hc, -⟩ := bind_eq_ok.1 hd
  have hnames : (Builder.empty title s stamp).SameNames (.empty title' t stamp) := rfl
  have hends :
    Ends t (∀ x ∈ ds, x.block.Fits w (t.maxDepth - 1)) (declareAll w (t.maxDepth - 1) (.empty title' t stamp) ds) :=
    ends_declareAll hnames hc fun x _ b b' name o ho => again_of_buildBlock ho _ b' name
  have hdepth : t.maxDepth - 1 + 1 = t.maxDepth := Nat.sub_add_cancel t.inRange.1
  rw [← Block.fits_iff hl, hdepth] at hends
  rw [hcalled, ok_bind]
  exact hends.bind fun b => b.build

/-- **Only builders are counted.** A definition that is made has all its builders among the levels that its settings
allow. It is nested no deeper than they allow exactly if each definition that is attached leaves room for the levels above
it. Under other settings the same block is made too if these allow the levels of its builders, and else is refused
since one of them stands a level too deep. -/
theorem depth_of_made (h : MadeOf w stamp block s (.ok d)) :
    block.Fits w s.maxDepth ∧
    (d.height ≤ s.maxDepth ↔ ∀ k e, block.Attaches w k e → k + e.height ≤ s.maxDepth) ∧
    ∀ t o, MadeOf w stamp block t o →
      (block.Fits w t.maxDepth → ∃ d', o = .ok d') ∧
      (¬ block.Fits w t.maxDepth → ∃ place, o = refuse (.tooDeep place (t.maxDepth + 1) t.maxDepth)) := by
  have hdefines := defines_of_made h
  have hfits : block.Fits w s.maxDepth := by
    have := hdefines.fits
    rwa [Nat.sub_add_cancel s.inRange.1] at this
  refine ⟨hfits, ?_, fun t o ho => ?_⟩
  · rw [hdefines.height_le_iff, and_iff_right hfits]
  · rcases ends_of_made h ho with ⟨hfits, hok⟩ | ⟨hfits, hrefused⟩
    · exact ⟨fun _ => hok, fun hnot => absurd hfits hnot⟩
    · exact ⟨fun hyes => absurd hyes hfits, fun _ => hrefused⟩

end Definition

def bench : Workshop := ⟨Registry.builtin, [], Value.call⟩

def oneLevel : Settings := ⟨1, false, by decide⟩

def box : Definition := ⟨0, "box", [⟨"weight", .untyped, false, none, []⟩], .default⟩

/-- a crate, to which the box is attached as a type -/
def crateBlock : Block := .declarations [⟨false, .text "inner", .definition box, .none, []⟩]

/-- the crate, built with settings that allow one level -/
def crate : Definition := ⟨0, "crate", [⟨"inner", .nested box, false, none, []⟩], oneLevel⟩

def openCrateBlock : Block := .declarations [
  ⟨false, .text "inner", .none, .declarations [⟨false, .text "weight", .none, .none, []⟩], []⟩]

/-- the crate with two levels, each declared in a block of its own -/
def openCrate : Definition := ⟨0, "crate", [⟨"inner",
  .nested ⟨0, "crate.inner", [⟨"weight", .untyped, false, none, []⟩], .default⟩, false, none, []⟩], .default⟩

/-- the crate with both its levels is made under the usual settings -/
theorem openCrate_depth :
    openCrateBlock.Fits bench Settings.default.maxDepth ∧
    (openCrate.height ≤ Settings.default.maxDepth ↔
      ∀ k e, openCrateBlock.Attaches bench k e → k + e.height ≤ Settings.default.maxDepth) ∧
    ∀ t o, Definition.MadeOf bench 0 openCrateBlock t o →
      (openCrateBlock.Fits bench t.maxDepth → ∃ d', o = .ok d') ∧
      (¬ openCrateBlock.Fits bench t.maxDepth → ∃ place, o = refuse (.tooDeep place (t.maxDepth + 1) t.maxDepth)) := by
  have hdefine : Definition.define bench 0 (.text "crate") openCrateBlock .default = .ok openCrate := by
    unfold Definition.define openCrateBlock
    simp only [Builder.declareAll, Builder.declare, Builder.buildBlock, Settings.default]
    rfl
  exact Definition.depth_of_made (hdefine ▸ .defined rfl openCrateBlock .default)

/-- **A definition is nested deeper than its settings allow**: the box that is attached brings a second level -/
theorem shallow_holds_two_levels :
    Definition.define bench 0 (.text "crate") crateBlock oneLevel = .ok crate ∧ oneLevel.maxDepth < crate.height := by
  constructor
  · unfold Definition.define crateBlock
    simp only [Builder.declareAll, Builder.declare, Builder.buildBlock]
    rfl
  · simp [crate, box, oneLevel, Definition.height, Definition.heightOfAll, Definition.heightOfAttribute,
      Definition.heightOfShape]

end Intake
