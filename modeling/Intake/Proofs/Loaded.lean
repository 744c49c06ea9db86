/-
What a definition that is loaded from a file can be.

A document holds plain data. So no rule in it is a function of the caller (`Definition.not_callback_of_loaded`); and if
no built definitions are known by name, none is attached, so a single builder with its inner ones makes the whole,
under the same settings everywhere and with distinct names (`Definition.namesDistinct_of_loaded`,
`Definition.settings_of_loaded`).
-/
import Intake.Definition.Load
import Intake.Proofs.Refusing
import Intake.Proofs.RuleSight
import Intake.Proofs.StrictLevels
import Intake.Proofs.Yaml.Documents

namespace Intake

open Intake.Outcome

variable {w : Workshop} {stamp : Nat} {s : Settings} {block : Block} {ds : List Declaration} {d c : Definition}
  {x : Declaration}

/-! ## Rules -/

/-- functions are asked for by values that can be called -/
theorem callable_of_callbacks {config : Value} {rules : List Rule} (h : buildCallbacks config = .ok rules) {rule : Rule}
    (hr : rule ∈ rules) : ∃ f ∈ config.items?.getD [config], f.callable = true := by
  obtain ⟨f, hf, hbuilt⟩ := exists_of_mem_right (mapM_eq_ok.1 h) hr
  split at hbuilt
  · next hcall => exact ⟨f, hf, hcall⟩
  · obtain ⟨shown, -, hbuilt⟩ := bind_eq_ok.1 hbuilt
    cases hbuilt

/-- options that a document can hold give no function of the caller -/
theorem not_callback_of_buildRules {options : List (Value × Value)} {rules : List Rule}
    (ho : ∀ o ∈ options, o.2.Documentary)
    (h : buildRules options = .ok rules) : ∀ rule ∈ rules, rule.option ≠ "validate" := by
  rintro rule hrule hvalidate
  obtain ⟨o, hmem, rs, hbuilt, hr⟩ := option_of_mem_rules h hrule
  have hdata := ho o hmem
  obtain ⟨option, hkey, hb, -⟩ := built_of_buildOption hbuilt
  obtain rfl : option = "validate" := (hb rule hr).2.symm.trans hvalidate
  rw [buildOption, hkey] at hbuilt
  obtain ⟨f, hf, hcall⟩ := callable_of_callbacks hbuilt hr
  have hdocumentary : f.Documentary := by
    cases hitems : o.2.items? with
    | none =>
      rw [hitems, Option.getD_none, List.mem_singleton] at hf
      rwa [hf]
    | some xs =>
      rw [hitems, Option.getD_some] at hf
      exact hdata.items hitems hf
  rw [hdocumentary.not_callable] at hcall
  cases hcall

/-! ## Declarations -/

/-- parts of data that a document can hold -/
def Parts.Documentary (parts : Parts) : Prop := ∀ e ∈ parts, e.2.Documentary

theorem Parts.Documentary.without {parts : Parts} (h : parts.Documentary) (name : String) :
    Parts.Documentary (Value.removeKey name parts) := fun e he => h e (List.mem_of_mem_filter he)

/-- no block, or the configurations of a document -/
inductive Block.Documented : Block → Prop where
  | none : Documented .none
  | document {es : Parts} (h : es.Documentary) : Documented (.document es)

/-- a declaration that a configuration of a document stands for: nothing is attached to it, and no rule is a function -/
structure Declaration.Documented (x : Declaration) : Prop where
  type : ∀ e, x.type ≠ .definition e
  options : Parts.Documentary (Value.removeKey "default" x.options)
  block : x.block.Documented

theorem documentary_of_configParts {name config : Value} {parts : Parts} (hc : config.Documentary)
    (h : configParts name config = .ok parts) : parts.Documentary := by
  unfold configParts at h
  split at h
  · cases h
    simp [Parts.Documentary]
  · cases h
    exact fun e he => hc.child (.entry he)
  · split at h
    · cases h
      exact List.forall_mem_singleton.2 hc
    · obtain ⟨u, -, h⟩ := bind_eq_ok.1 h
      cases h

/-- but for the default, the options are those of the configuration -/
theorem removeKey_of_castDefaultOption {r : Registry} {name : Value} {type nested : Option Value} {parts options : Parts}
    (h : castDefaultOption r name type nested parts = .ok options) :
    Value.removeKey "default" options = Value.removeKey "default" parts := by
  unfold castDefaultOption at h
  split at h
  · obtain ⟨v, -, h⟩ := bind_eq_ok.1 h
    cases h
    exact removeKey_insertEntry _ _ _
  · cases h
    rfl

theorem documented_of_ofConfig {r : Registry} {name config : Value} (hc : config.Documentary)
    (h : Declaration.ofConfig r [] name config = .ok x) : x.Documented := by
  rw [ofConfig_eq] at h
  obtain ⟨parts, hparts, h⟩ := bind_eq_ok.1 h
  have hdata := documentary_of_configParts hc hparts
  obtain ⟨required, -, h⟩ := bind_eq_ok.1 h
  obtain ⟨block, hblock, h⟩ := bind_eq_ok.1 h
  obtain ⟨options, hoptions, h⟩ := bind_eq_ok.1 h
  cases h
  have hrest := (hdata.without "required").without "type"
  constructor
  case type =>
    intro e
    dsimp only [Parts.pop]
    cases Parts.given (Value.field? "type" (Value.removeKey "required" parts)) with
    | none => rintro ⟨⟩
    | some v => simp [documentType_nil]
  case options =>
    dsimp only
    rw [removeKey_of_castDefaultOption hoptions]
    exact (hrest.without "attributes").without "default"
  case block =>
    unfold nestedBlock at hblock
    split at hblock
    · cases hblock
      exact .none
    · next ro es hes =>
      cases hblock
      obtain ⟨e, he, -, hvalue⟩ := any_of_field? (field?_of_given hes)
      refine .document fun f hf => ?_
      exact (hvalue ▸ hrest e he : (Value.map ro es).Documentary).child (.entry hf)
    · obtain ⟨u, -, hblock⟩ := bind_eq_ok.1 hblock
      cases hblock

namespace Block

theorem Documented.lists (hw : w.known = []) (hb : block.Documented) (h : block.Lists w ds) : ∀ x ∈ ds, x.Documented := by
  intro x hx
  cases h with
  | document h =>
    cases hb with
    | document hes =>
      obtain ⟨e, he, hconfig⟩ := exists_of_mem_right h hx
      rw [hw] at hconfig
      exact documented_of_ofConfig (hes e he) hconfig
  | declarations => cases hb
  | function => cases hx

/-- whatever a documented block declares, at any level, is documented -/
theorem Documented.declares (hw : w.known = []) (hb : block.Documented) {k : Nat} (h : block.Declares w k x) :
    x.Documented := by
  induction h with
  | listed hl hx => exact hb.lists hw hl _ hx
  | inside hl hx _ ih => exact ih (hb.lists hw hl _ hx).block

theorem Documented.not_attaches (hw : w.known = []) (hb : block.Documented) {k : Nat} {e : Definition} :
    ¬ block.Attaches w k e := by
  rintro ⟨x, hx, ht | hblock⟩
  · exact (hb.declares hw hx).type e ht
  · have hdocumented := (hb.declares hw hx).block
    rw [hblock] at hdocumented
    cases hdocumented

end Block

/-! ## Definitions -/

namespace Definition

/-- a definition that is made of a document is defined by it at every depth -/
theorem defines_of_documented (hw : w.known = []) (hb : block.Documented) (h : MadeOf w stamp block s (.ok d))
    (hc : c.Within d) :
    ∃ (inner : Block) (lower : Nat), inner.Documented ∧ inner.Defines w lower s stamp c := by
  rcases (defines_of_made h).within hc with ⟨k, e, hattached, -⟩ | ⟨inner, lower, hinner, rfl | ⟨k, x, hx, rfl⟩⟩
  · exact absurd hattached (hb.not_attaches hw)
  · exact ⟨_, lower, hb, hinner⟩
  · exact ⟨_, lower, (hb.declares hw hx).block, hinner⟩

theorem settings_of_documented (hw : w.known = []) (hb : block.Documented) (h : MadeOf w stamp block s (.ok d))
    (hc : c.Within d) :
    c.settings = s := by
  rcases settings_within h hc with hs | ⟨k, e, hattached, -⟩
  · exact hs
  · exact absurd hattached (hb.not_attaches hw)

theorem documentary_of_fileDocument {path : Path} {found : Entry} {v : Value} (h : fileDocument path found = .ok v) :
    v.Documentary := by
  unfold fileDocument at h
  split at h
  · cases h
  · cases h
  · unfold documentOf at h
    split at h
    · cases h
    · next hread =>
      cases h
      exact Yaml.documentary_of_read hread
    · cases h
    · cases h

/-- the configurations of a document are data that it holds -/
theorem documentary_of_draft {v : Value} {name : Option String} {given : Option Settings} {p : Draft} (hv : v.Documentary)
    (h : draft v name given = .ok p) : Parts.Documentary p.configs := by
  have of_envelope {es inner : List (Value × Value)} (hes : ∀ e ∈ es, e.2.Documentary) (h : envelope? es = some inner) :
      Parts.Documentary inner := by
    unfold envelope? at h
    split at h
    · obtain ⟨u, hu, hentries⟩ := Option.bind_eq_some_iff.1 h
      obtain ⟨e, he, -, hvalue⟩ := any_of_field? hu
      have hdata : u.Documentary := hvalue ▸ hes e he
      cases u with
      | map ro fs => cases hentries; exact fun f hf => hdata.child (.entry hf)
      | _ => cases hentries
    · cases h
  unfold draft at h
  split at h
  · split at h
    · next inner hinner =>
      have hdata := of_envelope (fun e he => hv.child (.entry he)) hinner
      cases given
      all_goals
        obtain ⟨settings, -, h⟩ := bind_eq_ok.1 h
        obtain ⟨title, -, h⟩ := bind_eq_ok.1 h
        cases h
        exact hdata
    · obtain ⟨title, -, h⟩ := bind_eq_ok.1 h
      cases h
      exact fun e he => hv.child (.entry he)
  · cases h

/-- a definition that is loaded is made of a document, under its own settings -/
theorem made_of_loaded {path : Path} {found : Entry} {name : Option String} (hw : w.known = [])
    (h : ofFile w stamp path found name = .ok d) :
    ∃ block, block.Documented ∧ MadeOf w stamp block d.settings (.ok d) := by
  obtain ⟨v, hv, h⟩ := bind_eq_ok.1 h
  have hdescribed := h
  obtain ⟨p, hdraft, -⟩ := bind_eq_ok.1 h
  have hb : (Block.document p.configs).Documented :=
    .document (documentary_of_draft (documentary_of_fileDocument hv) hdraft)
  have hmade : MadeOf w stamp (.document p.configs) p.settings (.ok d) := hdescribed ▸ .described hdraft
  exact ⟨_, hb, settings_of_documented hw hb hmade (.here d) ▸ hmade⟩

variable {path : Path} {found : Entry} {name : Option String}

/-- **A loaded definition asks no function of the caller**, at any depth. -/
theorem not_callback_of_loaded (hw : w.known = []) (h : ofFile w stamp path found name = .ok d) (hc : c.Within d) :
    ∀ a ∈ c.attributes, ∀ rule ∈ a.rules, rule.option ≠ "validate" := by
  obtain ⟨block, hb, hmade⟩ := made_of_loaded hw h
  obtain ⟨inner, lower, hinner, hdefines⟩ := defines_of_documented hw hb hmade hc
  intro a ha
  cases hdefines with
  | intro lists _ makes =>
    obtain ⟨x, hx, hmakes⟩ := exists_of_mem_right makes ha
    have hrules := hmakes.rules
    rw [Builder.snd_popDefault] at hrules
    exact not_callback_of_buildRules (hinner.lists hw lists x hx).options hrules

/-- **The settings of a loaded definition are the same at every depth.** -/
theorem settings_of_loaded (hw : w.known = []) (h : ofFile w stamp path found name = .ok d) (hc : c.Within d) :
    c.settings = d.settings := by
  obtain ⟨block, hb, hmade⟩ := made_of_loaded hw h
  exact settings_of_documented hw hb hmade hc

/-- the names of its attributes are distinct at every depth -/
theorem namesDistinct_of_loaded (hw : w.known = []) (h : ofFile w stamp path found name = .ok d) : d.NamesDistinct := by
  obtain ⟨block, hb, hmade⟩ := made_of_loaded hw h
  exact namesDistinct_of_made hmade fun k e hattached => absurd hattached (hb.not_attaches hw)

end Definition

end Intake
