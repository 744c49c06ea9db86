/-
How far strict types reach.

Whether types are strict is asked of the definition that owns an attribute. A definition that a builder makes inside
another has the settings of the whole, and so it is with every instance that it parses. A definition that is attached
keeps the settings that it was built with, strict or not, and with it everything inside it.

So under strict types every value that is given is of the declared type, or a number that widens to it, and no text is
turned into anything else, at every depth, but where a lax definition is attached.

Results:
- `Registry.strictlyOf_of_cast`: what a strict cast takes;
- `Definition.strict_at_own_levels`: what every attribute of every instance was given, or which definition owns it;
- `strict_crate_coerces`: an attached definition turns a text into a number under strict settings.
-/
import Intake.Proofs.Acceptance
import Intake.Proofs.NestingDepth

namespace Intake

open Intake.Outcome

variable {w : Workshop} {stamp : Nat} {s : Settings} {block : Block} {r : Registry} {d c : Definition} {p q : Instance}

/-! ## Strict casts -/

/-- a strict cast takes only what is of the type already, or a number that widens to it, and changes only numbers -/
theorem Registry.strictlyOf_of_cast {t : ValueType} {v v' : Value} (h : r.cast t true v = .ok (.ok v')) :
    strictlyOf t v = true ∧ (t ≠ .float → t ≠ .decimal → v' = v) := by
  unfold cast at h
  simp only [if_true] at h
  split at h
  · cases h
  · rename_i hstrictly
    refine ⟨by simpa using hstrictly, fun hfloat hdecimal => ?_⟩
    rw [if_neg (by simp [hfloat, hdecimal])] at h
    cases h
    rfl

theorem Registry.eq_text_of_strictlyOf {t : ValueType} {v : Value} {txt : String} (h : strictlyOf t v = true)
    (hv : v.text? = some txt) : t = .text := by
  cases v with
  | text => simpa [strictlyOf, Value.hasType] using h
  | textMember => simpa [strictlyOf, Value.hasType] using h
  | _ => cases hv

/-- a scalar attribute that is given a value has it from one that strict types admit; from a text only as that text -/
def Attribute.TakesStrictly (r : Registry) (a : Attribute) (given : Option Value) (value : Value) : Prop :=
  ∀ t, a.shape = .scalar t → ¬ a.NotGiven given → ∃ v, given = some v ∧ Registry.strictlyOf t v = true ∧
    r.cast t true v = .ok (.ok value) ∧ ∀ txt, v.text? = some txt → t = .text ∧ value = v

/-- what an attribute yields under strict types it has taken strictly -/
theorem Attribute.takesStrictly_of_yields {here : Place} {view : KeyView} {a : Attribute} {o : Option Value}
    (h : a.Yields r here true view (.ok o)) : a.TakesStrictly r (view.get? a.name) (o.getD .null) := by
  intro t ht hgiven
  cases h with
  | absent _ hnull _ => exact absurd (rawValue_eq_null.1 hnull) hgiven
  | @accepted v _ _ hresolve _ =>
    have hresolves := Shape.resolve_eq_ok.1 hresolve
    rw [ht] at hresolves
    cases hresolves with
    | scalar hcast =>
      rw [Option.getD_some, Value.placedAt_strict]
      obtain ⟨hstrictly, hsame⟩ := Registry.strictlyOf_of_cast hcast
      refine ⟨_, rawValue_of_given hgiven, hstrictly, hcast, fun txt htxt => ?_⟩
      obtain rfl := Registry.eq_text_of_strictlyOf hstrictly htxt
      exact ⟨rfl, hsame nofun nofun⟩

/-! ## Instances and the definitions that own them -/

/-- an instance inside a parsed one belongs to a definition inside the other's -/
theorem Definition.Reaches.within (h : Reaches d p c q) : c.Within d := by
  induction h with
  | here => exact .here _
  | nested ha hs _ _ ih => exact .part ha (by rw [hs]; rfl) ih
  | element ha hs _ _ _ ih => exact .part ha (by rw [hs]; rfl) ih

/-- names are distinct inside a definition that is made if they are inside the definitions that are attached -/
theorem Definition.namesDistinct_of_made (h : MadeOf w stamp block s (.ok d))
    (hn : ∀ k e, block.Attaches w k e → e.NamesDistinct) : d.NamesDistinct := by
  intro c hc
  rcases (defines_of_made h).within hc with ⟨k, e, hattached, hc⟩ | ⟨inner, lower, hinner, -⟩
  · exact hn k e hattached c hc
  · cases hinner with
    | intro _ distinct _ => exact distinct

/-- **Strict types reach every level that a builder makes.** In every instance inside one that a definition with strict
types parses, each scalar attribute that is given a value has it from one that strict types admit; or the instance belongs
to a definition without strict types, which stands inside one that is attached. -/
theorem Definition.strict_at_own_levels (h : MadeOf w stamp block s (.ok d)) (hs : s.strictTypes = true)
    (hn : ∀ k e, block.Attaches w k e → e.NamesDistinct) {run : Nat} {raw : Value} (hp : d.parse r run raw = .ok p)
    (hq : Reaches d p c q) :
    (∃ view, Parsed.view q = .ok view ∧ ∀ a ∈ c.attributes, a.TakesStrictly r (view.get? a.name) (q.valueOf a.name)) ∨
      (c.settings.strictTypes = false ∧ ∃ k e, block.Attaches w k e ∧ c.Within e) := by
  cases hstrict : c.settings.strictTypes with
  | true =>
    obtain ⟨hc, there, hread⟩ := hq.read (namesDistinct_of_made h hn) (read_of_parse hp)
    obtain ⟨-, view, hview, hall⟩ := valueOf_of_read (hc c (.here c)) hread
    refine .inl ⟨view, hview, fun a ha => ?_⟩
    obtain ⟨o, hy, ho⟩ := hall a ha
    rw [hstrict] at hy
    rw [ho]
    exact Attribute.takesStrictly_of_yields hy
  | false =>
    rcases settings_within h hq.within with hsettings | hattached
    · rw [hsettings, hs] at hstrict
      cases hstrict
    · exact .inr ⟨rfl, hattached⟩

def strictSettings : Settings := ⟨32, true, Settings.default.inRange⟩

def loadBlock : Block := .declarations [
  ⟨true, .text "load", .none, .declarations [⟨true, .text "weight", .value (.text "integer"), .none, []⟩], []⟩]

def crateLoad : Definition := ⟨0, "crate.load", [⟨"weight", .scalar .integer, true, none, []⟩], strictSettings⟩

def loadedCrate : Definition := ⟨0, "crate", [⟨"load", .nested crateLoad, true, none, []⟩], strictSettings⟩

def sevenLoaded : Instance := ⟨crateLoad.heading, .map false [(.text "weight", .int 7)], [("weight", .int 7)], ["weight"]⟩

/-- the load of a parsed crate has its weight from a number -/
theorem load_taken_strictly :
    (∃ view, Parsed.view sevenLoaded = .ok view ∧
      ∀ a ∈ crateLoad.attributes, a.TakesStrictly .builtin (view.get? a.name) (sevenLoaded.valueOf a.name)) ∨
    (crateLoad.settings.strictTypes = false ∧ ∃ k e, loadBlock.Attaches bench k e ∧ crateLoad.Within e) := by
  have hdefine : Definition.define bench 0 (.text "crate") loadBlock strictSettings = .ok loadedCrate := by
    unfold Definition.define loadBlock
    simp only [Builder.declareAll, Builder.declare, Builder.buildBlock, strictSettings]
    rfl
  have hmade : Definition.MadeOf bench 0 loadBlock strictSettings (.ok loadedCrate) :=
    hdefine ▸ .defined rfl loadBlock strictSettings
  have hnone (k : Nat) (e : Definition) : ¬ loadBlock.Attaches bench k e := by
    have hleaf (j : Nat) : ¬ Block.none.Attaches bench j e := fun h => absurd (Block.isOpen_of_attaches h) (by decide)
    simp [loadBlock, Block.attaches_iff (.declarations _), Declaration.Attaches, hleaf]
  have hp : loadedCrate.parse .builtin 0 (.map false [(.text "load", sevenLoaded.raw)]) =
      .ok ⟨loadedCrate.heading, .map false [(.text "load", sevenLoaded.raw)], [("load", .parsed sevenLoaded)],
        ["load"]⟩ := rfl
  exact Definition.strict_at_own_levels hmade rfl (fun k e he => absurd he (hnone k e)) hp
    (.nested (a := ⟨"load", .nested crateLoad, true, none, []⟩) List.mem_cons_self rfl rfl (.here crateLoad sevenLoaded))

/-- the load built on its own, without strict types -/
def laxLoad : Definition := ⟨0, "load", [⟨"weight", .scalar .integer, true, none, []⟩], .default⟩

/-- **An attached definition turns a text into a number under strict settings**: the crate is strict, and the load that is
attached to it is not -/
theorem strict_crate_coerces :
    ∃ d p q, Definition.define bench 0 (.text "crate")
        (.declarations [⟨true, .text "load", .definition laxLoad, .none, []⟩]) strictSettings = .ok d ∧
      d.parse .builtin 0 (.map false [(.text "load", .map false [(.text "weight", .text "7")])]) = .ok p ∧
      p.valueOf "load" = .parsed q ∧ q.raw = .map false [(.text "weight", .text "7")] ∧ q.valueOf "weight" = .int 7 := by
  refine ⟨⟨0, "crate", [⟨"load", .nested laxLoad, true, none, []⟩], strictSettings⟩, _, _, ?_, rfl, rfl, rfl, rfl⟩
  unfold Definition.define
  simp only [Builder.declareAll, Builder.declare, Builder.buildBlock]
  rfl

end Intake
