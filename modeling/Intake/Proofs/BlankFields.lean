/-
Blank form fields.

A form sends every field as text, so one that was left empty arrives as a text of blanks. Where a scalar type other than
text is declared such a text counts as nothing: with either in its place the same mapping has the same outcome, whether
the attribute is required or not, and whether it has a default or not, as long as nothing is compared by identity that
the two parses have each of their own. The empty text is missing under a required attribute of
any shape, as nothing is. An array of mappings has no scalar type, though a list is declared for it, so a text of
blanks is refused there as no array, where nothing is as good as absent.

Results:
- `Definition.blank_read`: what a text of blanks under an attribute comes to, against nothing;
- `Definition.blank_array_refused`: under an array of mappings it is refused, and nothing is not.
-/
import Intake.Proofs.Acceptance
import Intake.Proofs.KeyIndifference

namespace Intake

open Outcome

/-! ## Blank texts -/

theorem Text.strip_eq_nil_iff {s : List Char} : Text.strip s = [] ↔ ∀ c ∈ s, Text.isBlank c = true := by
  unfold Text.strip Text.stripRight
  rw [List.reverse_eq_nil_iff, List.dropWhile_eq_nil_iff]
  constructor
  · intro h c hc
    rw [← List.takeWhile_append_dropWhile (p := Text.isBlank) (l := s)] at hc
    rcases List.mem_append.1 hc with hc | hc
    · exact List.mem_takeWhile_imp hc
    · exact h c (List.mem_reverse.2 hc)
  · intro h c hc
    exact h c ((Text.stripLeft_sublist s).subset (List.mem_reverse.1 hc))

namespace Value

/-- a text of nothing but blanks, or of nothing at all -/
def BlankText (v : Value) : Prop := ∃ s, v.text? = some s ∧ ∀ c ∈ s.toList, Text.isBlank c = true

theorem isBlank_iff {v : Value} : v.isBlank = true ↔ v.BlankText := by
  unfold isBlank BlankText
  cases v.text? with
  | none => simp
  | some s => simp [Text.strip_eq_nil_iff]

theorem BlankText.ne_null {v : Value} (h : v.BlankText) : v ≠ .null := by
  rintro rfl
  obtain ⟨s, hs, -⟩ := h
  cases hs

theorem BlankText.items? {v : Value} (h : v.BlankText) : v.items? = none := by
  obtain ⟨s, hs, -⟩ := h
  rcases text?_eq_some hs with rfl | rfl <;> rfl

end Value

namespace Attribute

/-- a blank text counts as nothing: a scalar type other than text is declared, or a value is required and the text is
empty -/
def TakesAsNothing (a : Attribute) (w : Value) : Prop :=
  (∃ t, a.shape = .scalar t ∧ t ≠ .text) ∨ a.required = true ∧ w.text? = some ""

variable {r : Registry} {here : Place} {strict : Bool} {a : Attribute} {view view' : KeyView} {w : Value}

theorem read_of_get? (h : view.get? a.name = view'.get? a.name) :
    Attribute.read r here strict view a = Attribute.read r here strict view' a := by
  refine read_same ?_ ?_
  · unfold suppliedIn
    rw [h]
  · unfold rawValue
    rw [h]

/-- a blank text that counts as nothing is read as nothing is -/
theorem read_of_blank (hw : w.BlankText) (ha : a.TakesAsNothing w) (hv : view.get? a.name = some w)
    (hv' : view'.get? a.name = some .null) :
    Attribute.read r here strict view a = Attribute.read r here strict view' a := by
  have hs : a.suppliedIn view = a.suppliedIn view' := by
    unfold suppliedIn
    rw [hv, hv']
    rfl
  have hnull : a.rawValue view' = .null := rawValue_eq_null.2 (.inr (.inl hv'))
  rcases ha with ⟨t, hshape, hne⟩ | ⟨hreq, hempty⟩
  · have hraw : a.rawValue view = .null :=
      rawValue_eq_null.2 (.inr (.inr ⟨t, w, hshape, hne, hv, Value.isBlank_iff.2 hw⟩))
    exact read_same hs (hraw.trans hnull.symm)
  · -- nothing and the empty text are both missing, whatever the shape
    have hmiss : a.missingIn view = true := by
      unfold missingIn
      rw [hreq, Bool.true_and]
      by_cases hn : a.NotGiven (view.get? a.name)
      · rw [rawValue_eq_null.2 hn]
        rfl
      · rw [← Option.some.inj (hv.symm.trans (rawValue_of_given hn))]
        rcases text?_eq_some hempty with rfl | rfl <;> rfl
    have hmiss' : a.missingIn view' = true := by
      unfold missingIn
      rw [hreq, hnull]
      rfl
    rw [read_eq, read_eq, if_pos hmiss, if_pos hmiss', hs]

/-- under an array of mappings any other blank text is no array -/
theorem yields_of_blank_array {d : Definition} (hw : w.BlankText) (hshape : a.shape = .arrayOf d)
    (hv : view.get? a.name = some w) (hn : ¬ a.TakesAsNothing w) {x : NamedReading}
    (hx : Attribute.read r here strict view a = .ok x) : x.reading = .error (.message notArrayMessage) := by
  have hraw : a.rawValue view = w := by
    unfold rawValue blankIsNull
    rw [hshape, hv]
    rfl
  have hmiss : a.missingIn view = false := by
    unfold missingIn
    rw [hraw]
    cases hreq : a.required with
    | false => rfl
    | true =>
      obtain ⟨s, hs, -⟩ := hw
      have hs' : s ≠ "" := fun h => hn (.inr ⟨hreq, h ▸ hs⟩)
      rcases text?_eq_some hs with rfl | rfl <;> simpa [Value.isMissing, String.isEmpty_iff] using hs'
  have hnull : a.rawValue view ≠ .null := hraw ▸ hw.ne_null
  rw [read_of_not_null hmiss hnull, hraw] at hx
  obtain ⟨resolved, y, hres, hy, rfl⟩ := readValue_eq_ok.1 hx
  rw [hshape, Shape.resolve, parseItems, hw.items?] at hres
  cases hres
  rcases checked_eq_ok.1 hy with ⟨f, hf, rfl⟩ | ⟨v, ms, hv, -⟩
  · cases hf
    rfl
  · cases hv

end Attribute

/-! ## One key with two values -/

/-- a key stands for a name: so do all keys that are equal to it -/
structure Spells (k : Value) (name : String) : Prop where
  normal : normalizeKey k = .ok name
  equal : ∀ l, k.sameKey l = true → normalizeKey l = .ok name

theorem spells_text (name : String) : Spells (.text name) name := by
  refine ⟨rfl, fun l hl => ?_⟩
  have htext : l.text? = some name := by simpa [Value.sameKey, Value.same] using hl
  rcases text?_eq_some htext with rfl | rfl <;> rfl

section Views

variable {name : String} {k v v' : Value}

/-- two entries of one key, with the same value or else with these two under the name -/
def EntryOr (name : String) (v v' : Value) (e f : Value × Value) : Prop :=
  e.1 = f.1 ∧ (e.2 = f.2 ∨ normalizeKey e.1 = .ok name ∧ e.2 = v ∧ f.2 = v')

/-- two views have the same values, or else these two under the name -/
def ViewOr (name : String) (v v' : Value) (es fs : List (String × Value)) : Prop :=
  (∀ n ≠ name, KeyView.find n es = KeyView.find n fs) ∧
    (KeyView.find name es = KeyView.find name fs ∨ KeyView.find name es = some v ∧ KeyView.find name fs = some v')

theorem entries_or (hk : Spells k name) (v v' : Value) (es : List (Value × Value)) :
    List.Forall₂ (EntryOr name v v') (Value.insertEntry k v es) (Value.insertEntry k v' es) := by
  induction es with
  | nil => exact .cons ⟨rfl, .inr ⟨hk.normal, rfl, rfl⟩⟩ .nil
  | cons e es ih =>
    obtain ⟨l, x⟩ := e
    rw [Value.insertEntry, Value.insertEntry]
    split
    · next hl => exact .cons ⟨rfl, .inr ⟨hk.equal l hl, rfl, rfl⟩⟩ (List.forall₂_same.2 fun _ _ => ⟨rfl, .inl rfl⟩)
    · exact .cons ⟨rfl, .inl rfl⟩ ih

/-- one entry after another keeps the views apart by no more than these two values -/
theorem views_or {es fs : List (Value × Value)} (h : List.Forall₂ (EntryOr name v v') es fs)
    {acc acc' : List (String × Value)} (hacc : ViewOr name v v' acc acc') :
    (∃ f, KeyView.ofEntriesFrom acc es = .error f ∧ KeyView.ofEntriesFrom acc' fs = .error f) ∨
      ∃ xs ys, KeyView.ofEntriesFrom acc es = .ok xs ∧ KeyView.ofEntriesFrom acc' fs = .ok ys ∧
        ViewOr name v v' xs ys := by
  induction h generalizing acc acc' with
  | nil => exact .inr ⟨acc, acc', rfl, rfl, hacc⟩
  | @cons e f es fs hef _ ih =>
    obtain ⟨l, x⟩ := e
    obtain ⟨m, y⟩ := f
    obtain ⟨rfl, hvalues⟩ := hef
    rw [KeyView.ofEntriesFrom, KeyView.ofEntriesFrom]
    dsimp only at hvalues ⊢
    cases hl : normalizeKey l with
    | error g => exact .inl ⟨g, rfl, rfl⟩
    | ok key =>
      -- an entry whose value differs has the name for its normal form, so no other name sees it
      refine ih ⟨fun n hn => ?_, ?_⟩
      · by_cases hkey : n = key
        · subst hkey
          rw [KeyView.find_insert_self, KeyView.find_insert_self]
          rcases hvalues with rfl | ⟨hname, -, -⟩
          · rfl
          · cases hl.symm.trans hname
            exact absurd rfl hn
        · rw [KeyView.find_insert_ne hkey, KeyView.find_insert_ne hkey, hacc.1 n hn]
      · by_cases hkey : name = key
        · subst hkey
          rw [KeyView.find_insert_self, KeyView.find_insert_self]
          rcases hvalues with rfl | ⟨-, rfl, rfl⟩
          · exact .inl rfl
          · exact .inr ⟨rfl, rfl⟩
        · rw [KeyView.find_insert_ne hkey, KeyView.find_insert_ne hkey]
          exact hacc.2

/-- with one value or the other put at a key, a mapping is seen alike but for these two values -/
theorem viewOf_insertEntry (hk : Spells k name) (v v' : Value) (ro : Bool) (es : List (Value × Value)) :
    (∃ f, Definition.viewOf (.map ro (Value.insertEntry k v es)) = .error f ∧
        Definition.viewOf (.map ro (Value.insertEntry k v' es)) = .error f) ∨
      ∃ view view', Definition.viewOf (.map ro (Value.insertEntry k v es)) = .ok view ∧
        Definition.viewOf (.map ro (Value.insertEntry k v' es)) = .ok view' ∧
        ViewOr name v v' view.entries view'.entries := by
  unfold Definition.viewOf KeyView.ofEntries
  dsimp only [Value.entries?, Option.getD_some]
  have hstart : ViewOr name v v' [] [] := ⟨fun _ _ => rfl, .inl rfl⟩
  rcases views_or (entries_or hk v v' es) hstart with
    ⟨f, hx, hy⟩ | ⟨xs, ys, hx, hy, hor⟩
  · rw [hx, hy]
    exact .inl ⟨f, rfl, rfl⟩
  · rw [hx, hy]
    exact .inr ⟨⟨xs⟩, ⟨ys⟩, rfl, rfl, hor⟩

end Views

/-! ## Outcomes -/

namespace Definition

variable {r : Registry} {run run' : Nat} {d : Definition} {ro : Bool} {es : List (Value × Value)}

/-- two raw values come to the same in two runs: to the same fault, which may be a rejection with its report, or to the
same instance but for the raw value that it keeps -/
inductive Alike (r : Registry) (run run' : Nat) (d : Definition) (raw raw' : Value) : Prop where
  | failed (f : Fault) (h : d.parse r run raw = .error f) (h' : d.parse r run' raw' = .error f)
  | accepted (p : Instance) (h : d.parse r run raw = .ok p) (h' : d.parse r run' raw' = .ok { p with raw := raw' })

/-- a mapping is refused with this message alone under this name, if nothing breaks its parse off -/
structure RefusedFor (r : Registry) (run : Nat) (d : Definition) (raw : Value) (name message : String) : Prop where
  not_accepted : ∀ p, d.parse r run raw ≠ .ok p
  reported : ∀ rep, d.read r (.root run) raw = .ok (.error rep) → Report.find name rep.entries = some (.message message)

/-- runs tell nothing where nothing is compared by identity -/
theorem Alike.any_run (hd : d.ByContent r) {raw raw' : Value} (h : d.Alike r run run raw raw') (run' : Nat) :
    d.Alike r run run' raw raw' := by
  cases h with
  | failed f h h' => exact .failed f h (by rwa [hd.parse_any_run run' run])
  | accepted p h h' => exact .accepted p h (by rwa [hd.parse_any_run run' run])

/-- mappings that cannot be seen for the same reason come to the same -/
theorem alike_of_no_view {ro ro' : Bool} {es es' : List (Value × Value)} {f : Fault} (h : viewOf (.map ro es) = .error f)
    (h' : viewOf (.map ro' es') = .error f) : d.Alike r run run (.map ro es) (.map ro' es') := by
  have hread {raw : Value} (h : viewOf raw = .error f) : d.read r (.root run) raw = .error f := by
    obtain ⟨stamp, name, attributes, settings⟩ := d
    unfold viewOf at h
    rw [Definition.read, h]
    rfl
  exact .failed f (by rw [parse_map, hread h]; rfl) (by rw [parse_map, hread h']; rfl)

/-- mappings whose attributes are read the same come to the same -/
theorem alike_of_views {ro ro' : Bool} {es es' : List (Value × Value)} {view view' : KeyView}
    (hview : viewOf (.map ro es) = .ok view) (hview' : viewOf (.map ro' es') = .ok view')
    (h : ∀ a ∈ d.attributes, ∀ here,
      Attribute.read r here d.settings.strictTypes view a = Attribute.read r here d.settings.strictTypes view' a) :
    d.Alike r run run (.map ro es) (.map ro' es') := by
  have hreadings : readAttributes r (.root run) d.settings.strictTypes view d.attributes =
      readAttributes r (.root run) d.settings.strictTypes view' d.attributes := by
    rw [readAttributes_eq_mapM, readAttributes_eq_mapM]
    exact mapM_congr fun a ha => h a ha _
  have hread : (∃ f, d.read r (.root run) (.map ro es) = .error f ∧ d.read r (.root run) (.map ro' es') = .error f) ∨
      ∃ rs, d.read r (.root run) (.map ro es) = .ok (gather d.heading (.map ro es) rs) ∧
        d.read r (.root run) (.map ro' es') = .ok (gather d.heading (.map ro' es') rs) := by
    obtain ⟨stamp, name, attributes, settings⟩ := d
    rw [Definition.read, Definition.read]
    unfold viewOf at hview hview'
    rw [hview, hview', ok_bind, ok_bind, hreadings]
    cases readAttributes r (.root run) settings.strictTypes view' attributes with
    | error f => exact .inl ⟨f, rfl, rfl⟩
    | ok rs => exact .inr ⟨rs, rfl, rfl⟩
  rcases hread with ⟨f, hx, hy⟩ | ⟨rs, hx, hy⟩
  · exact .failed f (by rw [parse_map, hx]; rfl) (by rw [parse_map, hy]; rfl)
  · by_cases hf : findings rs = []
    · rw [gather_of_no_findings hf] at hx hy
      exact .accepted _ (parse_eq_ok.2 hx) (parse_eq_ok.2 hy)
    · rw [gather_of_findings hf] at hx hy
      have hparse {ro : Bool} {es : List (Value × Value)}
        (h : d.read r (.root run) (.map ro es) = .ok (.error ⟨findings rs⟩)) :
          d.parse r run (.map ro es) = (Report.payload ⟨findings rs⟩).json .compact >>= fun _ =>
            .error (.rejected ⟨findings rs⟩) := by
        rw [parse_map, h]
        rfl
      cases hj : (Report.payload ⟨findings rs⟩).json .compact with
      | error g => exact .failed g (by rw [hparse hx, hj]; rfl) (by rw [hparse hy, hj]; rfl)
      | ok s => exact .failed _ (by rw [hparse hx, hj]; rfl) (by rw [hparse hy, hj]; rfl)

/-- what a text of blanks under an attribute comes to, against nothing in its place -/
structure BlankRead (r : Registry) (run run' : Nat) (d : Definition) (a : Attribute) (w raw raw' : Value) : Prop where
  /-- the same, where it counts as nothing, if the two parses have nothing of their own that is compared by identity -/
  nothing : d.ByContent r → a.TakesAsNothing w → d.Alike r run run' raw raw'
  /-- else it is refused where an array of mappings is declared, unless another key of the same normal form comes after
  it -/
  array {e : Definition} {view : KeyView} : a.shape = .arrayOf e → ¬ a.TakesAsNothing w → viewOf raw = .ok view →
    view.get? a.name = some w → d.RefusedFor r run raw a.name notArrayMessage

/-- a blank text under an array of mappings that does not count as nothing is refused -/
theorem refused_of_blank_array {a : Attribute} (hn : d.names.Nodup) (ha : a ∈ d.attributes) {e : Definition}
    (hshape : a.shape = .arrayOf e) {w : Value} (hw : w.BlankText) (hother : ¬ a.TakesAsNothing w) {view : KeyView}
    (hview : viewOf (.map ro es) = .ok view) (hv : view.get? a.name = some w) :
    d.RefusedFor r run (.map ro es) a.name notArrayMessage := by
  have hfound {rs : List NamedReading} (hrs : ReadEach r (.root run) d.settings.strictTypes view d.attributes rs) :
      Report.find a.name (findings rs) = some (.message notArrayMessage) := by
    obtain ⟨x, hx, hread⟩ := exists_of_mem_left hrs ha
    have hname : x.name = a.name := (Attribute.read_eq_ok.1 hread).1
    have hnodup : (rs.map (·.name)).Nodup := by
      rw [hrs.names]
      exact hn
    rw [report_find_eq, findings_eq, ← hname, find?_picked hnodup hx, NamedReading.finding?,
      Attribute.yields_of_blank_array hw hshape hv hother hread]
  constructor
  case not_accepted =>
    intro p hp
    obtain ⟨view', rs, hview', hrs, ho⟩ := read_eq_ok.1 (parse_eq_ok.1 hp)
    cases hview.symm.trans hview'
    have hfinding := hfound hrs
    rw [(gather_eq_ok.1 ho.symm).1] at hfinding
    cases hfinding
  case reported =>
    intro rep hrep
    obtain ⟨view', rs, hview', hrs, ho⟩ := read_eq_ok.1 hrep
    cases hview.symm.trans hview'
    rw [(gather_eq_error.1 ho.symm).2]
    exact hfound hrs

/-- **A text of blanks is read as nothing where a scalar type other than text is declared**, and the empty text under any
required attribute; where an array of mappings is declared every other text of blanks is refused. -/
theorem blank_read {a : Attribute} (hn : d.names.Nodup) (ha : a ∈ d.attributes) {k : Value} (hk : Spells k a.name)
    {w : Value}
    (hw : w.BlankText) (ro : Bool) (es : List (Value × Value)) (run run' : Nat) :
    d.BlankRead r run run' a w (.map ro (Value.insertEntry k w es)) (.map ro (Value.insertEntry k .null es)) := by
  constructor
  case nothing =>
    intro hcontent htakes
    refine Alike.any_run hcontent ?_ run'
    rcases viewOf_insertEntry hk w .null ro es with ⟨f, hx, hy⟩ | ⟨view, view', hview, hview', hor⟩
    · exact alike_of_no_view hx hy
    · refine alike_of_views hview hview' fun b hb _ => ?_
      by_cases hname : b.name = a.name
      · obtain rfl : b = a := List.inj_on_of_nodup_map hn hb ha hname
        rcases hor.2 with hsame | ⟨hv, hv'⟩
        · exact Attribute.read_of_get? hsame
        · exact Attribute.read_of_blank hw htakes hv hv'
      · exact Attribute.read_of_get? (hor.1 b.name hname)
  case array =>
    intro e view hshape hother hview hv
    exact refused_of_blank_array hn ha hshape hw hother hview hv

def cartLine : Definition := ⟨1, "cart.lines", [⟨"item", .scalar .text, true, none, []⟩], .default⟩

def cart : Definition :=
  ⟨1, "cart", [⟨"pieces", .scalar .integer, false, some (.int 1), []⟩, ⟨"lines", .arrayOf cartLine, false, none, []⟩],
    .default⟩

theorem cart_byContent : cart.ByContent .builtin := by
  have hline : cartLine.ByContent .builtin :=
    byContent_of_parts
      (List.forall_mem_singleton.2 (Attribute.byContent_of_builtin (by rintro v ⟨⟩) (by rintro t ⟨⟩ c ⟨⟩)))
      (by simp [cartLine, Shape.definition?])
  refine byContent_of_parts ?_ (by simp [cart, Shape.definition?, hline])
  simp only [cart, List.forall_mem_cons, List.not_mem_nil, false_imp_iff, implies_true, and_true]
  refine ⟨Attribute.byContent_of_builtin ?_ (by rintro t ⟨⟩ c ⟨⟩), Attribute.byContent_of_no_default rfl (by simp)⟩
  rintro v ⟨⟩
  exact .of_leaf trivial fun x hx => by cases hx

theorem blankText_two : (Value.text "  ").BlankText := Value.isBlank_iff.1 rfl

/-- a cart with blank pieces is one without pieces, and one with blank lines is refused -/
theorem cart_blank_read :
    cart.Alike .builtin 0 1 (.map false [(.text "pieces", .text "  ")]) (.map false [(.text "pieces", .null)]) ∧
      cart.RefusedFor .builtin 0 (.map false [(.text "lines", .text "  ")]) "lines" notArrayMessage := by
  have hn : cart.names.Nodup := by decide
  have hpieces :=
    (blank_read (r := .builtin) hn List.mem_cons_self (spells_text "pieces") blankText_two false [] 0 1).nothing
  have hlines := blank_read (r := .builtin) hn (List.mem_cons_of_mem _ List.mem_cons_self) (spells_text "lines")
    blankText_two false [] 0 1
  refine ⟨hpieces cart_byContent (.inl ⟨.integer, rfl, by simp⟩), hlines.array rfl ?_ rfl rfl⟩
  rintro (⟨t, ht, -⟩ | ⟨hreq, -⟩)
  · cases ht
  · cases hreq

/-- under an array of mappings a text of blanks is refused, and nothing is accepted -/
theorem blank_array_refused :
    cart.parse .builtin 0 (.map false [(.text "lines", .text "  ")]) =
        .error (.rejected ⟨[("lines", .message notArrayMessage)]⟩) ∧
      cart.parse .builtin 1 (.map false [(.text "lines", .null)]) =
        .ok ⟨cart.heading, .map false [(.text "lines", .null)], [("pieces", .int 1), ("lines", .null)], ["lines"]⟩ :=
  ⟨parse_of_read_error rfl (Report.renders_of_written (by simp [Finding.written_message])), rfl⟩

end Definition

end Intake
