/-
Definitions read back from their declarative form.

The declarative form of a definition is an envelope: its name, its settings where they differ from the default,
and its attributes. For a declared definition with a name, whose defaults and rules a document can hold, the
form is plain data, and a definition that is built from it is the definition itself but for the stamp that tells
declarations apart (`Definition.ofDocument_toFields`). Its form is then the same form (`Definition.toFields_restamp`).
-/
import Intake.Proofs.Redeclaring

namespace Intake

open Intake.Outcome

/-! ## Settings -/

namespace Settings

theorem readDepth_maxDepth (s : Settings) : readDepth (.int s.maxDepth) = .ok ⟨s.maxDepth, s.inRange⟩ := by
  have h := s.inRange
  have hlow : ¬ (s.maxDepth : Int) < 1 := by omega
  unfold readDepth
  simp only [readInteger, bind, Except.bind, hlow, if_false, Int.toNat_natCast, dif_pos h]

/-- settings are read from their fields, each of which may be left out where it is the default -/
theorem read_fields {s : Settings} {fs : Fields} (hn : ∀ name ∈ fs.names, name = "max_depth" ∨ name = "strict_types")
    (hd : fs.lookup "max_depth" = some (.int s.maxDepth) ∨ fs.lookup "max_depth" = none ∧ s.maxDepth = default.maxDepth)
    (ht : fs.lookup "strict_types" = some (.bool s.strictTypes) ∨
      fs.lookup "strict_types" = none ∧ s.strictTypes = default.strictTypes) :
    read fs.entries = .ok (.ok s) := by
  have hnames : fs.entries.mapM (fun e => e.1.text?) = some fs.names := by
    clear hn hd ht
    induction fs with
    | nil => rfl
    | cons f fs ih =>
      rw [Fields.entries_cons, List.mapM_cons, ih]
      rfl
  have hknown : (fs.names.filter fun n => n != "max_depth" && n != "strict_types") = [] := by
    refine List.filter_eq_nil_iff.2 fun name h => ?_
    rcases hn name h with rfl | rfl <;> decide
  have hdepth : readField fs.entries "max_depth" ⟨default.maxDepth, default.inRange⟩ readDepth =
      .ok ⟨s.maxDepth, s.inRange⟩ := by
    unfold readField
    rw [Value.field?_entries]
    rcases hd with hd | ⟨hd, he⟩
    · rw [hd]
      exact readDepth_maxDepth s
    · rw [hd]
      simp only [he]
  have hstrict : readField fs.entries "strict_types" default.strictTypes readBoolean = .ok s.strictTypes := by
    unfold readField
    rw [Value.field?_entries]
    rcases ht with ht | ⟨ht, he⟩
    · rw [ht]
      rfl
    · rw [ht, he]
  simp only [read, hnames, hknown, hdepth, hstrict, problemOf, List.map_nil, List.append_nil]

theorem read_changedFields (s : Settings) : read (Fields.entries s.changedFields) = .ok (.ok s) := by
  unfold changedFields
  by_cases hd : s.maxDepth = default.maxDepth <;> by_cases ht : s.strictTypes = default.strictTypes
  · exact read_fields (by simp [hd, ht]) (.inr ⟨by simp [hd, ht], hd⟩) (.inr ⟨by simp [hd, ht], ht⟩)
  · exact read_fields (by simp [hd, ht]) (.inr ⟨by simp [hd, ht, List.lookup_cons], hd⟩) (.inl (by simp [hd, ht]))
  · exact read_fields (by simp [hd, ht]) (.inl (by simp [hd, ht])) (.inr ⟨by simp [hd, ht, List.lookup_cons], ht⟩)
  · exact read_fields (by simp [hd, ht]) (.inl (by simp [hd, ht])) (.inl (by simp [hd, ht, List.lookup_cons]))

theorem plain_changedFields (s : Settings) : (Value.ofFields s.changedFields).Plain := by
  have hint : (Value.int s.maxDepth).Plain := by
    have hshort : Number.digitCount s.maxDepth ≤ 4 := by
      refine (Nat.length_toDigits_le_iff (by decide) (by decide)).2 ?_
      have : s.maxDepth ≤ 1000 := s.inRange.2
      omega
    exact .int (by
      rw [Number.intText?, Int.natAbs_natCast, if_pos (Nat.le_trans hshort (by decide))]
      rfl)
  refine .map ?_ ?_
  · unfold changedFields
    split <;> split <;> simp
  · intro f hf
    unfold changedFields at hf
    rcases List.mem_append.1 hf with hf | hf
    · split at hf
      · cases hf
      · rw [List.mem_singleton.1 hf]; exact hint
    · split at hf
      · cases hf
      · rw [List.mem_singleton.1 hf]; exact .bool _

end Settings

/-! ## The envelope -/

namespace Definition

/-- the fields of an envelope: the name, the settings if there are any, and the attributes -/
def envelopeFields (name : String) (settings attributes : Fields) : Fields :=
  ("name", .text name) :: (if settings.isEmpty then [] else [("settings", .ofFields settings)]) ++
    [("attributes", .ofFields attributes)]

theorem toFields_eq {r : Registry} {d : Definition} {fs : Fields} (h : d.attributeFields r = .ok fs) :
    d.toFields r = .ok (envelopeFields d.name d.settings.changedFields fs) := by
  simp only [toFields, h, ok_bind]
  rfl

theorem truthy_text {name : String} (h : name ≠ "") : (Value.text name).truthy = true := by
  have hlength : name.length ≠ 0 := fun e => h (String.length_eq_zero_iff.1 e)
  simpa [Value.truthy, Value.size?] using hlength

/-- fields among those of an envelope are read one by one -/
theorem draft_fields {name : String} (hname : name ≠ "") {s : Settings} {fields fs : Fields}
    (hk : ∀ k ∈ fields.names, k ∈ envelopeKeys) (hn : fields.lookup "name" = some (.text name))
    (hs : documentSettings (fields.lookup "settings") = .ok s) (ha : fields.lookup "attributes" = some (.ofFields fs)) :
    draft (.ofFields fields) none none = .ok ⟨name, s, fs.entries⟩ := by
  have hall : (fields.entries.all fun e => envelopeKeys.any fun k => (Value.text k).sameKey e.1) = true := by
    refine List.all_eq_true.2 fun e he => ?_
    obtain ⟨f, hf, rfl⟩ := List.mem_map.1 he
    exact List.any_eq_true.2 ⟨f.1, hk _ (List.mem_map_of_mem hf), by simp⟩
  have henvelope : envelope? fields.entries = some fs.entries := by
    rw [envelope?, if_pos hall, Value.field?_entries, ha]
    rfl
  have htitle : documentName none (Value.field? "name" fields.entries) = .ok name := by
    rw [Value.field?_entries, hn, documentName, Option.filter_some, truthy_text hname]
    simp [givenName]
  have hsettings : documentSettings (Value.field? "settings" fields.entries) = .ok s := by
    rwa [Value.field?_entries]
  simp only [Value.ofFields_eq, draft, henvelope, hsettings, htitle, ok_bind]

theorem draft_envelopeFields {name : String} (hname : name ≠ "") (s : Settings) (fs : Fields) :
    draft (.ofFields (envelopeFields name s.changedFields fs)) none none = .ok ⟨name, s, fs.entries⟩ := by
  have hread := s.read_changedFields
  unfold envelopeFields
  split
  · rename_i hempty
    rw [List.isEmpty_iff.1 hempty] at hread
    obtain rfl : s = Settings.default := by
      have : Settings.read [] = .ok (.ok Settings.default) := rfl
      rw [Fields.entries_nil, this] at hread
      cases hread
      rfl
    refine draft_fields hname (by simp [envelopeKeys]) (by simp) ?_ (by simp [List.lookup_cons])
    simp [List.lookup_cons, documentSettings, Parts.given]
  · refine draft_fields hname (by simp [envelopeKeys]) (by simp) ?_ (by simp [List.lookup_cons])
    have hlookup : (("name", Value.text name) :: [("settings", Value.ofFields s.changedFields)] ++
        [("attributes", Value.ofFields fs)]).lookup "settings" = some (.ofFields s.changedFields) := by
      simp [List.lookup_cons]
    have hsettings : documentSettings (some (.ofFields s.changedFields)) = .ok s := by
      show Settings.read (Fields.entries s.changedFields) >>= _ = _
      rw [hread]
      rfl
    rw [hlookup, hsettings]

theorem plain_envelopeFields (name : String) (s : Settings) {fs : Fields} (h : (Value.ofFields fs).Plain) :
    (Value.ofFields (envelopeFields name s.changedFields fs)).Plain := by
  have hs := s.plain_changedFields
  unfold envelopeFields
  split
  · refine .map (by simp) ?_
    simp only [List.cons_append, List.nil_append, List.forall_mem_cons]
    exact ⟨.text name, h, nofun⟩
  · refine .map (by simp) ?_
    simp only [List.cons_append, List.nil_append, List.forall_mem_cons]
    exact ⟨.text name, hs, h, nofun⟩

/-- **A declared definition is built again from its declarative form**, but for its stamp. -/
theorem ofDocument_toFields {w : Workshop} (hw : w.registry = .builtin) {d : Definition}
    (hd : d.Declared d.settings d.stamp (d.settings.maxDepth - 1)) (hp : d.Portable) (hname : d.name ≠ "") :
    ∃ fs : Fields, d.toFields .builtin = .ok fs ∧ (Value.ofFields fs).Plain ∧
      ∀ n, ofDocument w n (.ofFields fs) none none = .ok (d.restamp n) := by
  obtain ⟨fs, hfields⟩ := hd.redeclared hw hp
  refine ⟨_, toFields_eq hfields.fields, plain_envelopeFields _ _ hfields.plain, fun n => ?_⟩
  unfold ofDocument
  simp only [draft_envelopeFields hname, hfields.declares n, ok_bind, Builder.build, restamp_eq]

/-! ## The stamp is not written -/

mutual

theorem attributeFields_restamp (r : Registry) (n : Nat) : ∀ d : Definition,
    (d.restamp n).attributeFields r = d.attributeFields r
  | ⟨_, _, attributes, _⟩ => attributesFields_restampAll r n attributes

theorem attributesFields_restampAll (r : Registry) (n : Nat) : ∀ as : List Attribute,
    attributesFields r (restampAll n as) = attributesFields r as
  | [] => rfl
  | a :: as => by
    have ha : (restampAttribute n a).name = a.name := by rw [restampAttribute_eq]
    simp only [restampAll, attributesFields, toValue_restampAttribute r n a, attributesFields_restampAll r n as, ha]

theorem toValue_restampAttribute (r : Registry) (n : Nat) : ∀ a : Attribute,
    (restampAttribute n a).toValue r = a.toValue r
  | ⟨_, shape, _, _, _⟩ => by
    simp only [restampAttribute, Attribute.toValue, toFields_restampShape r n shape]

theorem toFields_restampShape (r : Registry) (n : Nat) : ∀ shape : Shape,
    (restampShape n shape).toFields r = shape.toFields r
  | .untyped => rfl
  | .scalar _ => rfl
  | .nested d => by simp only [restampShape, Shape.toFields, attributeFields_restamp r n d]
  | .arrayOf d => by simp only [restampShape, Shape.toFields, attributeFields_restamp r n d]

end

theorem toFields_restamp (r : Registry) (n : Nat) (d : Definition) : (d.restamp n).toFields r = d.toFields r := by
  have hname : (d.restamp n).name = d.name := by rw [restamp_eq]
  have hsettings : (d.restamp n).settings = d.settings := by rw [restamp_eq]
  simp only [toFields, attributeFields_restamp, hname, hsettings]

/-- under its own stamp a declared definition is itself -/
theorem Declared.restamp_self {s : Settings} {stamp left : Nat} {d : Definition} (h : d.Declared s stamp left) :
    d.restamp stamp = d := by
  induction h with
  | @mk left name attributes hn ha hl hname hd ih =>
    have hattribute : ∀ a ∈ attributes, restampAttribute stamp a = a := by
      intro a hmem
      have hshape : restampShape stamp a.shape = a.shape := by
        cases hs : a.shape with
        | untyped => rfl
        | scalar t => rfl
        | nested e => rw [restampShape, ih a hmem e (by rw [hs]; rfl)]
        | arrayOf e => rw [restampShape, ih a hmem e (by rw [hs]; rfl)]
      rw [restampAttribute_eq, hshape]
      cases a
      rfl
    have hall : restampAll stamp attributes = attributes := by
      clear hn ha hl hname hd ih
      induction attributes with
      | nil => rfl
      | cons a as ih =>
        rw [restampAll, hattribute a List.mem_cons_self, ih fun b hb => hattribute b (List.mem_cons_of_mem _ hb)]
    rw [restamp_eq, hall]

end Definition

end Intake
