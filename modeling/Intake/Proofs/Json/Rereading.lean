/-
Parsing what was printed of a parse.

The printed text of a projection is read as what JSON shows of it: the projection, but for decimals, dates, moments,
times and identifiers, which are texts there. A definition reads the one as it reads the other
(`Definition.reads_asJson`), attribute by attribute: each of these texts is cast to the value that it stands for, and
everything else is the same. The projection itself is read to the instance again, but for raw input, and so is the text.

No default is looked for, which might be a value that its attribute cannot be given as a text; and no rule is a
function of the caller or a schema, to which a text might not be what its value is (`Definition.Ordinary`).

Results:
- `Definition.tellable_of_read`: the projection of what was read from JSON tells what it is;
- `Definition.parse_printed`: the text of a projection is parsed to the same projection.
-/
import Mathlib
import Intake.Proofs.Json.Recasting
import Intake.Proofs.KeyIndifference
import Intake.Proofs.Reparsing

namespace Intake

open Intake.Outcome

/-! ## Views -/

namespace KeyView

def mapValues (f : Value → Value) (fs : Fields) : Fields := fs.map fun e => (e.1, f e.2)

theorem insert_mapValues (f : Value → Value) (k : String) (v : Value) (fs : Fields) :
    insert k (f v) (mapValues f fs) = mapValues f (insert k v fs) := by
  induction fs with
  | nil => rfl
  | cons e fs ih =>
    obtain ⟨l, w⟩ := e
    show (if l = k then _ else (l, f w) :: insert k (f v) (mapValues f fs)) = mapValues f (if l = k then _ else _)
    split
    · rfl
    · rw [ih]
      rfl

theorem find_mapValues (f : Value → Value) (k : String) (fs : Fields) : find k (mapValues f fs) = (find k fs).map f := by
  rw [find_eq, find_eq, mapValues, List.find?_map, Option.map_map, Option.map_map]
  rfl

/-- the view of the same keys with other values has those values -/
theorem ofEntriesFrom_mapValues (f : Value → Value) {acc fs : Fields} {es : List (Value × Value)}
    (h : ofEntriesFrom acc es = .ok fs) :
    ofEntriesFrom (mapValues f acc) (es.map fun e => (e.1, f e.2)) = .ok (mapValues f fs) := by
  induction es generalizing acc with
  | nil =>
    cases h
    rfl
  | cons e es ih =>
    obtain ⟨k, v⟩ := e
    rw [ofEntriesFrom] at h
    obtain ⟨key, hkey, h⟩ := bind_eq_ok.1 h
    rw [List.map_cons, ofEntriesFrom, hkey, ok_bind, insert_mapValues]
    exact ih h

end KeyView

/-- under each key a definition finds what JSON shows of the value that is there -/
theorem Definition.viewOf_asJson {es : List (Value × Value)} {view : KeyView} (h : viewOf (.map false es) = .ok view) :
    ∃ view', viewOf (Value.map false es).asJson = .ok view' ∧ ∀ k, view'.get? k = (view.get? k).map Value.asJson := by
  obtain ⟨fs, hfs, h⟩ := bind_eq_ok.1 h
  cases h
  have hview := KeyView.ofEntriesFrom_mapValues Value.asJson hfs
  refine ⟨⟨KeyView.mapValues Value.asJson fs⟩, ?_, fun k => KeyView.find_mapValues Value.asJson k fs⟩
  unfold viewOf KeyView.ofEntries
  rw [Value.asJson, Value.asJsonEntries_eq_map]
  exact bind_eq_ok.2 ⟨_, hview, rfl⟩

/-! ## Attributes -/

/-- an attribute without a default, whose type is a built-in one and whose rules ask neither a function nor a schema -/
structure Attribute.Ordinary (a : Attribute) : Prop where
  builtin : ∀ t, a.shape = .scalar t → t.IsBuiltin
  plainly : ∀ rule ∈ a.rules, rule.Plainly
  undefaulted : a.default = none

theorem Attribute.Ordinary.settled {a : Attribute} (h : a.Ordinary) (strict : Bool) : a.Settled strict where
  builtin := h.builtin
  plainly := h.plainly
  simple := by simp [h.undefaulted]
  unchanged := by simp [h.undefaulted]
  satisfied := by simp [h.undefaulted]
  keyed := by simp [h.undefaulted]
  content := by simp [h.undefaulted]

/-- every attribute is ordinary, and casts what it is given, at every depth -/
def Definition.Ordinary (d : Definition) : Prop :=
  ∀ c, Within c d → c.settings.strictTypes = false ∧ ∀ a ∈ c.attributes, a.Ordinary

theorem Value.Read.withoutInstances {v : Value} (h : v.Read) : v.WithoutInstances := by
  refine h.imp fun x hx hp => ?_
  cases x with
  | parsed p => exact hx
  | _ => exact hp

theorem Value.asJson_ne_null {v : Value} (h : v ≠ .null) : v.asJson ≠ .null := by
  cases v with
  | null => exact absurd rfl h
  | map readOnly es => cases readOnly <;> rintro ⟨⟩
  | _ => rintro ⟨⟩

theorem Value.projected_parsed (q : Instance) : ∃ es, (Value.parsed q).projected = .map false es := by
  obtain ⟨heading, raw, values, supplied⟩ := q
  exact ⟨_, rfl⟩

theorem Value.isMissing_asJson_map (es : List (Value × Value)) : (Value.map false es).asJson.isMissing = es.isEmpty := by
  cases es <;> rfl

theorem Value.isMissing_asJson_list (xs : List Value) : (Value.list xs).asJson.isMissing = xs.isEmpty := by
  cases xs <;> rfl

namespace Attribute

variable {a : Attribute} {view shown told : KeyView}

theorem rawValue_of_not_blank {v : Value} (h : view.get? a.name = some v)
    (hv : a.blankIsNull = true → v.isBlank = false) :
    a.rawValue view = v := by
  unfold rawValue
  simp only [h, Option.getD_some]
  cases hb : a.blankIsNull with
  | false => simp
  | true => simp [hv hb]

/-- two views have an attribute read alike, wherever it stands -/
def ReadsAlike (a : Attribute) (shown told : KeyView) : Prop :=
  ∀ here, (Attribute.read .builtin here false shown a).map NamedReading.bare =
    (Attribute.read .builtin here false told a).map NamedReading.bare

theorem readsAlike_of_same (htold : told.get? a.name = (shown.get? a.name).map Value.asJson)
    (h : ∀ w, shown.get? a.name = some w → w.asJson = w) : a.ReadsAlike shown told := by
  have hget : shown.get? a.name = told.get? a.name := by
    rw [htold]
    cases hw : shown.get? a.name with
    | none => rfl
    | some w => rw [Option.map_some, h w hw]
  have hsupplied : a.suppliedIn shown = a.suppliedIn told := by simp only [suppliedIn, hget]
  have hraw : a.rawValue shown = a.rawValue told := by simp only [rawValue, hget]
  exact fun here => by rw [read_same hsupplied hraw]

/-- a value that is shown is read like what JSON shows of it, if neither is taken for nothing and both are resolved
alike -/
theorem readsAlike_of_resolved (ha : a.Ordinary) {w : Value} (hshown : shown.get? a.name = some w)
    (htold : told.get? a.name = some w.asJson) (hblank : a.blankIsNull = true → w.text? = none)
    (hblank' : a.blankIsNull = true → w.asJson.isBlank = false) (hnull : w ≠ .null)
    (hmissing : w.asJson.isMissing = w.isMissing)
    (hresolve : ∀ here, (Shape.resolve .builtin here false a.shape w).map (Except.map Value.bare) =
      (Shape.resolve .builtin here false a.shape w.asJson).map (Except.map Value.bare)) : a.ReadsAlike shown told := by
  intro here
  have hv := rawValue_of_get? hshown hblank
  have hw := rawValue_of_not_blank htold hblank'
  refine read_alike ha.plainly (by simp [suppliedIn, hshown, htold]) ?_ ?_ ?_ ?_
  · rw [hv, hw, hmissing]
  · rwa [hv]
  · rw [hw]
    exact Value.asJson_ne_null hnull
  · rw [hv, hw, hresolve]

theorem cast_readsAlike (ha : a.Ordinary) {t : ValueType} {raw w : Value} (hshape : a.shape = .scalar t) (hraw : raw.Read)
    (hcast : Registry.builtin.cast t false raw = .ok (.ok w)) (hshown : shown.get? a.name = some w)
    (htold : told.get? a.name = some w.asJson) : a.ReadsAlike shown told := by
  have ht := ha.builtin t hshape
  have hne (hb : a.blankIsNull = true) : t ≠ .text := by
    obtain ⟨u, hu, hne⟩ := blankIsNull_iff.1 hb
    cases hshape.symm.trans hu
    exact hne
  refine readsAlike_of_resolved ha hshown htold (fun hb => Registry.text?_of_cast ht (hne hb) hcast)
    (fun hb => Registry.isBlank_asJson ht (hne hb) hraw hcast) (Registry.ne_null_of_cast ht hcast)
    (Registry.isMissing_asJson ht hraw hcast) fun here => ?_
  rw [hshape, Shape.resolve, Shape.resolve, castScalar, castScalar, Registry.cast_cast ht hcast,
    Registry.cast_asJson ht hraw hcast]

theorem nested_readsAlike (ha : a.Ordinary) {e : Definition} {q : Instance} (hshape : a.shape = .nested e)
    (halike : e.ReadsAlike .builtin (Value.parsed q).projected (Value.parsed q).projected.asJson)
    (hshown : shown.get? a.name = some (Value.parsed q).projected)
    (htold : told.get? a.name = some (Value.parsed q).projected.asJson) : a.ReadsAlike shown told := by
  have hnever {P : Prop} : a.blankIsNull = true → P := not_blankIsNull (by simp [hshape])
  obtain ⟨es, hes⟩ := Value.projected_parsed q
  rw [hes] at hshown htold halike
  refine readsAlike_of_resolved ha hshown htold hnever hnever (by rintro ⟨⟩)
    (Value.isMissing_asJson_map es) fun here => ?_
  rw [hshape, Shape.resolve, Shape.resolve]
  exact parseNested_alike rfl rfl (halike here)

theorem elements_readsAlike (ha : a.Ordinary) {e : Definition} {qs : List Instance} (hshape : a.shape = .arrayOf e)
    (halike : ∀ q ∈ qs, e.ReadsAlike .builtin (Value.parsed q).projected (Value.parsed q).projected.asJson)
    (hshown : shown.get? a.name = some (Value.list (qs.map .parsed)).projected)
    (htold : told.get? a.name = some (Value.list (qs.map .parsed)).projected.asJson) : a.ReadsAlike shown told := by
  have hnever {P : Prop} : a.blankIsNull = true → P := not_blankIsNull (by simp [hshape])
  rw [Value.projected, Value.projectedAll_eq_map, List.map_map] at hshown htold
  refine readsAlike_of_resolved ha hshown htold hnever hnever (by rintro ⟨⟩)
    (Value.isMissing_asJson_list _) fun here => ?_
  rw [hshape, Shape.resolve, Shape.resolve, Value.asJson, Value.asJsonAll_eq_map, List.map_map]
  refine parseItems_alike rfl rfl ?_
  refine List.forall₂_map_left_iff.2 (List.forall₂_map_right_iff.2 (List.forall₂_same.2 fun q hq i => ?_))
  have hq := halike q hq
  obtain ⟨es, hes⟩ := Value.projected_parsed q
  simp only [Function.comp_apply, hes] at hq ⊢
  exact parseNested_alike rfl rfl (hq _)

/-- **An attribute is read alike from a projection and from what JSON shows of it**, if the definitions inside read
alike. -/
theorem reads_asJson {here : Place} {o : Option Value} (ha : a.Ordinary) (hy : a.Yields .builtin here false view (.ok o))
    (hraw : (a.rawValue view).Read)
    (hshown : shown.get? a.name = if a.suppliedIn view then o.map Value.projected else none)
    (htold : told.get? a.name = (shown.get? a.name).map Value.asJson)
    (hparts : ∀ e there raw q, a.shape.definition? = some e → raw.Read → e.read .builtin there raw = .ok (.ok q) →
      e.ReadsAlike .builtin (Value.parsed q).projected (Value.parsed q).projected.asJson) : a.ReadsAlike shown told := by
  cases hy with
  | absent hm hn habs =>
    refine readsAlike_of_same htold fun w hw => ?_
    rcases absent_eq_ok.1 habs with ⟨v, hv, -⟩ | ⟨-, rfl⟩
    · rw [ha.undefaulted] at hv
      cases hv
    · rw [hshown] at hw
      cases hs : a.suppliedIn view with
      | false => simp [hs] at hw
      | true =>
        simp only [hs, if_true, Option.map_some, Option.some.injEq] at hw
        rw [← hw]
        rfl
  | @accepted v hm hn hr _ =>
    rw [supplied_of_not_null hn, if_pos rfl, Option.map_some] at hshown
    have hres := Shape.resolve_eq_ok.1 hr
    generalize a.rawValue view = raw at hraw hres
    generalize hshape : a.shape = shape at hres
    cases hres with
    | untyped =>
      rw [Value.projected_eq_self hraw.withoutInstances] at hshown
      exact readsAlike_of_same htold fun w hw => by rw [← Option.some.inj (hshown.symm.trans hw), hraw.asJson_eq]
    | @scalar t _ w hcast =>
      have ht := ha.builtin t hshape
      rw [(Registry.makesNone_of_builtin ht).placedAt_eq_self hcast,
        Value.projected_eq_self (Registry.withoutInstances_of_cast ht hraw.withoutInstances hcast)] at hshown
      rw [hshown, Option.map_some] at htold
      exact cast_readsAlike ha hshape hraw hcast hshown htold
    | @nested e _ q hmap hread =>
      rw [hshown, Option.map_some] at htold
      exact nested_readsAlike ha hshape (hparts e _ raw q (by rw [hshape]; rfl) hraw hread) hshown htold
    | @arrayOf e _ xs qs hxs hall =>
      rw [hshown, Option.map_some] at htold
      refine elements_readsAlike ha hshape (fun q hq => ?_) hshown htold
      obtain ⟨x, hx, -, hread⟩ := exists_of_mem_right hall hq
      exact hparts e _ x.1 q (by rw [hshape]; rfl) (hraw.items hxs (List.fst_mem_of_mem_zipIdx hx)) hread

end Attribute

/-! ## Definitions -/

namespace Definition

variable {here : Place} {d : Definition} {p : Instance}

theorem Ordinary.of_part (h : d.Ordinary) {a : Attribute} (ha : a ∈ d.attributes) {e : Definition}
    (he : a.shape.definition? = some e) : e.Ordinary := fun c hc => h c (.part ha he hc)

theorem Ordinary.settled (h : d.Ordinary) : d.Settled := fun c hc a ha => ((h c hc).2 a ha).settled _

/-- by induction on the definition: the instances inside come from readings of their own -/
theorem reads_asJson (hn : d.NamesDistinct) (hd : d.Ordinary) {raw : Value} (hraw : raw.Read)
    (hp : d.read .builtin here raw = .ok (.ok p)) :
    d.ReadsAlike .builtin (Value.parsed p).projected (Value.parsed p).projected.asJson := by
  induction d using byParts generalizing here raw p with
  | parts d ih =>
    obtain ⟨hlax, hattributes⟩ := hd d (.here d)
    obtain ⟨view, rs, hview, hrs, hnodup, hinst, hall⟩ := gathers_of_read (hn d (.here d)) hp
    obtain ⟨shown, hviewed, hshows⟩ := viewOf_projected hnodup d.heading raw
    rw [← hinst] at hviewed
    obtain ⟨es, hes⟩ := Value.projected_parsed p
    rw [hes] at hviewed ⊢
    obtain ⟨told, htold, htells⟩ := viewOf_asJson hviewed
    refine readsAlike_of_views hviewed htold fun a ha there => ?_
    obtain ⟨x, hx, hread⟩ := exists_of_mem_left hrs ha
    obtain ⟨hname, hsupplied, hy⟩ := Attribute.read_eq_ok.1 hread
    rw [NamedReading.reading_of_no_finding (hall x hx).1] at hy
    have hshown := hshows x hx
    rw [hname, NamedReading.projected?, hsupplied] at hshown
    rw [hlax] at hy ⊢
    exact Attribute.reads_asJson (hattributes a ha) hy (Attribute.throughout_rawValue trivial hraw hview) hshown
      (htells a.name)
      (fun e _ raw q he hq hread => ih a ha e he (hn.of_part ha he) (hd.of_part ha he) hq hread) there

/-- what was read from JSON tells what it is, and so does its projection -/
theorem tellable_of_read (hn : d.NamesDistinct) (hd : d.Ordinary) {raw : Value} (hraw : raw.Read)
    (hp : d.read .builtin here raw = .ok (.ok p)) : (Value.parsed p).projected.Tellable := by
  refine Value.Tellable.projected
    (throughout_of_read (Q := Value.IsRead) trivial trivial (fun _ => trivial) (fun c hc a ha => ?_)
    (fun c hc a ha v hv => ?_) (fun c hc _ raw q hq => ?_) hraw hp)
  · obtain ⟨hlax, hattributes⟩ := hd c hc
    rw [hlax]
    refine ⟨fun _ _ => Value.Read.tellable, fun t hshape v w hv hw there => ?_⟩
    have ht := (hattributes a ha).builtin t hshape
    rw [(Registry.makesNone_of_builtin ht).placedAt_eq_self hw]
    exact Registry.tellable_of_cast ht hv hw
  · rw [((hd c hc).2 a ha).undefaulted] at hv
    cases hv
  · exact nodup_of_read (hn c hc) hq

/-- **The printed text of a parse is read and parsed to the same but for raw input**, and is printed of that again,
with blanks after it or not. -/
theorem parse_printed {es : List (Value × Value)} (hn : d.NamesDistinct) (hd : d.Ordinary)
    (hraw : (Value.map false es).Read)
    {run : Nat} (hp : d.parse .builtin run (.map false es) = .ok p) (hkept : d.Kept p) {style : Json.Style}
    (hs : style.Marked)
    {text after : String} (htext : (p.toHash true).json style = .ok text)
    (hafter : ∀ c ∈ after.toList, Json.isBlank c = true)
    (run' : Nat) :
    ∃ fs q, Json.read (text ++ after) = .ok (.map false fs) ∧ d.parse .builtin run' (.map false fs) = .ok q ∧
      (Value.parsed q).bare = (Value.parsed p).bare ∧ (q.toHash true).json style = .ok text := by
  have hread := parse_eq_ok.1 hp
  have hpr := raw_of_read hread
  have hprojected : (p.toHash true) = (Value.parsed p).projected := rfl
  obtain ⟨fs, hfs⟩ := Value.projected_parsed p
  obtain ⟨s, hreads, hbare⟩ :=
    reparses_of_read hn hd.settled (by rw [hpr]; exact hraw.withoutInstances) (by rwa [hpr]) hkept (.root run')
  have halike := reads_asJson hn hd hraw hread (.root run')
  have htold := Json.read_json hs (tellable_of_read hn hd hraw hread) htext hafter
  rw [hreads] at halike
  rcases map_eq_map halike with ⟨e, he, -⟩ | ⟨x, y, hx, hy, hxy⟩
  · cases he
  · cases hx
    cases y with
    | error rep => cases hxy
    | ok q =>
      rw [hfs] at hy htold
      have hq : (Value.parsed q).bare = (Value.parsed p).bare := by
        rw [← hbare, Value.bare_parsed, Value.bare_parsed, Except.ok.inj hxy]
      refine ⟨_, q, htold, parse_eq_ok.2 hy, hq, ?_⟩
      have hsame : q.toHash true = p.toHash true := by
        show (Value.parsed q).projected = (Value.parsed p).projected
        rw [← Value.projected_bare, hq, Value.projected_bare]
      rw [hsame, htext]

end Definition

end Intake
