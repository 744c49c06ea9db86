/-
Looking a key up is looking for the last entry of its normal form.

A view files each entry of a mapping under the normal form of its key, so of keys that are spellings of one another the
last gives the value and the first gives the place. What a view says can therefore be told from the entries alone
(`lastUnder`), without a view, and this holds for every way to ask: whether a key is there, what stands under it, and
in what order the normal forms come (`KeyView.LastWins`). Its own items make the same view again, since a normal form
is its own.

A definition reads a mapping through its view, and an instance answers questions about its raw input through the view
of the same mapping. So both see the same value where spellings collide (`Definition.SeesLast`).

Results:
- `KeyView.find_ofEntriesFrom`, `KeyView.keys_ofEntriesFrom`: what a view has under a name, and in what order its names
  come;
- `KeyView.last_wins`: the law, for every mapping whose keys have normal forms.
-/
import Intake.Proofs.Projections

namespace Intake

open Outcome

/-! ## Keys that are spellings of one another -/

/-- the normal forms of the keys of a mapping, in order -/
def normalForms (es : List (Value × Value)) : Outcome (List String) := es.mapM fun e => normalizeKey e.1

/-- the last entry whose key has a name as its normal form -/
def lastSpelled? (es : List (Value × Value)) (name : String) : Option (Value × Value) :=
  es.reverse.find? fun e => (normalizeKey e.1).toOption == some name

def lastUnder (es : List (Value × Value)) (name : String) : Option Value := (lastSpelled? es name).map (·.2)

/-- a mapping that has each key once has under the key of an entry what stands in the entry -/
theorem Value.lookup?_key {es : List (Value × Value)} (h : (Value.map false es).WellKeyed) {e : Value × Value}
    (he : e ∈ es) :
    lookup? e.1 es = some e.2 := by
  have hself (f : Value × Value) (hf : f ∈ es) : same f.1 f.1 = true := same_self (h.child (.key hf))
  have hfind : es.find? (fun f => same e.1 f.1) = some e := find?_sameKey h.here hself he
  rw [lookup?]
  exact congrArg (Option.map (·.2)) hfind

/-- the names of a list and those of another that are new, in order of their first occurrence -/
theorem foldl_addNew (ks names : List String) :
    names.foldl (fun ks name => if name ∈ ks then ks else ks ++ [name]) ks =
      ks ++ (names.filter fun name => !ks.contains name).eraseDups := by
  induction names generalizing ks with
  | nil => simp
  | cons name names ih =>
    rw [List.foldl_cons, ih]
    by_cases h : name ∈ ks
    · simp [h]
    · have hfilter : (names.filter fun n => !(ks ++ [name]).contains n) =
          (names.filter fun n => !ks.contains n).filter fun n => !n == name := by
        rw [List.filter_filter]
        refine List.filter_congr fun n _ => ?_
        by_cases hn : n = name <;> simp [hn]
      rw [if_neg h, hfilter, List.filter_cons_of_pos (by simpa using h), List.eraseDups_cons, List.append_assoc,
        List.singleton_append]

namespace KeyView

variable {acc entries : List (String × Value)} {es : List (Value × Value)} {names : List String} {view : KeyView}

/-- a view has under a name what stands in the last entry of that name, or else what the view before has -/
theorem find_ofEntriesFrom (h : ofEntriesFrom acc es = .ok entries) (name : String) :
    find name entries = (lastUnder es name).or (find name acc) := by
  induction es generalizing acc with
  | nil =>
    cases h
    rfl
  | cons e es ih =>
    obtain ⟨k, v⟩ := e
    rw [ofEntriesFrom] at h
    obtain ⟨key, hkey, h⟩ := bind_eq_ok.1 h
    have hlast : lastUnder ((k, v) :: es) name = (lastUnder es name).or (if key = name then some v else none) := by
      rw [lastUnder, lastSpelled?, List.reverse_cons, List.find?_append, Option.map_or, List.find?_singleton, hkey]
      by_cases hname : key = name <;> simp [lastUnder, lastSpelled?, hname, Except.toOption]
    rw [ih h, hlast, Option.or_assoc]
    congr 1
    by_cases hname : key = name
    · rw [hname, find_insert_self, if_pos rfl, Option.some_or]
    · rw [find_insert_ne (Ne.symm hname), if_neg hname, Option.none_or]

/-- the names of a view are those of the view before, and then the normal forms that are new, as they come -/
theorem keys_ofEntriesFrom (h : ofEntriesFrom acc es = .ok entries) (hnames : normalForms es = .ok names) :
    entries.map (·.1) = acc.map (·.1) ++ (names.filter fun name => !(acc.map (·.1)).contains name).eraseDups := by
  rw [← foldl_addNew]
  induction es generalizing acc names with
  | nil =>
    cases h
    cases hnames
    rfl
  | cons e es ih =>
    rw [ofEntriesFrom] at h
    obtain ⟨key, hkey, h⟩ := bind_eq_ok.1 h
    have hforms := mapM_eq_ok.1 hnames
    cases hforms with
    | @cons _ key' _ rest hkey' hrest =>
      cases hkey.symm.trans hkey'
      rw [ih h (mapM_eq_ok.2 hrest), List.foldl_cons, keys_insert]

theorem nodup_insert {k : String} (v : Value) (h : (acc.map (·.1)).Nodup) : ((insert k v acc).map (·.1)).Nodup := by
  rw [keys_insert]
  split
  · exact h
  · next hk =>
    refine List.nodup_append.2 ⟨h, List.nodup_singleton k, fun l hl m hm => ?_⟩
    rw [List.mem_singleton.1 hm]
    exact fun he => hk (he ▸ hl)

theorem nodup_ofEntriesFrom (h : ofEntriesFrom acc es = .ok entries) (hacc : (acc.map (·.1)).Nodup) :
    (entries.map (·.1)).Nodup := by
  induction es generalizing acc with
  | nil =>
    cases h
    exact hacc
  | cons e es ih =>
    rw [ofEntriesFrom] at h
    obtain ⟨key, -, h⟩ := bind_eq_ok.1 h
    exact ih h (nodup_insert e.2 hacc)

theorem exists_ofEntriesFrom (hnames : normalForms es = .ok names) (acc : List (String × Value)) :
    ∃ entries, ofEntriesFrom acc es = .ok entries := by
  induction es generalizing acc names with
  | nil => exact ⟨acc, rfl⟩
  | cons e es ih =>
    cases mapM_eq_ok.1 hnames with
    | cons hkey hrest =>
      obtain ⟨entries, hentries⟩ := ih (mapM_eq_ok.2 hrest) (insert _ e.2 acc)
      exact ⟨entries, by rw [ofEntriesFrom, hkey, ok_bind, hentries]⟩

/-! ## The law -/

/-- a view answers by the last entry, for a mapping whose keys have these normal forms -/
structure LastWins (es : List (Value × Value)) (names : List String) (view : KeyView) : Prop where
  /-- it gives the normal forms in order of their first occurrence -/
  keys : view.keys = names.eraseDups
  /-- each once -/
  once : view.keys.Nodup
  /-- and its size is their number -/
  size : view.size = names.eraseDups.length
  /-- under a name it has what stands in the last entry of that name -/
  get? : ∀ name, view.get? name = lastUnder es name
  /-- which is what the mapping has under the key of that entry, if it has each key once -/
  stored : (Value.map false es).WellKeyed → ∀ name e, lastSpelled? es name = some e →
    view.get? name = Value.lookup? e.1 es
  /-- a key is there if some key of the mapping has the same normal form -/
  has : ∀ k name, normalizeKey k = .ok name → view.has k = .ok (given es name)
  /-- its item is what stands in the last entry -/
  item : ∀ k name v, normalizeKey k = .ok name → lastUnder es name = some v → view.item k = .ok v
  /-- and a fault that shows the normal form where there is none -/
  missing : ∀ k name, normalizeKey k = .ok name → lastUnder es name = none →
    view.item k = .error (.missingKey (quotedName name))
  /-- or a default stands for it -/
  getD : ∀ k name default, normalizeKey k = .ok name → view.getD k default = .ok ((lastUnder es name).getD default)
  /-- these two agree with whether the key is there -/
  there : ∀ name, (lastUnder es name).isSome = given es name
  /-- a normal form is its own normal form -/
  normal : ∀ k name, normalizeKey k = .ok name → normalizeKey (.text name) = .ok name
  /-- the items, one for each name, have the same view -/
  again : ∃ items, (view.keys.mapM fun name => do .ok (Value.text name, ← view.item (.text name))) = .ok items ∧
    ofEntries items = .ok view

/-- an item under each name of a view, in order, makes the view again -/
theorem items_again (hn : view.keys.Nodup) :
    ∃ items, (view.keys.mapM fun name => do .ok (Value.text name, ← view.item (.text name))) = .ok items ∧
      ofEntries items = .ok view := by
  obtain ⟨fs⟩ := view
  refine ⟨Fields.entries fs, ?_, ofEntries_entries hn⟩
  refine mapM_eq_ok.2 (List.forall₂_map_left_iff.2 (List.forall₂_map_right_iff.2 (List.forall₂_same.2 fun f hf => ?_)))
  have hkey : normalizeKey (.text f.1) = .ok f.1 := rfl
  have hget : KeyView.get? ⟨fs⟩ f.1 = some f.2 := by
    rw [KeyView.get?, find_eq, (find?_key_eq_some hn).2 ⟨hf, rfl⟩, Option.map_some]
  simp only [item, hkey, ok_bind, hget]

theorem lastWins_of_ofEntries (hnames : normalForms es = .ok names) (h : ofEntries es = .ok view) :
    view.LastWins es names := by
  have hgiven (name : String) : (view.get? name).isSome = given es name := isSome_get? h name
  obtain ⟨entries, hentries, hview⟩ := bind_eq_ok.1 h
  cases hview
  have hget (name : String) : KeyView.get? ⟨entries⟩ name = lastUnder es name := by
    rw [KeyView.get?, find_ofEntriesFrom hentries, find, Option.or_none]
  have hkeys : KeyView.keys ⟨entries⟩ = names.eraseDups := by
    rw [KeyView.keys, keys_ofEntriesFrom hentries hnames]
    simp
  have honce : (KeyView.keys ⟨entries⟩).Nodup := nodup_ofEntriesFrom hentries List.nodup_nil
  constructor
  case keys => exact hkeys
  case once => exact honce
  case size => rw [← hkeys, size, KeyView.keys, List.length_map]
  case get? => exact hget
  case stored =>
    intro hkeyed name e he
    rw [hget, lastUnder, he, Option.map_some,
      Value.lookup?_key hkeyed (List.mem_reverse.1 (List.mem_of_find?_eq_some he))]
  case has =>
    intro k name hk
    rw [KeyView.has, hk, ok_bind, hgiven]
  case item =>
    intro k name v hk hv
    simp only [KeyView.item, hk, ok_bind, hget, hv]
  case missing =>
    intro k name hk hv
    simp only [KeyView.item, hk, ok_bind, hget, hv]
  case getD =>
    intro k name default hk
    rw [KeyView.getD, hk, ok_bind, hget]
  case there =>
    intro name
    rw [← hget, hgiven]
  case normal => exact fun _ _ _ => rfl
  case again => exact items_again honce

end KeyView

/-! ## Raw input -/

/-- an instance answers questions about its raw input by the last entry, and each attribute was read from that entry -/
structure Definition.SeesLast (r : Registry) (here : Place) (d : Definition) (es : List (Value × Value)) (view : KeyView)
    (p : Instance) : Prop where
  has : ∀ k name, normalizeKey k = .ok name → p.has k = .ok (given es name)
  item : ∀ k name v, normalizeKey k = .ok name → lastUnder es name = some v → p.item k = .ok v
  missing : ∀ k name, normalizeKey k = .ok name → lastUnder es name = none →
    p.item k = .error (.missingKey (quotedName name))
  getD : ∀ k name default, normalizeKey k = .ok name → p.getD k default = .ok ((lastUnder es name).getD default)
  /-- what an attribute was read from is what raw access gives under its name -/
  same : ∀ a ∈ d.attributes, p.getD (.text a.name) .null = .ok ((view.get? a.name).getD .null) ∧
    p.has (.text a.name) = .ok (a.suppliedIn view)
  read : ∀ a ∈ d.attributes, ∃ o, a.Yields r here d.settings.strictTypes view (.ok o) ∧
    ∀ v, o = some v → (a.name, v) ∈ p.values

namespace Definition

variable {r : Registry} {here : Place} {run : Nat} {d : Definition} {es : List (Value × Value)} {names : List String}
  {view : KeyView} {p : Instance}

/-- in an instance that was read each attribute has what it yields -/
theorem yields_of_read {raw : Value} (hview : viewOf raw = .ok view) (h : d.read r here raw = .ok (.ok p)) {a : Attribute}
    (ha : a ∈ d.attributes) :
    ∃ o, a.Yields r here d.settings.strictTypes view (.ok o) ∧ ∀ v, o = some v → (a.name, v) ∈ p.values := by
  obtain ⟨view', rs, hview', hrs, ho⟩ := read_eq_ok.1 h
  cases hview.symm.trans hview'
  obtain ⟨hfindings, hp⟩ := gather_eq_ok.1 ho.symm
  obtain ⟨x, hx, hread⟩ := exists_of_mem_left hrs ha
  obtain ⟨hname, -, hyields⟩ := Attribute.read_eq_ok.1 hread
  cases hreading : x.reading with
  | error f =>
    have hmem : (x.name, f) ∈ findings rs := mem_findings.2 ⟨x, hx, rfl, hreading⟩
    rw [hfindings] at hmem
    cases hmem
  | ok o =>
    rw [hreading] at hyields
    refine ⟨o, hyields, ?_⟩
    rintro v rfl
    rw [hp]
    exact List.mem_filterMap.2 ⟨x, hx, by rw [hreading, hname]⟩

theorem seesLast_of_parse (hlaw : view.LastWins es names) (hview : KeyView.ofEntries es = .ok view) {raw : Value}
    {ro : Bool}
    (h : d.parse r run raw = .ok p) (hraw : p.raw = .map ro es) : d.SeesLast r (.root run) es view p := by
  have hpview : Parsed.view p = .ok view := by
    rw [Parsed.view, hraw]
    exact hview
  have hread : d.read r (.root run) (.map ro es) = .ok (.ok p) := hraw ▸ read_of_parse h
  have hviewOf : viewOf (.map ro es) = .ok view := hview
  have hhas (k : Value) (name : String) (hk : normalizeKey k = .ok name) : p.has k = .ok (given es name) := by
    rw [Parsed.has, hpview, ok_bind, hlaw.has k name hk]
  have hgetD (k : Value) (name : String) (default : Value) (hk : normalizeKey k = .ok name) :
      p.getD k default = .ok ((lastUnder es name).getD default) := by
    rw [Parsed.getD, hpview, ok_bind, hlaw.getD k name default hk]
  constructor
  case has => exact hhas
  case getD => exact hgetD
  case item =>
    intro k name v hk hv
    rw [Parsed.item, hpview, ok_bind, hlaw.item k name v hk hv]
  case missing =>
    intro k name hk hv
    rw [Parsed.item, hpview, ok_bind, hlaw.missing k name hk hv]
  case same =>
    intro a _
    rw [hgetD _ a.name _ rfl, hhas _ a.name rfl, Attribute.suppliedIn, hlaw.get?, hlaw.there]
    exact ⟨rfl, rfl⟩
  case read => exact fun a ha => yields_of_read hviewOf hread ha

end Definition

/-- **Looking a key up is looking for the last entry of its normal form**: in the view of a mapping, in the reading of a
definition, which is done through that view, and in the raw input of an instance. -/
theorem KeyView.last_wins {es : List (Value × Value)} {names : List String} (h : normalForms es = .ok names) :
    ∃ view, ofEntries es = .ok view ∧ view.LastWins es names ∧
      (∀ (r : Registry) (here : Place) (d : Definition) (ro : Bool) (o : Except Report Instance),
        d.read r here (.map ro es) = .ok o → ∃ rs, ReadEach r here d.settings.strictTypes view d.attributes rs ∧
        o = gather d.heading (.map ro es) rs) ∧
      ∀ (r : Registry) (run : Nat) (d : Definition) (raw : Value) (ro : Bool) (p : Instance), d.parse r run raw = .ok p →
        p.raw = .map ro es → d.SeesLast r (.root run) es view p := by
  obtain ⟨entries, hentries⟩ := exists_ofEntriesFrom h []
  have hview : ofEntries es = .ok ⟨entries⟩ := by rw [ofEntries, hentries, ok_bind]
  have hlaw := lastWins_of_ofEntries h hview
  refine ⟨⟨entries⟩, hview, hlaw, fun r here d ro o ho => ?_, fun r run d raw ro p hp hraw => ?_⟩
  · obtain ⟨view, rs, hviewOf, hrs, hgather⟩ := Definition.read_eq_ok.1 ho
    cases hview.symm.trans hviewOf
    exact ⟨rs, hrs, hgather⟩
  · exact Definition.seesLast_of_parse hlaw hview hp hraw

/-- a number under three spellings of its name, and a name between them -/
def spelled : List (Value × Value) :=
  [(.bytes false [105, 100], .text "1"), (.text "name", .text "Ada"), (.member 0 (.text "id"), .text "2"),
    (.textMember "id", .text "42"), (.bytes false [255], .null)]

/-- a user whose number is the last of the three -/
theorem spelled_last_wins :
    normalForms spelled = .ok ["id", "name", "id", "id", "\ufffd"] ∧
    ∃ view, KeyView.ofEntries spelled = .ok view ∧ view.LastWins spelled ["id", "name", "id", "id", "\ufffd"] ∧
      view.keys = ["id", "name", "\ufffd"] ∧ view.item (.bytes true [105, 100]) = .ok (.text "42") ∧
      ∃ p, user.parse .builtin 0 (.map false spelled) = .ok p ∧ user.SeesLast .builtin (.root 0) spelled view p ∧
        p.valueOf "id" = .int 42 ∧ p.item (.text "id") = .ok (.text "42") := by
  have hforms : normalForms spelled = .ok ["id", "name", "id", "id", "\ufffd"] := rfl
  have hlast : lastUnder spelled "id" = some (.text "42") := rfl
  obtain ⟨view, hview, hlaw, -, hsees⟩ := KeyView.last_wins hforms
  have hparse : user.parse .builtin 0 (.map false spelled) = .ok ⟨user.heading, .map false spelled,
      [("id", .int 42), ("title", .text "Untitled"), ("name", .text "Ada")], ["id", "name"]⟩ := rfl
  have hp := hsees _ _ _ _ _ _ hparse rfl
  exact ⟨hforms, view, hview, hlaw, hlaw.keys.trans (by decide), hlaw.item _ _ _ rfl hlast, _, hparse, hp, rfl,
    hp.item _ _ _ rfl hlast⟩

end Intake
