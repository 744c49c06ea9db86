/-
The payload of a failed parse tells its report.

A report whose messages are texts has a payload, and from the payload the report is read back: one key, `errors`, and
under it the same names in the same order at every level, with the same messages (`Report.Worded.decodes`). So reports
with one payload are equal. What it takes is that names stand once at each level, since of two entries under one key
only one would be read. Names do, in a report that a parse gathers and in one that is built step by step, whatever is
filed or merged, by whatever names (`Report.Obtained.worded`).

A message that is a member of an enumeration is read back as the text that it is (`Report.plain`).

Results:
- `Report.Worded.addTo`, `Report.Worded.mergeEntries`: the steps, and `Definition.worded_of_mirrors`: what a parse
  gathers;
- `Report.payload_tells`: every report that is obtained in such a way.
-/
import Intake.Proofs.Conservation
import Intake.Proofs.Independence
import Intake.Proofs.Json.Roundtrip
import Intake.Proofs.Mirroring

namespace Intake

open Outcome

namespace Report

variable {es fs onto inner rest : List (String × Finding)} {k l : String} {m : Value} {rep other : Report}

/-! ## Reports in words -/

/-- names stand once at each level, and every message is a text -/
inductive Worded : List (String × Finding) → Prop where
  | nil : Worded []
  | messages {k : String} {ms : List Value} {rest : List (String × Finding)} (hnew : k ∉ rest.map (·.1))
    (hms : ∀ m ∈ ms, m.text?.isSome) (hrest : Worded rest) : Worded ((k, .messages ms) :: rest)
  | nested {k : String} {es rest : List (String × Finding)} (hnew : k ∉ rest.map (·.1)) (hinside : Worded es)
    (hrest : Worded rest) : Worded ((k, .nested es) :: rest)

theorem Worded.nodup (h : Worded es) : (es.map (·.1)).Nodup := by
  induction h with
  | nil => exact List.nodup_nil
  | messages hnew _ _ ih => exact List.nodup_cons.2 ⟨hnew, ih⟩
  | nested hnew _ _ _ ih => exact List.nodup_cons.2 ⟨hnew, ih⟩

theorem Worded.written (h : Worded es) : ∀ e ∈ es, e.2.Written := by
  induction h with
  | nil => exact List.forall_mem_nil _
  | messages _ hms _ ih => exact List.forall_mem_cons.2 ⟨.messages hms, ih⟩
  | nested _ _ _ ihinside ih => exact List.forall_mem_cons.2 ⟨.nested ihinside, ih⟩

/-- a report is in words if its names stand once, its messages are texts and the reports in it are in words -/
theorem worded_of_entries (hn : (es.map (·.1)).Nodup) (hw : ∀ e ∈ es, e.2.Written)
    (hi : ∀ k fs, (k, .nested fs) ∈ es → (∀ e ∈ fs, e.2.Written) → Worded fs) : Worded es := by
  induction es with
  | nil => exact .nil
  | cons e es ih =>
    obtain ⟨k, f⟩ := e
    obtain ⟨hnew, hn⟩ := List.nodup_cons.1 hn
    obtain ⟨hf, hw⟩ := List.forall_mem_cons.1 hw
    have hrest : Worded es := ih hn hw fun k fs h => hi k fs (List.mem_cons_of_mem _ h)
    cases hf with
    | messages hms => exact .messages hnew hms hrest
    | nested hfs => exact .nested hnew (hi k _ List.mem_cons_self hfs) hrest

theorem Worded.of_find (h : Worded es) {f : Finding} (hfind : find k es = some f) : Worded [(k, f)] := by
  induction h with
  | nil => cases hfind
  | messages _ hms _ ih =>
    rw [find] at hfind
    split at hfind
    · cases hfind
      exact .messages (List.not_mem_nil) hms .nil
    · exact ih hfind
  | nested _ hinside _ _ ih =>
    rw [find] at hfind
    split at hfind
    · cases hfind
      exact .nested (List.not_mem_nil) hinside .nil
    · exact ih hfind

/-! ## What filing and merging keep -/

theorem Worded.addTo (h : Worded es) (hm : m.text?.isSome) (k : String) : Worded (addTo k m es) := by
  induction h generalizing k with
  | nil =>
    rw [Report.addTo]
    exact .messages List.not_mem_nil (by simpa using hm) .nil
  | @messages l ms rest hnew hms hrest ih =>
    rw [Report.addTo]
    split
    · rw [addInside]
      exact .messages hnew (List.forall_mem_append.2 ⟨hms, by simpa using hm⟩) hrest
    · next hne => exact .messages (fun hmem => (mem_names_addTo hmem).elim hne hnew) hms (ih k)
  | @nested l es rest hnew hinside hrest ihinside ih =>
    rw [Report.addTo]
    split
    · rw [addInside]
      exact .nested hnew (ihinside "base") hrest
    · next hne => exact .nested (fun hmem => (mem_names_addTo hmem).elim hne hnew) hinside (ih k)

theorem Worded.addAll (h : Worded es) {ms : List Value} (hms : ∀ m ∈ ms, m.text?.isSome) (k : String) :
    Worded (ms.foldl (fun es m => Report.addTo k m es) es) := by
  induction ms generalizing es with
  | nil => exact h
  | cons m ms ih =>
    obtain ⟨hm, hms⟩ := List.forall_mem_cons.1 hms
    exact ih (h.addTo hm k) hms

theorem Worded.put (h : Worded es) (hf : Worded fs) (k : String) : Worded (put k (.nested fs) es) := by
  induction h with
  | nil =>
    rw [Report.put]
    exact .nested List.not_mem_nil hf .nil
  | @messages l ms rest hnew hms hrest ih =>
    rw [Report.put]
    split
    · exact .nested hnew hf hrest
    · next hkl => exact .messages (fun hmem => (mem_names_put hmem).elim hkl hnew) hms ih
  | @nested l es rest hnew hinside hrest _ ih =>
    rw [Report.put]
    split
    · exact .nested hnew hf hrest
    · next hkl => exact .nested (fun hmem => (mem_names_put hmem).elim hkl hnew) hinside ih

theorem Worded.attach (h : Worded onto) (hf : Worded es) (k : String)
    (ih : ∀ {inner}, Worded inner → Worded (mergeEntries inner es)) : Worded (attach k es onto) := by
  unfold Report.attach
  split
  · next inner hfind =>
    cases h.of_find hfind with
    | nested _ hinner => exact h.put (ih hinner) k
  · next ms hfind =>
    cases h.of_find hfind with
    | messages _ hms => exact h.put (hf.addAll hms "base") k
  · exact h.put hf k

theorem Worded.mergeEntries (hf : Worded es) (h : Worded onto) : Worded (mergeEntries onto es) := by
  induction hf generalizing onto with
  | nil => rwa [Report.mergeEntries]
  | @messages k ms rest hnew hms hrest ih =>
    rw [Report.mergeEntries]
    exact ih (h.addAll hms k)
  | @nested k es rest hnew hinside hrest ihinside ih =>
    by_cases hes : es = []
    · subst hes
      rw [Report.mergeEntries]
      exact ih h
    · rw [mergeEntries_nested hes]
      exact ih (h.attach hinside k ihinside)

theorem Worded.merge (h : Worded rep.entries) (ho : Worded other.entries) (k : String) :
    Worded (rep.merge k other).entries :=
  Worded.mergeEntries (.nested List.not_mem_nil ho .nil) h

end Report

/-! ## What a parse gathers -/

namespace Definition

variable {r : Registry} {here : Place} {d : Definition} {raw : Value} {es : List (String × Finding)}

/-- **What a parse gathers has each name once at each level**, so it is in words if its messages are texts. -/
theorem worded_of_mirrors (h : d.Mirrors r here raw es) (hw : ∀ e ∈ es, e.2.Written) : Report.Worded es := by
  induction d using byParts generalizing here raw es with
  | parts d ih =>
    cases h with
    | @intro _ _ _ view _ hv hne order once each =>
      refine Report.worded_of_entries once hw fun k fs hk hfs => ?_
      obtain ⟨a, ha, rfl⟩ := List.mem_map.1 (order.subset (List.mem_map_of_mem hk))
      cases each a ha _ hk with
      | nested hs _ h => exact ih a ha _ (by rw [hs]; rfl) h hfs
      | @array _ _ _ _ e xs is _ hs _ _ keys increasing below element =>
        refine Report.worded_of_entries ?_ hfs fun j gs hj hgs => ?_
        · rw [keys]
          exact List.pairwise_map.2 (increasing.imp fun hlt heq => absurd (numeral_inj.1 heq) (Nat.ne_of_lt hlt))
        · have hindex : j ∈ is.map numeral := keys ▸ List.mem_map_of_mem hj
          obtain ⟨i, hi, rfl⟩ := List.mem_map.1 hindex
          cases element i _ _ hj (List.getElem?_eq_getElem (below i hi)) with
          | nested _ h => exact ih a ha e (by rw [hs]; rfl) h hgs

end Definition

namespace Report

variable {es fs : List (String × Finding)} {rep other : Report} {text : String}

/-! ## What is read back -/

def plainEntries : List (String × Finding) → List (String × Finding)
  | [] => []
  | (k, .messages ms) :: rest => (k, .messages (ms.map Value.asJson)) :: plainEntries rest
  | (k, .nested es) :: rest => (k, .nested (plainEntries es)) :: plainEntries rest

/-- the report with the same names in the same order, in which a message that is a member of an enumeration is the text
it is -/
def plain (rep : Report) : Report := ⟨plainEntries rep.entries⟩

theorem asJsonEntries_entriesValue (es : List (String × Finding)) :
    Value.asJsonEntries (entriesValue es) = entriesValue (plainEntries es) := by
  induction es using byEntries with
  | nil => simp [entriesValue, plainEntries, Value.asJsonEntries]
  | messages k ms rest ih =>
    rw [entriesValue, plainEntries, entriesValue, Value.asJsonEntries, ih, Value.asJson, Value.asJsonAll_eq_map]
  | nested k es rest ihinside ih =>
    rw [entriesValue, plainEntries, entriesValue, Value.asJsonEntries, ih, Value.asJson, ihinside]

/-- entries whose names stand once tell what they are if their findings do -/
theorem tellable_of_findings (hn : (es.map (·.1)).Nodup) (h : ∀ e ∈ es, (findingValue e.2).Tellable) :
    (Value.map false (entriesValue es)).Tellable := by
  rw [entriesValue_eq, Fields.entries, List.map_map]
  refine Value.Throughout.map_iff.2 ⟨⟨fun e he => ?_, ?_⟩, fun e he => ?_⟩
  · obtain ⟨f, -, rfl⟩ := List.mem_map.1 he
    exact ⟨f.1, rfl⟩
  · refine List.pairwise_map.2 ((List.pairwise_map.1 hn).imp fun hne => ?_)
    exact (Value.sameKey_texts _ _).trans (beq_eq_false_iff_ne.2 hne.symm)
  · obtain ⟨f, hf, rfl⟩ := List.mem_map.1 he
    exact ⟨Value.Throughout.text_iff.2 trivial, h f hf⟩

theorem tellable_of_text {m : Value} (h : m.text?.isSome) : m.Tellable := by
  cases m with
  | text s => exact Value.Throughout.text_iff.2 trivial
  | textMember s => exact .intro trivial nofun
  | _ => cases h

theorem Worded.findings_tellable (h : Worded es) : ∀ e ∈ es, (findingValue e.2).Tellable := by
  induction h with
  | nil => exact List.forall_mem_nil _
  | messages _ hms _ ih =>
    exact List.forall_mem_cons.2 ⟨Value.Throughout.list_iff.2 ⟨trivial, fun m hm => tellable_of_text (hms m hm)⟩, ih⟩
  | nested _ hinside _ ihinside ih => exact List.forall_mem_cons.2 ⟨tellable_of_findings hinside.nodup ihinside, ih⟩

theorem Worded.tellable (h : Worded rep.entries) : rep.payload.Tellable :=
  Value.Throughout.map_iff.2 ⟨⟨by simp, by simp⟩, fun e he => by
    obtain rfl := List.mem_singleton.1 he
    exact ⟨Value.Throughout.text_iff.2 trivial, tellable_of_findings h.nodup h.findings_tellable⟩⟩

theorem asJson_payload (rep : Report) : rep.payload.asJson = rep.plain.payload := by
  change (Value.map false [(.text "errors", .map false (entriesValue rep.entries))]).asJson =
    .map false [(.text "errors", .map false (entriesValue (plainEntries rep.entries)))]
  rw [Value.asJson, Value.asJsonEntries, Value.asJson, asJsonEntries_entriesValue, Value.asJsonEntries]

/-- **The payload of a report in words is read back as the report**, under the one key `errors`. -/
theorem Worded.decodes (h : Worded rep.entries) (ht : rep.payload.json .compact = .ok text) :
    Json.read text = .ok rep.plain.payload := by
  have hread : Json.read (text ++ "") = .ok rep.payload.asJson :=
    Json.read_json Json.Style.compact_marked h.tellable ht (by simp)
  rwa [String.append_empty, asJson_payload] at hread

/-! ## Reports with one payload -/

theorem plainEntries_names (es : List (String × Finding)) : (plainEntries es).map (·.1) = es.map (·.1) := by
  induction es using byEntries with
  | nil => rw [plainEntries]
  | messages k ms rest ih => rw [plainEntries, List.map_cons, List.map_cons, ih]
  | nested k es rest _ ih => rw [plainEntries, List.map_cons, List.map_cons, ih]

/-- the way to each message stays, and so does the order of the ways -/
theorem ways_plainEntries (es : List (String × Finding)) :
    ways (plainEntries es) = (ways es).map fun w => (w.1, w.2.asJson) := by
  induction es using byEntries with
  | nil => rw [plainEntries, ways, List.map_nil]
  | messages k ms rest ih => simp [plainEntries, ways, ih]
  | nested k es rest ihinside ih => simp [plainEntries, ways, ih, ihinside]

/-- a report whose messages are plain texts is its own plain form -/
theorem plainEntries_eq_self (h : ∀ w ∈ ways es, ∃ s, w.2 = .text s) : plainEntries es = es := by
  induction es using byEntries with
  | nil => rw [plainEntries]
  | messages k ms rest ih =>
    rw [ways, List.forall_mem_append] at h
    have hms : ms.map Value.asJson = ms := by
      refine (List.map_congr_left fun m hm => ?_).trans (List.map_id' ms)
      obtain ⟨s, rfl⟩ : ∃ s, m = .text s := h.1 _ (List.mem_map_of_mem hm)
      rfl
    rw [plainEntries, hms, ih h.2]
  | nested k es rest ihinside ih =>
    rw [ways, List.forall_mem_append] at h
    rw [plainEntries, ih h.2, ihinside fun w hw => h.1 (k :: w.1, w.2) (List.mem_map.2 ⟨w, hw, rfl⟩)]

theorem entriesValue_inj (h : entriesValue es = entriesValue fs) : es = fs := by
  induction es using byEntries generalizing fs with
  | nil =>
    cases fs with
    | nil => rfl
    | cons f fs => obtain ⟨l, ns | gs⟩ := f <;> simp [entriesValue] at h
  | messages k ms rest ih =>
    obtain _ | ⟨⟨l, ns | gs⟩, fs⟩ := fs
    · simp [entriesValue] at h
    · simp only [entriesValue, List.cons.injEq, Prod.mk.injEq, Value.text.injEq, Value.list.injEq] at h
      obtain ⟨⟨rfl, rfl⟩, h⟩ := h
      rw [ih h]
    · simp [entriesValue] at h
  | nested k es rest ihinside ih =>
    obtain _ | ⟨⟨l, ns | gs⟩, fs⟩ := fs
    · simp [entriesValue] at h
    · simp [entriesValue] at h
    · simp only [entriesValue, List.cons.injEq, Prod.mk.injEq, Value.text.injEq, Value.map.injEq, true_and] at h
      obtain ⟨⟨rfl, hinside⟩, h⟩ := h
      rw [ih h, ihinside hinside]

theorem asJson_of_text {m : Value} (h : m.text?.isSome) : ∃ s, m.text? = some s ∧ m.asJson = .text s := by
  cases m with
  | text s | textMember s => exact ⟨s, rfl, rfl⟩
  | _ => cases h

theorem same_of_asJson {m n : Value} (hm : m.text?.isSome) (hn : n.text?.isSome) (h : m.asJson = n.asJson) :
    m.same n = true := by
  cases m with
  | text s | textMember s =>
    cases n with
    | text t | textMember t =>
      obtain rfl : s = t := Value.text.inj h
      simp [Value.same, Value.text?]
    | _ => cases hn
  | _ => cases hm

/-- the plain form of a report in words is in words, and all its messages are plain texts -/
theorem Worded.of_plain (h : Worded es) :
    Worded (plainEntries es) ∧ ∀ w ∈ ways (plainEntries es), ∃ s, w.2 = .text s := by
  induction h with
  | nil =>
    rw [plainEntries, ways]
    exact ⟨.nil, List.forall_mem_nil _⟩
  | @messages k ms rest hnew hms hrest ih =>
    have htext : ∀ m ∈ ms.map Value.asJson, ∃ s, m = .text s := by
      intro m hm
      obtain ⟨n, hn, rfl⟩ := List.mem_map.1 hm
      obtain ⟨s, -, hs⟩ := asJson_of_text (hms n hn)
      exact ⟨s, hs⟩
    rw [plainEntries, ways]
    refine ⟨.messages (by rwa [plainEntries_names]) (fun m hm => ?_) ih.1,
      List.forall_mem_append.2 ⟨fun w hw => ?_, ih.2⟩⟩
    · obtain ⟨s, rfl⟩ := htext m hm
      rfl
    · obtain ⟨m, hm, rfl⟩ := List.mem_map.1 hw
      exact htext m hm
  | @nested k es rest hnew _ _ ihinside ih =>
    rw [plainEntries, ways]
    refine ⟨.nested (by rwa [plainEntries_names]) ihinside.1 ih.1, List.forall_mem_append.2 ⟨fun w hw => ?_, ih.2⟩⟩
    obtain ⟨v, hv, rfl⟩ := List.mem_map.1 hw
    exact ihinside.2 v hv

/-- reports in words are equal, finding by finding, if their plain forms are -/
theorem Worded.same_findings (h : Worded es) (h' : Worded fs) (heq : plainEntries es = plainEntries fs) :
    List.Forall₂ (fun e f => e.1 = f.1 ∧ (findingValue e.2).same (findingValue f.2) = true) es fs := by
  induction h generalizing fs with
  | nil =>
    cases h' with
    | nil => exact .nil
    | messages | nested => simp [plainEntries] at heq
  | @messages k ms rest _ hms _ ih =>
    cases h' with
    | nil | nested => simp [plainEntries] at heq
    | @messages _ ns _ _ hns hrest =>
      simp only [plainEntries, List.cons.injEq, Prod.mk.injEq, Finding.messages.injEq] at heq
      obtain ⟨⟨rfl, hmessages⟩, heq⟩ := heq
      have hsame : List.Forall₂ (fun m n => m.asJson = n.asJson) ms ns := by
        rwa [← List.forall₂_eq_eq_eq, List.forall₂_map_left_iff, List.forall₂_map_right_iff] at hmessages
      have hall := forall₂_of_mem hsame fun m hm n hn h => same_of_asJson (hms m hm) (hns n hn) h
      exact .cons ⟨rfl, by rw [findingValue, findingValue, Value.same]; exact sameList_of_forall₂ hall⟩ (ih hrest heq)
  | @nested k es rest _ hinside _ ihinside ih =>
    cases h' with
    | nil | messages => simp [plainEntries] at heq
    | nested _ hinside' hrest =>
      simp only [plainEntries, List.cons.injEq, Prod.mk.injEq, Finding.nested.injEq] at heq
      obtain ⟨⟨rfl, heqinside⟩, heq⟩ := heq
      exact .cons ⟨rfl, same_map_of_forall₂ hinside'.nodup (ihinside hinside' heqinside)⟩ (ih hrest heq)

theorem Worded.same (h : Worded rep.entries) (h' : Worded other.entries) (heq : rep.plain = other.plain) :
    rep.same other = true :=
  same_map_of_forall₂ h'.nodup (h.same_findings h' (congrArg entries heq))

theorem Worded.plain_same (h : Worded rep.entries) : rep.plain.same rep = true := by
  have hplain : rep.plain.plain = rep.plain := congrArg mk (plainEntries_eq_self h.of_plain.2)
  exact Worded.same h.of_plain.1 h hplain

/-- reports in words with one payload have one plain form -/
theorem Worded.plain_inj (h : Worded rep.entries) (h' : Worded other.entries) (ht : rep.payload.json .compact = .ok text)
    (ht' : other.payload.json .compact = .ok text) : rep.plain = other.plain := by
  have heq : rep.plain.payload = other.plain.payload := Except.ok.inj ((h.decodes ht).symm.trans (h'.decodes ht'))
  have hentries : entriesValue rep.plain.entries = entriesValue other.plain.entries := by
    simpa [payload, Value.ofFields, toValue] using heq
  exact congrArg mk (entriesValue_inj hentries)

/-! ## Every report -/

/-- how a report comes about: a parse gathers it, or it is filled step by step -/
inductive Obtained : Report → Prop where
  | empty : Obtained .empty
  /-- a parse is rejected with what its reading finds (`Definition.parse_of_read_error`), and the messages are texts -/
  | rejected {r : Registry} {here : Place} {d : Definition} {raw : Value} {rep : Report}
    (hd : d.NamesDistinct) (h : d.read r here raw = .ok (.error rep)) (hw : ∀ e ∈ rep.entries, e.2.Written) : Obtained rep
  | add {rep : Report} {m : Value} (h : Obtained rep) (path : String) (hm : m.text?.isSome) : Obtained (rep.add path m)
  | merge {rep other : Report} (h : Obtained rep) (path : String) (ho : Obtained other) : Obtained (rep.merge path other)

theorem Obtained.worded (h : Obtained rep) : Worded rep.entries := by
  induction h with
  | empty => exact .nil
  | rejected hd h hw => exact Definition.worded_of_mirrors (Definition.mirrors_of_read hd h) hw
  | add _ path hm ih => exact ih.addTo hm path
  | merge _ path _ ih iho => exact ih.merge iho path

/-- the payload of a report tells it -/
structure Tells (rep : Report) : Prop where
  /-- there is one -/
  written : ∃ text, rep.payload.json .compact = .ok text
  /-- it is read as a mapping with the report under `errors` and nothing else: the names stand at every level as in the
  report and in its order -/
  decoded : ∀ text, rep.payload.json .compact = .ok text →
    Json.read text = .ok (Value.ofFields [("errors", rep.plain.toValue)])
  /-- what is read is equal to the report -/
  equal : rep.plain.toValue.same rep.toValue = true
  /-- the messages stand in its order, each by its way -/
  order : ways rep.plain.entries = (ways rep.entries).map fun w => (w.1, w.2.asJson)
  /-- where no message is a member of an enumeration it is the report -/
  exact : (∀ w ∈ ways rep.entries, ∃ s, w.2 = .text s) → rep.plain = rep
  /-- a report with the same payload is equal, and read back in the same order -/
  apart : ∀ (other : Report) text, other.Obtained → rep.payload.json .compact = .ok text →
    other.payload.json .compact = .ok text → rep.toValue.same other.toValue = true ∧ rep.plain = other.plain

/-- **The payload of a report tells the report**, whether a parse has gathered it or it was filled by any steps with
texts as messages, whatever characters they have. -/
theorem payload_tells {rep : Report} (h : rep.Obtained) : rep.Tells where
  written := renders_of_written h.worded.written
  decoded _ ht := h.worded.decodes ht
  equal := h.worded.plain_same
  order := ways_plainEntries rep.entries
  exact hplain := congrArg mk (plainEntries_eq_self hplain)
  apart _ _ ho ht ht' := by
    have hplain := h.worded.plain_inj ho.worded ht ht'
    exact ⟨h.worded.same ho.worded hplain, hplain⟩

/-- what is wrong with a delivery, and a remark with a quote, a backslash, a line feed and letters beyond ASCII -/
def remarked : Report := badDeliveryReport.add "to" (.textMember "\"né\" \\\n")

theorem badDeliveryReport_written : ∀ e ∈ badDeliveryReport.entries, e.2.Written := by
  have hmessage (k s : String) : ∀ e ∈ [(k, Finding.message s)], e.2.Written :=
    List.forall_mem_singleton.2 (Finding.written_message s)
  have hboxes : ∀ e ∈ [(numeral 1, Finding.nested [("grams", Finding.message requiredMessage)]),
      (numeral 2, Finding.message notHashMessage)], e.2.Written :=
    List.forall_mem_cons.2 ⟨.nested (hmessage _ _), hmessage _ _⟩
  exact List.forall_mem_cons.2 ⟨.nested (hmessage _ _), List.forall_mem_singleton.2 (.nested hboxes)⟩

theorem remarked_payload : remarked.payload = Value.ofFields [("errors", Value.ofFields [
    ("to", Value.ofFields [("city", .list [.text "is required"]), ("base", .list [.textMember "\"né\" \\\n"])]),
    ("boxes", Value.ofFields [("1", Value.ofFields [("grams", .list [.text "is required"])]),
      ("2", .list [.text "must be a hash"])])])] := by
  have hwords : requiredMessage = "is required" ∧ notHashMessage = "must be a hash" ∧ numeral 1 = "1" ∧
      numeral 2 = "2" := by
    decide +kernel
  simp [remarked, badDeliveryReport, Report.add, addTo, addInside, payload, toValue, entriesValue, Value.ofFields,
    Finding.message, hwords]

/-- a parse is rejected with the report, which is remarked on, and the payload is this text, which tells it -/
theorem remarked_tells : delivery.parse .builtin 0 badDelivery = .error (.rejected badDeliveryReport) ∧
    remarked.Obtained ∧
    remarked.payload.json .compact = .ok
      ("\x7b\"errors\":\x7b\"to\":\x7b\"city\":[\"is required\"],\"base\":[\"\\\"né\\\" \\\\\\n\"]\x7d," ++
        "\"boxes\":\x7b\"1\":\x7b\"grams\":[\"is required\"]\x7d,\"2\":[\"must be a hash\"]\x7d\x7d\x7d") ∧
    remarked.Tells := by
  have hread : delivery.read .builtin (.root 0) badDelivery = .ok (.error badDeliveryReport) := rfl
  have hparse : delivery.parse .builtin 0 badDelivery = .error (.rejected badDeliveryReport) :=
    Definition.parse_of_read_error hread (renders_of_written badDeliveryReport_written)
  have hobtained : remarked.Obtained := .add (.rejected delivery_made.names.1 hread badDeliveryReport_written) "to" rfl
  refine ⟨hparse, hobtained, ?_, payload_tells hobtained⟩
  rw [remarked_payload]
  simp [Value.json, Json.print, Json.printEntries, Json.printAll, Value.ofFields, Json.keyText]
  decide +kernel

end Report

end Intake
