/-
A report loses no message and doubles none.

A report is taken as the multiset of its messages, each with its way (`Report.contents`). A message that is added comes to
stand at the end of its way, or under `base` if a nested report stands there, and as often under `base` again as a
nested report stands there too (`Report.settle`). When reports are merged, the messages of each settle in the other, and
that is all that changes.

Results:
- `Report.contentsOf_addTo`, `Report.contentsOf_mergeEntries`: what filing a message and merging two reports make of
  the contents;
- `Report.conserves`: a report that is built step by step, each report merged into it built in the same way, holds the
  messages that were filed and no others, has nothing empty in it, and counts as true exactly if its flattened form has
  something.
-/
import Mathlib.Algebra.Order.Group.Multiset
import Mathlib.Tactic.Abel
import Intake.Proofs.DottedPaths

namespace Intake

namespace Report

variable {es fs onto inner rest : List (String × Finding)} {k l : String} {m : Value}

/-- induction on what a report holds: messages, nested reports, and what comes after them -/
theorem byEntries {P : List (String × Finding) → Prop} (nil : P [])
    (messages : ∀ k ms rest, P rest → P ((k, .messages ms) :: rest))
    (nested : ∀ k es rest, P es → P rest → P ((k, .nested es) :: rest)) : ∀ es, P es
  | [] => nil
  | (k, .messages ms) :: rest => messages k ms rest (byEntries nil messages nested rest)
  | (k, .nested es) :: rest => nested k es rest (byEntries nil messages nested es) (byEntries nil messages nested rest)

/-! ## Where a message settles -/

/-- how often `base` leads to a nested report, and from there to another -/
def baseDepth : List (String × Finding) → Nat
  | [] => 0
  | (k, .messages _) :: rest => if k = "base" then 0 else baseDepth rest
  | (k, .nested es) :: rest => if k = "base" then baseDepth es + 1 else baseDepth rest

def nestedAt : List String → List (String × Finding) → Option (List (String × Finding))
  | [], es => some es
  | k :: way, es => match find k es with
    | some (.nested inner) => nestedAt way inner
    | _ => none

/-- the way by which a message stands in a report: its own, or under `base` where its own ends at a nested report -/
def settle (es : List (String × Finding)) (way : List String) : List String :=
  match nestedAt way es with
  | none => way
  | some inner => way ++ List.replicate (baseDepth inner + 1) "base"

theorem exists_settle_eq (es : List (String × Finding)) (way : List String) :
    ∃ n, settle es way = way ++ List.replicate n "base" := by
  rw [settle]
  split
  · exact ⟨0, (List.append_nil way).symm⟩
  · exact ⟨_, rfl⟩

theorem settle_nil (es : List (String × Finding)) : settle es [] = List.replicate (baseDepth es + 1) "base" := rfl

theorem settle_of_nested {way : List String} (h : find k es = some (.nested inner)) :
    settle es (k :: way) = k :: settle inner way := by
  simp only [settle, nestedAt, h]
  cases nestedAt way inner <;> rfl

theorem settle_of_not_nested {way : List String} (h : ∀ inner, find k es ≠ some (.nested inner)) :
    settle es (k :: way) = k :: way := by
  have hnone : nestedAt (k :: way) es = none := by
    rw [nestedAt]
    split
    · next inner hfind => exact absurd hfind (h inner)
    · rfl
  rw [settle, hnone]

theorem settle_of_new {way : List String} (h : k ∉ es.map (·.1)) : settle es (k :: way) = k :: way :=
  settle_of_not_nested fun inner hfind => by rw [find_eq_none h] at hfind; cases hfind

/-- ways that begin with a name depend on what stands under it -/
theorem settle_congr (h : find k es = find k fs) (way : List String) : settle es (k :: way) = settle fs (k :: way) := by
  simp only [settle, nestedAt, h]

theorem find_cons_self (k : String) (f : Finding) (es : List (String × Finding)) : find k ((k, f) :: es) = some f :=
  if_pos rfl

theorem find_cons_ne (h : l ≠ k) (f : Finding) (es : List (String × Finding)) :
    find k ((l, f) :: es) = find k es := if_neg h

theorem baseDepth_eq (es : List (String × Finding)) :
    baseDepth es = match find "base" es with
      | some (.nested inner) => baseDepth inner + 1
      | _ => 0 := by
  induction es with
  | nil => rw [baseDepth, find]
  | cons e es ih =>
    obtain ⟨k, f⟩ := e
    by_cases hk : k = "base"
    · subst hk
      rw [find_cons_self]
      cases f <;> simp [baseDepth]
    · rw [find_cons_ne hk, ← ih]
      cases f <;> simp [baseDepth, hk]

/-- a message that meets a nested report settles in it as one that is filed under `base` -/
theorem settle_base (es : List (String × Finding)) : settle es ["base"] = settle es [] := by
  rw [settle_nil, baseDepth_eq]
  split
  · next inner hfind =>
    rw [settle_of_nested hfind, settle_nil]
    rfl
  · next hfind => exact settle_of_not_nested hfind

/-! ## Filing -/

theorem find_addTo_ne (h : l ≠ k) (m : Value) (es : List (String × Finding)) : find l (addTo k m es) = find l es :=
  find?_add_ne ⟨es⟩ h m

theorem baseDepth_addTo (k : String) (m : Value) (es : List (String × Finding)) :
    baseDepth (addTo k m es) = baseDepth es := by
  induction es using byEntries generalizing k with
  | nil => simp [addTo, baseDepth]
  | messages l ms rest ih =>
    rw [addTo]
    split <;> simp [addInside, baseDepth, ih]
  | nested l es rest ihinside ih =>
    rw [addTo]
    split <;> simp [addInside, baseDepth, ih, ihinside]

theorem settle_addTo (k : String) (m : Value) (es : List (String × Finding)) (way : List String) :
    settle (addTo k m es) way = settle es way := by
  induction way generalizing k es with
  | nil => rw [settle_nil, settle_nil, baseDepth_addTo]
  | cons l way ih =>
    by_cases hl : l = k
    · subst hl
      have hself := find_addTo_self l m es
      cases hfind : find l es with
      | none =>
        rw [hfind] at hself
        rw [settle_of_not_nested (by simp [hself]), settle_of_not_nested (by simp [hfind])]
      | some f =>
        rw [hfind] at hself
        cases f with
        | messages ms =>
          rw [settle_of_not_nested (by simp [hself, addInside]), settle_of_not_nested (by simp [hfind])]
        | nested inner =>
          rw [settle_of_nested (hself.trans (congrArg some (addInside.eq_2 m inner))), settle_of_nested hfind, ih]
    · exact settle_congr (find_addTo_ne hl m es) way

/-- the messages of a list of entries, each with its way -/
def contentsOf (es : List (String × Finding)) : Multiset (List String × Value) := ways es

def below (k : String) (w : List String × Value) : List String × Value := (k :: w.1, w.2)

/-- a message with the way by which it stands in a report -/
def settled (es : List (String × Finding)) (w : List String × Value) : List String × Value := (settle es w.1, w.2)

theorem contentsOf_nil : contentsOf [] = 0 := by
  rw [contentsOf, ways]
  rfl

theorem contentsOf_messages (k : String) (ms : List Value) (rest : List (String × Finding)) :
    contentsOf ((k, .messages ms) :: rest) = (ms : Multiset Value).map (fun m => ([k], m)) + contentsOf rest := by
  rw [contentsOf, ways, ← Multiset.coe_add]
  rfl

theorem contentsOf_nested (k : String) (es rest : List (String × Finding)) :
    contentsOf ((k, .nested es) :: rest) = (contentsOf es).map (below k) + contentsOf rest := by
  rw [contentsOf, ways, ← Multiset.coe_add]
  rfl

/-- **A message that is added comes to the others**, by the way at which it settles. -/
theorem contentsOf_addTo (k : String) (m : Value) (es : List (String × Finding)) :
    contentsOf (addTo k m es) = (settle es [k], m) ::ₘ contentsOf es := by
  induction es using byEntries generalizing k with
  | nil =>
    rw [addTo, contentsOf_messages, settle_of_new (by simp), contentsOf_nil]
    rfl
  | messages l ms rest ih =>
    rw [addTo]
    split
    · next hl =>
      subst hl
      rw [addInside, settle_of_not_nested (by simp [find_cons_self]), contentsOf_messages, contentsOf_messages,
        ← Multiset.coe_add,
        Multiset.map_add, Multiset.coe_singleton, Multiset.map_singleton, ← Multiset.singleton_add]
      abel
    · next hl =>
      rw [contentsOf_messages, contentsOf_messages, ih, settle_congr (find_cons_ne hl _ _), Multiset.add_cons]
  | nested l es rest ihinside ih =>
    rw [addTo]
    split
    · next hl =>
      subst hl
      rw [addInside, settle_of_nested (find_cons_self _ _ _), ← settle_base, contentsOf_nested,
        contentsOf_nested, ihinside,
        Multiset.map_cons, Multiset.cons_add]
      rfl
    · next hl =>
      rw [contentsOf_nested, contentsOf_nested, ih, settle_congr (find_cons_ne hl _ _), Multiset.add_cons]

theorem contentsOf_addAll (k : String) (ms : List Value) (es : List (String × Finding)) :
    contentsOf (ms.foldl (fun es m => addTo k m es) es) =
      (ms : Multiset Value).map (fun m => (settle es [k], m)) + contentsOf es := by
  induction ms generalizing es with
  | nil => exact (zero_add _).symm
  | cons m ms ih =>
    rw [List.foldl_cons, ih, contentsOf_addTo, settle_addTo, ← Multiset.cons_coe, Multiset.map_cons, Multiset.add_cons,
      Multiset.cons_add]

theorem settle_addAll (k : String) (ms : List Value) (es : List (String × Finding)) (way : List String) :
    settle (ms.foldl (fun es m => addTo k m es) es) way = settle es way := by
  induction ms generalizing es with
  | nil => rfl
  | cons m ms ih => rw [List.foldl_cons, ih, settle_addTo]

/-! ## Ways by their first names -/

theorem exists_of_mem_contentsOf {w : List String × Value} (h : w ∈ contentsOf es) :
    ∃ k ∈ es.map (·.1), ∃ way, w.1 = k :: way := by
  induction es using byEntries with
  | nil => rw [contentsOf_nil] at h; exact absurd h (Multiset.notMem_zero w)
  | messages k ms rest ih =>
    rw [contentsOf_messages, Multiset.mem_add] at h
    rcases h with h | h
    · obtain ⟨m, -, rfl⟩ := Multiset.mem_map.1 h
      exact ⟨k, by simp, [], rfl⟩
    · obtain ⟨l, hl, hway⟩ := ih h
      exact ⟨l, List.mem_cons_of_mem k hl, hway⟩
  | nested k es rest _ ih =>
    rw [contentsOf_nested, Multiset.mem_add] at h
    rcases h with h | h
    · obtain ⟨v, -, rfl⟩ := Multiset.mem_map.1 h
      exact ⟨k, by simp, v.1, rfl⟩
    · obtain ⟨l, hl, hway⟩ := ih h
      exact ⟨l, List.mem_cons_of_mem k hl, hway⟩

/-- messages settle alike in two reports that agree on the names by which the ways begin -/
theorem map_settled_congr (h : ∀ k ∈ es.map (·.1), find k fs = find k onto) :
    (contentsOf es).map (settled fs) = (contentsOf es).map (settled onto) := by
  refine Multiset.map_congr rfl fun w hw => ?_
  obtain ⟨k, hk, way, hway⟩ := exists_of_mem_contentsOf hw
  rw [settled, settled, hway, settle_congr (h k hk)]

/-- messages stay where they are in a report without their names -/
theorem map_settled_of_new (h : ∀ k ∈ es.map (·.1), k ∉ fs.map (·.1)) :
    (contentsOf es).map (settled fs) = contentsOf es := by
  refine (Multiset.map_congr rfl fun w hw => ?_).trans (Multiset.map_id _)
  obtain ⟨k, hk, way, hway⟩ := exists_of_mem_contentsOf hw
  rw [settled, hway, settle_of_new (h k hk), ← hway]
  rfl

theorem map_settled_below (h : find k fs = some (.nested inner)) (ws : Multiset (List String × Value)) :
    (ws.map (below k)).map (settled fs) = (ws.map (settled inner)).map (below k) := by
  rw [Multiset.map_map, Multiset.map_map]
  refine Multiset.map_congr rfl fun w _ => ?_
  simp only [Function.comp_apply, settled, below, settle_of_nested h]

theorem map_settled_below_of_not_nested (h : ∀ inner, find k fs ≠ some (.nested inner))
    (ws : Multiset (List String × Value)) :
    (ws.map (below k)).map (settled fs) = ws.map (below k) := by
  rw [Multiset.map_map]
  refine Multiset.map_congr rfl fun w _ => ?_
  simp only [Function.comp_apply, settled, below, settle_of_not_nested h]

/-! ## Merging -/

theorem new_of_find_eq_none (h : find k es = none) : k ∉ es.map (·.1) := by
  induction es with
  | nil => simp
  | cons e es ih =>
    obtain ⟨l, f⟩ := e
    by_cases hl : l = k
    · rw [hl, find_cons_self] at h
      cases h
    · rw [find_cons_ne hl] at h
      simpa [Ne.symm hl] using ih h

theorem exists_split (hn : (es.map (·.1)).Nodup) {f : Finding} (h : find k es = some f) :
    ∃ before after, es = before ++ (k, f) :: after ∧ (∀ g, put k g es = before ++ (k, g) :: after) ∧
      k ∉ before.map (·.1) ∧ k ∉ after.map (·.1) := by
  have hsplit : ∃ before after, es = before ++ (k, f) :: after ∧ ∀ g, put k g es = before ++ (k, g) :: after := by
    clear hn
    induction es with
    | nil => rw [find] at h; cases h
    | cons e es ih =>
      obtain ⟨l, g⟩ := e
      by_cases hl : l = k
      · subst hl
        rw [find_cons_self] at h
        cases h
        exact ⟨[], es, rfl, fun g => if_pos rfl⟩
      · rw [find_cons_ne hl] at h
        obtain ⟨before, after, hes, hput⟩ := ih h
        refine ⟨(l, g) :: before, after, by rw [hes]; rfl, fun g' => ?_⟩
        rw [put, if_neg hl, hput]
        rfl
  obtain ⟨before, after, rfl, hput⟩ := hsplit
  rw [List.map_append, List.map_cons, List.nodup_middle, List.nodup_cons, List.mem_append, not_or] at hn
  exact ⟨before, after, rfl, hput, hn.1⟩

theorem find_put_ne (h : l ≠ k) (f : Finding) (es : List (String × Finding)) : find l (put k f es) = find l es := by
  induction es with
  | nil => rw [put, find_cons_ne (Ne.symm h)]
  | cons e es ih =>
    obtain ⟨j, g⟩ := e
    rw [put]
    split
    · next hj =>
      subst hj
      rw [find_cons_ne (Ne.symm h), find_cons_ne (Ne.symm h)]
    · by_cases hl : j = l
      · subst hl
        rw [find_cons_self, find_cons_self]
      · rw [find_cons_ne hl, find_cons_ne hl, ih]

theorem contentsOf_append (es fs : List (String × Finding)) : contentsOf (es ++ fs) = contentsOf es + contentsOf fs := by
  induction es using byEntries with
  | nil => rw [contentsOf_nil, zero_add]; rfl
  | messages k ms rest ih => rw [List.cons_append, contentsOf_messages, contentsOf_messages, ih, add_assoc]
  | nested k es rest _ ih => rw [List.cons_append, contentsOf_nested, contentsOf_nested, ih, add_assoc]

/-- attaches a nested report under a name: it joins a nested report and takes the messages that it meets -/
def attach (k : String) (es onto : List (String × Finding)) : List (String × Finding) :=
  match find k onto with
  | some (.nested inner) => put k (.nested (mergeEntries inner es)) onto
  | some (.messages ms) => put k (.nested (ms.foldl (fun es m => addTo "base" m es) es)) onto
  | none => put k (.nested es) onto

theorem mergeEntries_nested (h : es ≠ []) (onto rest : List (String × Finding)) :
    mergeEntries onto ((k, .nested es) :: rest) = mergeEntries (attach k es onto) rest := by
  have hne : es.isEmpty = false := by simpa using h
  rw [mergeEntries, hne]
  rfl

theorem find_attach_ne (h : l ≠ k) (es onto : List (String × Finding)) : find l (attach k es onto) = find l onto := by
  unfold attach
  split <;> exact find_put_ne h _ _

/-- the messages of two reports, each settled in the other -/
def Joins (onto es : List (String × Finding)) : Prop :=
  contentsOf (mergeEntries onto es) = (contentsOf onto).map (settled es) + (contentsOf es).map (settled onto)

/-- a nested report is attached without losing or doubling a message -/
theorem contentsOf_attach (hn : (onto.map (·.1)).Nodup)
    (ih : ∀ inner, find k onto = some (.nested inner) → Joins inner es) :
    contentsOf (attach k es onto) =
      (contentsOf onto).map (settled [(k, .nested es)]) + ((contentsOf es).map (below k)).map (settled onto) := by
  have hself : find k [(k, .nested es)] = some (.nested es) := find_cons_self _ _ _
  have hstay {part : List (String × Finding)} (hk : k ∉ part.map (·.1)) :
      (contentsOf part).map (settled [(k, .nested es)]) = contentsOf part := by
    refine map_settled_of_new fun l hl hmem => hk ?_
    rwa [← show l = k from List.mem_singleton.1 hmem]
  cases hfind : find k onto with
  | none =>
    have hnew := new_of_find_eq_none hfind
    rw [attach, hfind, put_of_new hnew, contentsOf_append, contentsOf_nested, contentsOf_nil, add_zero, hstay hnew,
      map_settled_below_of_not_nested (by simp [hfind])]
  | some f =>
    obtain ⟨before, after, rfl, hput, hbefore, hafter⟩ := exists_split hn hfind
    cases f with
    | messages ms =>
      have hmoved : ((ms : Multiset Value).map fun m => ([k], m)).map (settled [(k, .nested es)]) =
          ((ms : Multiset Value).map fun m => (settle es ["base"], m)).map (below k) := by
        rw [Multiset.map_map, Multiset.map_map]
        refine Multiset.map_congr rfl fun m _ => ?_
        simp only [Function.comp_apply, settled, below, settle_of_nested hself, settle_base]
      rw [attach, hfind]
      simp only [hput]
      rw [contentsOf_append, contentsOf_nested, contentsOf_append, contentsOf_messages, Multiset.map_add,
        Multiset.map_add,
        hstay hbefore, hstay hafter, map_settled_below_of_not_nested (by simp [hfind]), contentsOf_addAll, hmoved,
        Multiset.map_add]
      abel
    | nested inner =>
      rw [attach, hfind]
      simp only [hput]
      rw [contentsOf_append, contentsOf_nested, contentsOf_append, contentsOf_nested, Multiset.map_add, Multiset.map_add,
        hstay hbefore, hstay hafter, map_settled_below hfind, map_settled_below hself, ih inner hfind, Multiset.map_add]
      abel

theorem exists_settle_cons (es : List (String × Finding)) (k : String) (way : List String) :
    ∃ tail, settle es (k :: way) = k :: tail := by
  cases hfind : find k es with
  | none => exact ⟨way, settle_of_not_nested (by simp [hfind])⟩
  | some f =>
    cases f with
    | messages ms => exact ⟨way, settle_of_not_nested (by simp [hfind])⟩
    | nested inner => exact ⟨settle inner way, settle_of_nested hfind⟩

/-- what is merged first and what is merged next settle messages as both together do -/
theorem map_settled_cons {f : Finding} (hnew : k ∉ rest.map (·.1)) (onto : List (String × Finding)) :
    ((contentsOf onto).map (settled [(k, f)])).map (settled rest) = (contentsOf onto).map (settled ((k, f) :: rest)) := by
  rw [Multiset.map_map]
  refine Multiset.map_congr rfl fun w hw => ?_
  obtain ⟨l, -, way, hway⟩ := exists_of_mem_contentsOf hw
  simp only [Function.comp_apply, settled, hway]
  by_cases hl : k = l
  · subst hl
    obtain ⟨tail, htail⟩ := exists_settle_cons [(k, f)] k way
    have hsame : settle ((k, f) :: rest) (k :: way) = settle [(k, f)] (k :: way) :=
      settle_congr ((find_cons_self _ _ _).trans (find_cons_self _ _ _).symm) way
    rw [hsame, htail, settle_of_new hnew]
  · have hstay : settle [(k, f)] (l :: way) = l :: way := settle_of_new (by simpa using Ne.symm hl)
    rw [hstay, settle_congr (find_cons_ne hl f rest)]

/-! ## Nothing is empty -/

theorem mem_names_addTo (h : l ∈ (addTo k m es).map (·.1)) : l = k ∨ l ∈ es.map (·.1) := by
  have hkeys : (addTo k m es).map (·.1) = _ := keys_add ⟨es⟩ k m
  rw [hkeys] at h
  split at h
  · exact .inr h
  · exact (List.mem_append.1 h).elim .inr fun h => .inl (List.mem_singleton.1 h)

theorem addTo_ne_nil (k : String) (m : Value) (es : List (String × Finding)) : addTo k m es ≠ [] := by
  cases es with
  | nil => simp [addTo]
  | cons e es =>
    rw [addTo]
    split <;> simp

theorem Filled.addTo (h : Filled es) (hk : k ≠ "") (m : Value) : Filled (addTo k m es) := by
  induction h generalizing k with
  | nil =>
    rw [Report.addTo]
    exact .messages hk (by simp) (by simp) .nil
  | @messages l ms rest hl hnew hms hrest ih =>
    rw [Report.addTo]
    split
    · rw [addInside]
      exact .messages hl hnew (by simp) hrest
    · next hne => exact .messages hl (fun hmem => (mem_names_addTo hmem).elim hne hnew) hms (ih hk)
  | @nested l es rest hl hnew hes hinside hrest ihinside ih =>
    rw [Report.addTo]
    split
    · rw [addInside]
      exact .nested hl hnew (addTo_ne_nil _ _ _) (ihinside (by decide)) hrest
    · next hne => exact .nested hl (fun hmem => (mem_names_addTo hmem).elim hne hnew) hes hinside (ih hk)

theorem Filled.addAll (h : Filled es) (hk : k ≠ "") (ms : List Value) :
    Filled (ms.foldl (fun es m => Report.addTo k m es) es) := by
  induction ms generalizing es with
  | nil => exact h
  | cons m ms ih => exact ih (h.addTo hk m)

theorem addAll_ne_nil (h : es ≠ []) (k : String) (ms : List Value) : ms.foldl (fun es m => addTo k m es) es ≠ [] := by
  induction ms generalizing es with
  | nil => exact h
  | cons m ms ih => exact ih (addTo_ne_nil k m es)

theorem mem_names_put {f : Finding} (h : l ∈ (put k f es).map (·.1)) : l = k ∨ l ∈ es.map (·.1) := by
  induction es with
  | nil => exact .inl (by simpa [put] using h)
  | cons e es ih =>
    obtain ⟨j, g⟩ := e
    rw [put] at h
    split at h
    · exact .inr h
    · rcases List.mem_cons.1 h with h | h
      · exact .inr (List.mem_cons.2 (.inl h))
      · exact (ih h).imp_right (List.mem_cons_of_mem j)

theorem Filled.put (h : Filled es) (hk : k ≠ "") (hf : Filled fs) (hne : fs ≠ []) : Filled (put k (.nested fs) es) := by
  induction h with
  | nil =>
    rw [Report.put]
    exact .nested hk (by simp) hne hf .nil
  | @messages l ms rest hl hnew hms hrest ih =>
    rw [Report.put]
    split
    · exact .nested hl hnew hne hf hrest
    · next hkl => exact .messages hl (fun hmem => (mem_names_put hmem).elim hkl hnew) hms ih
  | @nested l es rest hl hnew hes hinside hrest _ ih =>
    rw [Report.put]
    split
    · exact .nested hl hnew hne hf hrest
    · next hkl => exact .nested hl (fun hmem => (mem_names_put hmem).elim hkl hnew) hes hinside ih

theorem Filled.of_find (h : Filled es) (hfind : find k es = some (.nested inner)) : Filled inner ∧ inner ≠ [] := by
  induction h with
  | nil => rw [find] at hfind; cases hfind
  | messages _ _ _ _ ih =>
    rw [find] at hfind
    split at hfind
    · cases hfind
    · exact ih hfind
  | nested _ _ hes hinside _ _ ih =>
    rw [find] at hfind
    split at hfind
    · cases hfind
      exact ⟨hinside, hes⟩
    · exact ih hfind

theorem Filled.nodup (h : Filled es) : (es.map (·.1)).Nodup := by
  induction h with
  | nil => exact List.nodup_nil
  | messages _ hnew _ _ ih => exact List.nodup_cons.2 ⟨hnew, ih⟩
  | nested _ hnew _ _ _ _ ih => exact List.nodup_cons.2 ⟨hnew, ih⟩

theorem put_ne_nil (k : String) (f : Finding) (es : List (String × Finding)) : put k f es ≠ [] := by
  cases es with
  | nil => simp [put]
  | cons e es =>
    rw [put]
    split <;> simp

theorem attach_ne_nil (k : String) (es onto : List (String × Finding)) : attach k es onto ≠ [] := by
  unfold attach
  split <;> exact put_ne_nil _ _ _

theorem mergeEntries_ne_nil (h : onto ≠ []) (es : List (String × Finding)) : mergeEntries onto es ≠ [] := by
  induction es using byEntries generalizing onto with
  | nil => rwa [mergeEntries]
  | messages k ms rest ih =>
    rw [mergeEntries]
    exact ih (addAll_ne_nil h k ms)
  | nested k es rest _ ih =>
    by_cases hes : es = []
    · subst hes
      rw [mergeEntries]
      exact ih h
    · rw [mergeEntries_nested hes]
      exact ih (attach_ne_nil k es onto)

theorem Filled.attach (h : Filled onto) (hk : k ≠ "") (hf : Filled es) (hne : es ≠ [])
    (ih : ∀ {inner}, Filled inner → Filled (mergeEntries inner es)) : Filled (attach k es onto) := by
  unfold Report.attach
  split
  · next inner hfind =>
    obtain ⟨hinner, hnonempty⟩ := h.of_find hfind
    exact h.put hk (ih hinner) (mergeEntries_ne_nil hnonempty es)
  · next ms hfind => exact h.put hk (hf.addAll (by decide) ms) (addAll_ne_nil hne "base" ms)
  · exact h.put hk hf hne

theorem Filled.mergeEntries (hf : Filled es) (h : Filled onto) : Filled (mergeEntries onto es) := by
  induction hf generalizing onto with
  | nil => rwa [Report.mergeEntries]
  | @messages k ms rest hk hnew hms hrest ih =>
    rw [Report.mergeEntries]
    exact ih (h.addAll hk ms)
  | @nested k es rest hk hnew hes hinside hrest ihinside ih =>
    rw [mergeEntries_nested hes]
    exact ih (h.attach hk hinside hes ihinside)

/-- messages that stand under a name are not moved by what is merged under others -/
theorem map_settled_below_of_new (hnew : k ∉ rest.map (·.1)) (onto : List (String × Finding))
    (ws : Multiset (List String × Value)) :
    ((ws.map (below k)).map (settled onto)).map (settled rest) = (ws.map (below k)).map (settled onto) := by
  refine (Multiset.map_congr rfl fun w hw => ?_).trans (Multiset.map_id _)
  obtain ⟨v, hv, rfl⟩ := Multiset.mem_map.1 hw
  obtain ⟨u, -, rfl⟩ := Multiset.mem_map.1 hv
  obtain ⟨tail, htail⟩ := exists_settle_cons onto k u.1
  simp only [settled, below, htail, settle_of_new hnew, id]

theorem map_settled_messages (hnew : k ∉ rest.map (·.1)) (ms : List Value) (onto : List (String × Finding)) :
    (contentsOf onto).map (settled ((k, .messages ms) :: rest)) = (contentsOf onto).map (settled rest) := by
  have hstay : (contentsOf onto).map (settled [(k, .messages ms)]) = contentsOf onto := by
    refine (Multiset.map_congr rfl fun w hw => ?_).trans (Multiset.map_id _)
    obtain ⟨l, -, way, hway⟩ := exists_of_mem_contentsOf hw
    have hkeep : settle [(k, .messages ms)] (l :: way) = l :: way := by
      refine settle_of_not_nested fun inner hfind => ?_
      rw [find] at hfind
      split at hfind <;> cases hfind
    rw [settled, hway, hkeep, ← hway]
    rfl
  rw [← map_settled_cons hnew, hstay]

/-- **Merging loses and doubles nothing**: the messages of each report are there, settled in the other. By induction on
what is merged; the messages of one entry are not moved by those after it -/
theorem contentsOf_mergeEntries (hf : Filled es) (h : Filled onto) : Joins onto es := by
  induction hf generalizing onto with
  | nil => rw [Joins, mergeEntries, contentsOf_nil, Multiset.map_zero, add_zero, map_settled_of_new (by simp)]
  | @messages k ms rest hk hnew hms hrest ih =>
    have hsame : settled (ms.foldl (fun es m => addTo k m es) onto) = settled onto :=
      funext fun w => congrArg (·, w.2) (settle_addAll k ms onto w.1)
    have hbelow : ((ms : Multiset Value).map fun m => (settle onto [k], m)) =
        (((ms : Multiset Value).map fun m => (([] : List String), m)).map (below k)).map (settled onto) := by
      rw [Multiset.map_map, Multiset.map_map]
      rfl
    have hheads : ((ms : Multiset Value).map fun m => ([k], m)) =
        ((ms : Multiset Value).map fun m => (([] : List String), m)).map (below k) := by
      rw [Multiset.map_map]
      rfl
    have hjoins := ih (h.addAll hk ms)
    rw [Joins] at hjoins
    rw [Joins, mergeEntries, hjoins, hsame, contentsOf_addAll, contentsOf_messages, Multiset.map_add, Multiset.map_add,
      map_settled_messages hnew, hbelow, map_settled_below_of_new hnew, hheads]
    abel
  | @nested k es rest hk hnew hes hinside hrest ihinside ih =>
    have hfilled := h.attach hk hinside hes fun hinner => hinside.mergeEntries hinner
    have hjoins := ih hfilled
    have hrestSame : (contentsOf rest).map (settled (attach k es onto)) = (contentsOf rest).map (settled onto) :=
      map_settled_congr fun l hl => find_attach_ne (fun he : l = k => hnew (he ▸ hl)) es onto
    rw [Joins] at hjoins
    rw [Joins, mergeEntries_nested hes, hjoins, hrestSame,
      contentsOf_attach h.nodup fun inner hfind => ihinside (h.of_find hfind).1, Multiset.map_add, map_settled_cons hnew,
      map_settled_below_of_new hnew, contentsOf_nested, Multiset.map_add]
    abel

/-! ## Reports as they are built -/

def contents (rep : Report) : Multiset (List String × Value) := contentsOf rep.entries

/-- a step by which a report is built; a report that is merged is built by steps of its own -/
inductive Step where
  | add (path : String) (m : Value)
  | merge (path : String) (steps : List Step)

mutual

def Step.apply (rep : Report) : Step → Report
  | .add path m => rep.add path m
  | .merge path steps => rep.merge path (after .empty steps)

def after (rep : Report) : List Step → Report
  | [] => rep
  | s :: ss => after (s.apply rep) ss

end

def built (steps : List Step) : Report := after .empty steps

mutual

def Step.Named : Step → Prop
  | .add path _ => path ≠ ""
  | .merge path steps => path ≠ "" ∧ AllNamed steps

/-- no name of any of the steps is empty -/
def AllNamed : List Step → Prop
  | [] => True
  | s :: ss => s.Named ∧ AllNamed ss

end

mutual

/-- the messages that a step files, each with the way for which it is meant -/
def Step.filed : Step → Multiset (List String × Value)
  | .add path m => {([path], m)}
  | .merge path steps => (allFiled steps).map (below path)

/-- the messages that several steps file -/
def allFiled : List Step → Multiset (List String × Value)
  | [] => 0
  | s :: ss => s.filed + allFiled ss

end

/-- the same message, with its way or one that goes on from there by `base` alone -/
def Moved (v w : List String × Value) : Prop := w.2 = v.2 ∧ ∃ n, w.1 = v.1 ++ List.replicate n "base"

theorem Moved.settled {v w : List String × Value} (h : Moved v w) (es : List (String × Finding)) :
    Moved v (settled es w) := by
  obtain ⟨hm, n, hn⟩ := h
  obtain ⟨j, hj⟩ := exists_settle_eq es w.1
  refine ⟨hm, n + j, ?_⟩
  rw [Report.settled, hj, hn, List.append_assoc, List.replicate_append_replicate]

theorem Moved.below {v w : List String × Value} (h : Moved v w) (k : String) : Moved (below k v) (below k w) := by
  obtain ⟨hm, n, hn⟩ := h
  exact ⟨hm, n, congrArg (List.cons k) hn⟩

theorem rel_settled {vs ws : Multiset (List String × Value)} (h : Multiset.Rel Moved vs ws)
    (es : List (String × Finding)) :
    Multiset.Rel Moved vs (ws.map (settled es)) :=
  Multiset.rel_map_right.2 (h.mono fun _ _ _ _ hvw => hvw.settled es)

theorem rel_below {vs ws : Multiset (List String × Value)} (h : Multiset.Rel Moved vs ws) (k : String) :
    Multiset.Rel Moved (vs.map (below k)) (ws.map (below k)) :=
  Multiset.rel_map.2 (h.mono fun _ _ _ _ hvw => hvw.below k)

/-- what a merged report brings: nothing if it is empty -/
def attached (path : String) (other : Report) : List (String × Finding) :=
  if other.isEmpty then [] else [(path, .nested other.entries)]

variable {rep other : Report} {path : String}

theorem merge_eq (rep other : Report) (path : String) :
    rep.merge path other = ⟨mergeEntries rep.entries (attached path other)⟩ := by
  unfold merge attached
  split
  · next h =>
    have hempty : other.entries.isEmpty = true := h
    rw [mergeEntries, mergeEntries, mergeEntries, if_pos hempty]
  · rfl

theorem filled_attached (h : Filled other.entries) (hpath : path ≠ "") : Filled (attached path other) := by
  unfold attached
  split
  · exact .nil
  · next hne => exact .nested hpath (by simp) (by simpa [isEmpty] using hne) h .nil

theorem contentsOf_attached (path : String) (other : Report) :
    contentsOf (attached path other) = other.contents.map (below path) := by
  unfold attached
  split
  · next h =>
    have hempty : other.entries = [] := by simpa [isEmpty] using h
    rw [contents, hempty, contentsOf_nil, Multiset.map_zero]
  · rw [contentsOf_nested, contentsOf_nil, add_zero, contents]

theorem contents_merge (h : Filled rep.entries) (ho : Filled other.entries) (hpath : path ≠ "") :
    (rep.merge path other).contents =
      rep.contents.map (settled (attached path other)) + (other.contents.map (below path)).map (settled rep.entries) := by
  rw [merge_eq, ← contentsOf_attached]
  exact contentsOf_mergeEntries (filled_attached ho hpath) h

theorem filled_empty : Filled Report.empty.entries := .nil

theorem rel_empty : Multiset.Rel Moved 0 Report.empty.contents := by
  rw [contents, empty, contentsOf_nil]
  exact .zero

mutual

theorem Step.apply_conserves : ∀ {s : Step}, s.Named → ∀ {rep : Report} {ws : Multiset (List String × Value)},
    Filled rep.entries → Multiset.Rel Moved ws rep.contents →
    Filled (s.apply rep).entries ∧ Multiset.Rel Moved (ws + s.filed) (s.apply rep).contents
  | .add path m, h, rep, ws, hf, hws => by
    rw [Step.Named] at h
    rw [Step.apply, Step.filed]
    refine ⟨hf.addTo h m, ?_⟩
    have hone : Moved ([path], m) (settle rep.entries [path], m) :=
      Moved.settled (v := ([path], m)) (w := ([path], m)) ⟨rfl, 0, by simp⟩ rep.entries
    rw [contents, add, contentsOf_addTo, add_comm, Multiset.singleton_add]
    exact .cons hone hws
  | .merge path steps, h, rep, ws, hf, hws => by
    rw [Step.Named] at h
    rw [Step.apply, Step.filed]
    obtain ⟨hother, hfiled⟩ := after_conserves h.2 filled_empty rel_empty
    rw [zero_add] at hfiled
    rw [contents_merge hf hother h.1, merge_eq]
    exact ⟨(filled_attached hother h.1).mergeEntries hf, (rel_settled hws _).add (rel_settled (rel_below hfiled path) _)⟩

/-- several steps keep the messages, and file their own -/
theorem after_conserves : ∀ {ss : List Step}, AllNamed ss → ∀ {rep : Report} {ws : Multiset (List String × Value)},
    Filled rep.entries → Multiset.Rel Moved ws rep.contents →
    Filled (after rep ss).entries ∧ Multiset.Rel Moved (ws + allFiled ss) (after rep ss).contents
  | [], _, rep, ws, hf, hws => by
    rw [after, allFiled, add_zero]
    exact ⟨hf, hws⟩
  | s :: ss, h, rep, ws, hf, hws => by
    rw [AllNamed] at h
    rw [after, allFiled, ← add_assoc]
    obtain ⟨hfilled, hmoved⟩ := Step.apply_conserves h.1 hf hws
    exact after_conserves h.2 hfilled hmoved

end

/-- a report of which nothing is lost or doubled, whatever is filed in it or merged into it next -/
structure Conserving (rep : Report) : Prop where
  /-- names stand once at each level, and no name, no list of messages and no nested report is empty -/
  filled : Filled rep.entries
  /-- a message that is added comes to the others, under `base` as often as nested reports stand in its way -/
  add : ∀ path m, (rep.add path m).contents = (settle rep.entries [path], m) ::ₘ rep.contents
  /-- a report that is merged brings its messages; those of both settle where they meet a nested report of the other -/
  merge : ∀ path steps, path ≠ "" → AllNamed steps → (rep.merge path (built steps)).contents =
    rep.contents.map (settled (attached path (built steps))) +
      ((built steps).contents.map (below path)).map (settled rep.entries)
  /-- the flattened form has these messages, each with its way as it is written -/
  flattened : (rep.flatten "" : Multiset (String × Value)) = rep.contents.map fun w => (pathOf w.1, w.2)
  /-- a report counts as true if its flattened form has something -/
  truthy : rep.isEmpty = false ↔ rep.flatten "" ≠ []

theorem Filled.flatten_eq (h : Filled rep.entries) : rep.flatten "" = (ways rep.entries).map fun w => (pathOf w.1, w.2) :=
  flattenFrom_eq h (List.forall_mem_nil (· ≠ ""))

theorem Filled.conserving (h : Filled rep.entries) : rep.Conserving where
  filled := h
  add path m := contentsOf_addTo path m rep.entries
  merge path steps hpath hsteps := contents_merge h (after_conserves hsteps filled_empty rel_empty).1 hpath
  flattened := by
    rw [h.flatten_eq]
    rfl
  truthy := by
    rw [h.flatten_eq, ne_eq, List.map_eq_nil_iff]
    constructor
    · intro hne
      exact ways_ne_nil h (by simpa [isEmpty] using hne)
    · intro hways
      refine isEmpty_eq_false fun hnil => hways ?_
      rw [hnil, ways]

/-- **A report loses no message and doubles none**, by whatever steps it is built: it holds the messages that they
file, each by the way for which it is meant, or by `base` from there on, and as many; and so it goes on -/
theorem conserves {steps : List Step} (h : AllNamed steps) :
    (built steps).Conserving ∧ Multiset.Rel Moved (allFiled steps) (built steps).contents ∧
      Multiset.card (built steps).contents = Multiset.card (allFiled steps) := by
  obtain ⟨hfilled, hmoved⟩ := after_conserves h filled_empty rel_empty
  rw [zero_add] at hmoved
  exact ⟨hfilled.conserving, hmoved, (Multiset.card_eq_card_of_rel hmoved).symm⟩

/-- a message that meets a nested report, and one that comes after it -/
def collision : List Step :=
  [.add "address" (.text "is unknown"), .merge "address" [.add "city" (.text "is required")],
    .add "address" (.text "is old")]

theorem collision_conserves : (built collision).flatten "" =
      [("address.city", .text "is required"), ("address.base", .text "is unknown"), ("address.base", .text "is old")] ∧
    (built collision).Conserving ∧ Multiset.Rel Moved (allFiled collision) (built collision).contents ∧
      Multiset.card (built collision).contents = 3 := by
  have hnamed : AllNamed collision := by simp [collision, AllNamed, Step.Named]
  have hcount : Multiset.card (allFiled collision) = 3 := by simp [collision, allFiled, Step.filed]
  obtain ⟨hconserving, hmoved, hcard⟩ := conserves hnamed
  refine ⟨?_, hconserving, hmoved, hcard.trans hcount⟩
  simp [built, collision, after, Step.apply, add, merge, empty, addTo, addInside, mergeEntries, find, put, flatten,
    flattenFrom, dotted]

end Report

end Intake
