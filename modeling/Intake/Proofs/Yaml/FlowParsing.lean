/-
Nodes between brackets, from their tokens.

Between brackets a run of tokens stands for a node wherever a node may stand (`FlowParses`): a scalar by itself, items
with commas between them in the brackets of a list, and entries, each a key and a value after their marks, in those of
a mapping (`FlowItems.parses`, `FlowEntries.parses`). What stands for a node so stands for a document
(`FlowParses.parses`).

Fuel of four for each token is enough, as it is for blocks.
-/
import Intake.Proofs.Yaml.Parsing

namespace Intake.Yaml

variable {isFirst : Bool} {ts ts' tail : List Token} {n k v : Node} {ns : List Node} {es : List (Node × Node)}
  {anchors : List (String × Option Node)} {handles : List (String × String)}

def Token.startsFlow : Token → Bool
  | .scalar .. | .flowList | .flowMapping => true
  | _ => false

/-- **These tokens stand for a node wherever a node may stand**, whatever comes after them. -/
structure FlowParses (ts : List Token) (n : Node) : Prop where
  starts : ∃ t rest, ts = t :: rest ∧ t.startsFlow = true
  reads : ∀ (inBlock bare : Bool) (fuel : Nat) (tail : List Token) (anchors : List (String × Option Node))
    (handles : List (String × String)), 4 * ts.length + 3 ≤ fuel →
    node inBlock bare fuel ⟨ts ++ tail, anchors, handles⟩ = .ok (n, ⟨tail, anchors, handles⟩)

theorem FlowParses.parses (h : FlowParses ts n) : Parses false ts n where
  starts := by
    obtain ⟨t, rest, rfl, ht⟩ := h.starts
    refine ⟨t, rest, rfl, ?_⟩
    cases t <;> first | rfl | cases ht
  reads := fun fuel tail anchors handles hf _ => h.reads true false fuel tail anchors handles hf

theorem flowParses_scalar (isPlain : Bool) (text : List Char) :
    FlowParses [.scalar text isPlain] (.scalar (scalarTag none isPlain text) text) := by
  refine ⟨⟨_, _, rfl, rfl⟩, ?_⟩
  intro inBlock bare fuel tail anchors handles hf
  obtain ⟨fuel, rfl⟩ := Nat.exists_eq_add_of_le (show 2 ≤ fuel by omega)
  rw [Nat.add_comm 2 fuel, List.singleton_append, node_eq rfl]
  rfl

theorem FlowParses.optional (h : FlowParses ts n) {ends : Token → Bool} (he : ∀ t, t.startsFlow = true → ends t = false)
    {fuel : Nat} (hf : 4 * ts.length + 4 ≤ fuel) (tail : List Token) :
    optional false false ends fuel ⟨ts ++ tail, anchors, handles⟩ = .ok (n, ⟨tail, anchors, handles⟩) := by
  obtain ⟨t, rest, rfl, hs⟩ := h.starts
  obtain ⟨fuel, rfl⟩ := Nat.exists_eq_add_of_le (show 1 ≤ fuel by omega)
  rw [Nat.add_comm 1 fuel]
  change (if ends t then pure emptyNode else node false false fuel : Build Node) ⟨t :: rest ++ tail, anchors, handles⟩ = _
  rw [he t hs]
  exact h.reads false false fuel tail anchors handles (by omega)

/-! ## Items -/

/-- what stands before an item or an entry, if it is the first and if it is not -/
def separator (isFirst : Bool) : List Token := if isFirst then [] else [.comma]

/-- the tokens of items, with commas between them -/
inductive FlowItems : Bool → List Token → List Node → Prop where
  | nil (isFirst : Bool) : FlowItems isFirst [] []
  | cons (isFirst : Bool) {ts ts' : List Token} {n : Node} {ns : List Node} (h : FlowParses ts n)
    (hs : FlowItems false ts' ns) :
    FlowItems isFirst (separator isFirst ++ ts ++ ts') (n :: ns)

theorem flowItems_cons {fuel : Nat} {t : Token} (ht : t.startsFlow = true) {b b' : Builder}
    (hn : node false false fuel ⟨t :: ts, anchors, handles⟩ = .ok (n, b)) (hs : flowItems false fuel b = .ok (ns, b')) :
    flowItems isFirst (fuel + 1) ⟨separator isFirst ++ t :: ts, anchors, handles⟩ = .ok (n :: ns, b') := by
  have hstep : flowItems isFirst (fuel + 1) ⟨separator isFirst ++ t :: ts, anchors, handles⟩ =
      (node false false fuel ⟨t :: ts, anchors, handles⟩ >>= fun p =>
        flowItems false fuel p.2 >>= fun q => (pure (p.1 :: q.1, q.2) : Scan _)) := by
    cases t with
    | scalar | flowList | flowMapping => cases isFirst <;> rfl
    | _ => cases ht
  rw [hstep, hn]
  change (flowItems false fuel b >>= fun q => (pure (n :: q.1, q.2) : Scan _)) = _
  rw [hs]
  rfl

theorem FlowItems.flowItems (h : FlowItems isFirst ts ns) {fuel : Nat} (hf : 4 * ts.length + 4 ≤ fuel)
    (tail : List Token) :
    flowItems isFirst fuel ⟨ts ++ .flowListEnd :: tail, anchors, handles⟩ = .ok (ns, ⟨tail, anchors, handles⟩) := by
  induction h generalizing fuel with
  | nil =>
    obtain ⟨fuel, rfl⟩ := Nat.exists_eq_add_of_le (show 1 ≤ fuel by omega)
    rw [Nat.add_comm]
    rfl
  | @cons isFirst ts ts' n ns h hs ih =>
    simp only [List.length_append] at hf
    obtain ⟨fuel, rfl⟩ := Nat.exists_eq_add_of_le (show 1 ≤ fuel by omega)
    obtain ⟨t, rest, rfl, ht⟩ := h.starts
    have hlength : (t :: rest).length = rest.length + 1 := rfl
    rw [Nat.add_comm 1 fuel, List.append_assoc, List.append_assoc]
    exact flowItems_cons ht (h.reads false false fuel _ anchors handles (by omega)) (ih (by omega))

/-- **Items between brackets are a list.** -/
theorem FlowItems.parses (h : FlowItems true ts ns) : FlowParses (.flowList :: ts ++ [.flowListEnd])
    (.list .list ns) := by
  refine ⟨⟨_, _, rfl, rfl⟩, ?_⟩
  intro inBlock bare fuel tail anchors handles hf
  simp only [List.length_append, List.length_cons, List.length_nil] at hf
  obtain ⟨fuel, rfl⟩ := Nat.exists_eq_add_of_le (show 2 ≤ fuel by omega)
  rw [Nat.add_comm 2 fuel, List.cons_append, List.cons_append, List.append_assoc, node_eq rfl]
  change (Yaml.flowItems true fuel ⟨ts ++ ([.flowListEnd] ++ tail), anchors, handles⟩ >>= fun p =>
    (pure (Node.list .list p.1, p.2) : Scan _)) = _
  rw [List.singleton_append, h.flowItems (by omega)]
  rfl

/-! ## Entries -/

/-- the tokens of entries, with commas between them -/
inductive FlowEntries : Bool → List Token → List (Node × Node) → Prop where
  | nil (isFirst : Bool) : FlowEntries isFirst [] []
  | cons (isFirst : Bool) {ts ts' ts'' : List Token} {k v : Node} {es : List (Node × Node)} (hk : FlowParses ts k)
    (hv : FlowParses ts' v) (hs : FlowEntries false ts'' es) :
    FlowEntries isFirst (separator isFirst ++ (.key :: ts ++ .value :: ts') ++ ts'') ((k, v) :: es)

theorem markedEntry_eq (hk : FlowParses ts k) (hv : FlowParses ts' v) {fuel : Nat}
    (hf : 4 * (ts.length + ts'.length) + 6 ≤ fuel)
    (tail : List Token) : markedEntry Token.isMappingEnd fuel ⟨.key :: ts ++ .value :: ts' ++ tail, anchors, handles⟩ =
      .ok ((k, v), ⟨tail, anchors, handles⟩) := by
  have hends (t : Token) (ht : t.startsFlow = true) : (t.isValue || t.endsFlowPart Token.isMappingEnd) = false ∧
      t.endsFlowPart Token.isMappingEnd = false := by
    cases t <;> first | exact ⟨rfl, rfl⟩ | cases ht
  obtain ⟨fuel, rfl⟩ := Nat.exists_eq_add_of_le (show 2 ≤ fuel by omega)
  have hkey : optional false false (fun t => t.isValue || t.endsFlowPart Token.isMappingEnd) (fuel + 1)
      ⟨ts ++ (.value :: ts' ++ tail), anchors, handles⟩ = .ok (k, ⟨.value :: ts' ++ tail, anchors, handles⟩) :=
    hk.optional (fun t ht => (hends t ht).1) (by omega) _
  have hvalue : optional false false (fun t => t.endsFlowPart Token.isMappingEnd) fuel ⟨ts' ++ tail, anchors, handles⟩ =
      .ok (v, ⟨tail, anchors, handles⟩) := hv.optional (fun t ht => (hends t ht).2) (by omega) tail
  rw [Nat.add_comm 2 fuel, List.append_assoc]
  change (optional false false (fun t => t.isValue || t.endsFlowPart Token.isMappingEnd) (fuel + 1)
      ⟨ts ++ (.value :: ts' ++ tail), anchors, handles⟩ >>= fun p =>
    valueOf false false (fun t => t.endsFlowPart Token.isMappingEnd) (fuel + 1) p.2 >>= fun q =>
      (pure ((p.1, q.1), q.2) : Scan _)) = _
  rw [hkey]
  change (optional false false (fun t => t.endsFlowPart Token.isMappingEnd) fuel ⟨ts' ++ tail, anchors,
      handles⟩ >>= fun q =>
    (pure ((k, q.1), q.2) : Scan _)) = _
  rw [hvalue]
  rfl

theorem flowEntries_cons {fuel : Nat} {b b' : Builder}
    (he : markedEntry Token.isMappingEnd fuel ⟨.key :: ts, anchors, handles⟩ = .ok ((k, v), b))
    (hs : flowEntries false fuel b = .ok (es, b')) :
    flowEntries isFirst (fuel + 1) ⟨separator isFirst ++ .key :: ts, anchors, handles⟩ = .ok ((k, v) :: es, b') := by
  have hstep : flowEntries isFirst (fuel + 1) ⟨separator isFirst ++ .key :: ts, anchors, handles⟩ =
      (markedEntry Token.isMappingEnd fuel ⟨.key :: ts, anchors, handles⟩ >>= fun p =>
        flowEntries false fuel p.2 >>= fun q => (pure (p.1 :: q.1, q.2) : Scan _)) := by
    cases isFirst <;> rfl
  rw [hstep, he]
  change (flowEntries false fuel b >>= fun q => (pure ((k, v) :: q.1, q.2) : Scan _)) = _
  rw [hs]
  rfl

theorem FlowEntries.flowEntries (h : FlowEntries isFirst ts es) {fuel : Nat} (hf : 4 * ts.length + 4 ≤ fuel)
    (tail : List Token) :
    flowEntries isFirst fuel ⟨ts ++ .flowMappingEnd :: tail, anchors, handles⟩ = .ok (es, ⟨tail, anchors, handles⟩) := by
  induction h generalizing fuel with
  | nil =>
    obtain ⟨fuel, rfl⟩ := Nat.exists_eq_add_of_le (show 1 ≤ fuel by omega)
    rw [Nat.add_comm]
    rfl
  | @cons isFirst ts ts' ts'' k v es hk hv hs ih =>
    simp only [List.length_append, List.length_cons] at hf
    obtain ⟨fuel, rfl⟩ := Nat.exists_eq_add_of_le (show 1 ≤ fuel by omega)
    rw [Nat.add_comm 1 fuel, List.append_assoc, List.append_assoc]
    exact flowEntries_cons (markedEntry_eq hk hv (by omega) _) (ih (by omega))

/-- **Entries between braces are a mapping.** -/
theorem FlowEntries.parses (h : FlowEntries true ts es) :
    FlowParses (.flowMapping :: ts ++ [.flowMappingEnd]) (.mapping .hash es) := by
  refine ⟨⟨_, _, rfl, rfl⟩, ?_⟩
  intro inBlock bare fuel tail anchors handles hf
  simp only [List.length_append, List.length_cons, List.length_nil] at hf
  obtain ⟨fuel, rfl⟩ := Nat.exists_eq_add_of_le (show 2 ≤ fuel by omega)
  rw [Nat.add_comm 2 fuel, List.cons_append, List.cons_append, List.append_assoc, node_eq rfl]
  change (Yaml.flowEntries true fuel ⟨ts ++ ([.flowMappingEnd] ++ tail), anchors, handles⟩ >>= fun p =>
    (pure (Node.mapping .hash p.1, p.2) : Scan _)) = _
  rw [List.singleton_append, h.flowEntries (by omega)]
  rfl

end Intake.Yaml
