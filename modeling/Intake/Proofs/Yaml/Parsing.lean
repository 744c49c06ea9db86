/-
Nodes from their tokens.

A run of tokens stands for a node in front of every further token that does not belong to it (`Parses`): a scalar by
itself, brackets around nothing, items between the tokens of a list or, at the level of a key, without them, and entries
between the tokens of a mapping (`ItemTokens.parses`, `EntryTokens.parses`). Fuel of four for each token is enough.
-/
import Intake.Yaml.Node
import Mathlib.Tactic

namespace Intake.Yaml

variable {bare : Bool} {ts ts' tail : List Token} {n k v : Node} {ns : List Node} {es : List (Node × Node)}
  {anchors : List (String × Option Node)} {handles : List (String × String)}

namespace Token

/-- opens a node that has neither an anchor nor a tag -/
def startsContent : Token → Bool
  | .scalar .. | .flowList | .flowMapping | .blockList | .blockMapping | .item => true
  | _ => false

/-- opens a node where a list without indentation may stand, or may not -/
def startsNode (bare : Bool) (t : Token) : Bool := t.startsContent && (bare || !t.isItem)

end Token

def NoItem (ts : List Token) : Prop := ∀ t ∈ ts.head?, t.isItem = false

/-- **These tokens stand for a node**, whatever comes after them; where the node may be a list without indentation, it
must not be a further item -/
structure Parses (bare : Bool) (ts : List Token) (n : Node) : Prop where
  starts : ∃ t rest, ts = t :: rest ∧ t.startsNode bare = true
  reads : ∀ (fuel : Nat) (tail : List Token) (anchors : List (String × Option Node)) (handles : List (String × String)),
    4 * ts.length + 3 ≤ fuel → (bare = true → NoItem tail) →
    node true bare fuel ⟨ts ++ tail, anchors, handles⟩ = .ok (n, ⟨tail, anchors, handles⟩)

/-! ## Steps -/

theorem node_eq {inBlock : Bool} {t : Token} (ht : t.startsContent = true) (fuel : Nat) :
    node inBlock bare (fuel + 1) ⟨t :: ts, anchors, handles⟩ =
      content inBlock bare none false fuel ⟨t :: ts, anchors, handles⟩ := by
  have pure_bind (x : Scan (Node × Builder)) : (x >>= fun p => (pure p : Scan _)) = x := by cases x <;> rfl
  cases t with
  | scalar | flowList | flowMapping | blockList | blockMapping | item =>
    change (content inBlock bare none false fuel ⟨_, anchors, handles⟩ >>= fun p => (pure p : Scan _)) = _
    exact pure_bind _
  | _ => cases ht

theorem optional_eq {t : Token} {ends : Token → Bool} (ht : ends t = false) (fuel : Nat) :
    optional true bare ends (fuel + 1) ⟨t :: ts, anchors, handles⟩ = node true bare fuel ⟨t :: ts, anchors, handles⟩ := by
  change (if ends t then pure emptyNode else node true bare fuel : Build Node) ⟨t :: ts, anchors, handles⟩ = _
  rw [ht]
  rfl

theorem Parses.optional (h : Parses bare ts n) {ends : Token → Bool} (he : ∀ t, t.startsNode bare = true → ends t = false)
    {fuel : Nat} (hf : 4 * ts.length + 4 ≤ fuel) (ht : bare = true → NoItem tail) :
    optional true bare ends fuel ⟨ts ++ tail, anchors, handles⟩ = .ok (n, ⟨tail, anchors, handles⟩) := by
  obtain ⟨t, rest, rfl, hs⟩ := h.starts
  obtain ⟨fuel, rfl⟩ := Nat.exists_eq_add_of_lt (Nat.lt_of_lt_of_le (Nat.succ_pos _) hf)
  have hread := h.reads (0 + fuel) tail anchors handles (by omega) ht
  rw [List.cons_append] at hread ⊢
  rw [optional_eq (he t hs), hread]

/-! ## Scalars and empty collections -/

/-- the tag that a scalar without a tag of its own gets -/
theorem parses_scalar (bare isPlain : Bool) (text : List Char) :
    Parses bare [.scalar text isPlain] (.scalar (scalarTag none isPlain text) text) := by
  refine ⟨⟨_, _, rfl, by simp [Token.startsNode, Token.startsContent, Token.isItem]⟩, ?_⟩
  intro fuel tail anchors handles hf _
  obtain ⟨fuel, rfl⟩ := Nat.exists_eq_add_of_le (show 2 ≤ fuel by omega)
  rw [Nat.add_comm 2 fuel, List.singleton_append, node_eq rfl]
  rfl

theorem parses_emptyList (bare : Bool) : Parses bare [.flowList, .flowListEnd] (.list .list []) := by
  refine ⟨⟨_, _, rfl, by simp [Token.startsNode, Token.startsContent, Token.isItem]⟩, ?_⟩
  intro fuel tail anchors handles hf _
  obtain ⟨fuel, rfl⟩ := Nat.exists_eq_add_of_le (show 3 ≤ fuel by omega)
  rw [Nat.add_comm 3 fuel, List.cons_append, node_eq rfl]
  rfl

theorem parses_emptyMapping (bare : Bool) : Parses bare [.flowMapping, .flowMappingEnd] (.mapping .hash []) := by
  refine ⟨⟨_, _, rfl, by simp [Token.startsNode, Token.startsContent, Token.isItem]⟩, ?_⟩
  intro fuel tail anchors handles hf _
  obtain ⟨fuel, rfl⟩ := Nat.exists_eq_add_of_le (show 3 ≤ fuel by omega)
  rw [Nat.add_comm 3 fuel, List.cons_append, node_eq rfl]
  rfl

/-! ## Items -/

/-- the tokens of items, one after another -/
inductive ItemTokens : List Token → List Node → Prop where
  | nil : ItemTokens [] []
  | cons {ts ts' : List Token} {n : Node} {ns : List Node} (h : Parses false ts n) (hs : ItemTokens ts' ns) :
    ItemTokens (.item :: ts ++ ts') (n :: ns)

theorem blockItems_cons {fuel : Nat} {n : Node} {b : Builder}
    (h : optional true false (fun t => t.isItem || t.isBlockEnd) fuel
      ⟨ts, anchors, handles⟩ = .ok (n, b)) {b' : Builder} (hs : blockItems fuel b = .ok (ns, b')) :
    blockItems (fuel + 1) ⟨.item :: ts, anchors, handles⟩ = .ok (n :: ns, b') := by
  change (optional true false (fun t => t.isItem || t.isBlockEnd) fuel ⟨ts, anchors, handles⟩ >>= fun p =>
    blockItems fuel p.2 >>= fun q => (pure (p.1 :: q.1, q.2) : Scan _)) = _
  rw [h]
  change (blockItems fuel b >>= fun q => (pure (n :: q.1, q.2) : Scan _)) = _
  rw [hs]
  rfl

theorem bareItems_cons {fuel : Nat} {n : Node} {b : Builder} (h : optional true false Token.endsBareItem fuel
      ⟨ts, anchors, handles⟩ = .ok (n, b)) {b' : Builder} (hs : bareItems fuel b = .ok (ns, b')) :
    bareItems (fuel + 1) ⟨.item :: ts, anchors, handles⟩ = .ok (n :: ns, b') := by
  change (optional true false Token.endsBareItem fuel ⟨ts, anchors, handles⟩ >>= fun p =>
    bareItems fuel p.2 >>= fun q => (pure (p.1 :: q.1, q.2) : Scan _)) = _
  rw [h]
  change (bareItems fuel b >>= fun q => (pure (n :: q.1, q.2) : Scan _)) = _
  rw [hs]
  rfl

/-- no item begins a node, where no list without indentation may stand -/
theorem ends_of_startsNode {t : Token} (h : t.startsNode false = true) :
    (t.isItem || t.isBlockEnd) = false ∧ t.endsBareItem = false := by
  cases t <;> first | exact ⟨rfl, rfl⟩ | cases h

theorem ItemTokens.blockItems (h : ItemTokens ts ns) {fuel : Nat} (hf : 4 * ts.length + 1 ≤ fuel) (tail : List Token) :
    blockItems fuel ⟨ts ++ .blockEnd :: tail, anchors, handles⟩ = .ok (ns, ⟨tail, anchors, handles⟩) := by
  induction h generalizing fuel with
  | nil =>
    obtain ⟨fuel, rfl⟩ := Nat.exists_eq_add_of_le hf
    rw [Nat.add_comm]
    rfl
  | @cons ts ts' n ns h hs ih =>
    simp only [List.length_cons, List.length_append] at hf
    obtain ⟨fuel, rfl⟩ := Nat.exists_eq_add_of_le (show 1 ≤ fuel by omega)
    rw [Nat.add_comm 1 fuel, List.append_assoc, List.cons_append]
    exact blockItems_cons (h.optional (fun t ht => (ends_of_startsNode ht).1) (by omega) nofun) (ih (by omega))

theorem ItemTokens.bareItems (h : ItemTokens ts ns) {fuel : Nat} (hf : 4 * ts.length + 1 ≤ fuel) (ht : NoItem tail) :
    bareItems fuel ⟨ts ++ tail, anchors, handles⟩ = .ok (ns, ⟨tail, anchors, handles⟩) := by
  induction h generalizing fuel with
  | nil =>
    obtain ⟨fuel, rfl⟩ := Nat.exists_eq_add_of_le hf
    rw [Nat.add_comm, List.nil_append]
    cases tail with
    | nil => rfl
    | cons t tail =>
      change (if t.isItem then _ else pure [] : Build (List Node)) ⟨t :: tail, anchors, handles⟩ = _
      rw [ht t rfl]
      rfl
  | @cons ts ts' n ns h hs ih =>
    simp only [List.length_cons, List.length_append] at hf
    obtain ⟨fuel, rfl⟩ := Nat.exists_eq_add_of_le (show 1 ≤ fuel by omega)
    rw [Nat.add_comm 1 fuel, List.append_assoc, List.cons_append]
    exact bareItems_cons (h.optional (fun t ht => (ends_of_startsNode ht).2) (by omega) nofun) (ih (by omega))

/-- **Items between their tokens are a list.** -/
theorem ItemTokens.parses (h : ItemTokens ts ns) (bare : Bool) :
    Parses bare (.blockList :: ts ++ [.blockEnd]) (.list .list ns) := by
  refine ⟨⟨_, _, rfl, by simp [Token.startsNode, Token.startsContent, Token.isItem]⟩, ?_⟩
  intro fuel tail anchors handles hf _
  simp only [List.length_append, List.length_cons, List.length_nil] at hf
  obtain ⟨fuel, rfl⟩ := Nat.exists_eq_add_of_le (show 2 ≤ fuel by omega)
  rw [Nat.add_comm 2 fuel, List.cons_append, List.cons_append, List.append_assoc, node_eq rfl]
  change (Yaml.blockItems fuel ⟨ts ++ ([.blockEnd] ++ tail), anchors, handles⟩ >>= fun p =>
    (pure (Node.list .list p.1, p.2) : Scan _)) = _
  rw [List.singleton_append, h.blockItems (by omega)]
  rfl

theorem ItemTokens.parses_bare (h : ItemTokens ts ns) (hne : ns ≠ []) : Parses true ts (.list .list ns) := by
  have hstart : ∃ rest, ts = .item :: rest := by
    cases h with
    | nil => exact absurd rfl hne
    | cons h hs => exact ⟨_, rfl⟩
  obtain ⟨rest, rfl⟩ := hstart
  refine ⟨⟨_, _, rfl, rfl⟩, ?_⟩
  intro fuel tail anchors handles hf ht
  obtain ⟨fuel, rfl⟩ := Nat.exists_eq_add_of_le (show 2 ≤ fuel by omega)
  have hitems : Yaml.bareItems fuel ⟨.item :: (rest ++ tail), anchors, handles⟩ = .ok (ns, ⟨tail, anchors, handles⟩) :=
    h.bareItems (by omega) (ht rfl)
  rw [Nat.add_comm 2 fuel, List.cons_append, node_eq rfl]
  change (Yaml.bareItems fuel ⟨.item :: (rest ++ tail), anchors, handles⟩ >>= fun p =>
    (pure (Node.list .list p.1, p.2) : Scan _)) = _
  rw [hitems]
  rfl

/-! ## Entries -/

/-- the tokens of entries, one after another -/
inductive EntryTokens : List Token → List (Node × Node) → Prop where
  | nil : EntryTokens [] []
  | cons {ts ts' ts'' : List Token} {k v : Node} {es : List (Node × Node)} (hk : Parses true ts k)
    (hv : Parses true ts' v)
    (hs : EntryTokens ts'' es) : EntryTokens (.key :: ts ++ .value :: ts' ++ ts'') ((k, v) :: es)

theorem blockEntries_cons {fuel : Nat} {b b' b'' : Builder} (hk : optional true true Token.endsBlockPart fuel
      ⟨ts, anchors, handles⟩ = .ok (k, b)) (hv : valueOf true true Token.endsBlockPart fuel b = .ok (v, b'))
    (hs : blockEntries fuel b' = .ok (es, b'')) :
    blockEntries (fuel + 1) ⟨.key :: ts, anchors, handles⟩ = .ok ((k, v) :: es, b'') := by
  change (optional true true Token.endsBlockPart fuel ⟨ts, anchors, handles⟩ >>= fun p =>
    valueOf true true Token.endsBlockPart fuel p.2 >>= fun q =>
      blockEntries fuel q.2 >>= fun r => (pure ((p.1, q.1) :: r.1, r.2) : Scan _)) = _
  rw [hk]
  change (valueOf true true Token.endsBlockPart fuel b >>= fun q =>
    blockEntries fuel q.2 >>= fun r => (pure ((k, q.1) :: r.1, r.2) : Scan _)) = _
  rw [hv]
  change (blockEntries fuel b' >>= fun r => (pure ((k, v) :: r.1, r.2) : Scan _)) = _
  rw [hs]
  rfl

theorem endsBlockPart_of_startsNode {t : Token} (h : t.startsNode true = true) : t.endsBlockPart = false := by
  cases t <;> first | rfl | cases h

theorem EntryTokens.noItem (h : EntryTokens ts es) (tail : List Token) : NoItem (ts ++ .blockEnd :: tail) := by
  cases h with
  | nil =>
    rintro t ⟨⟩
    rfl
  | cons hk hv hs =>
    rintro t ⟨⟩
    rfl

theorem EntryTokens.blockEntries (h : EntryTokens ts es) {fuel : Nat} (hf : 4 * ts.length + 1 ≤ fuel)
    (tail : List Token) :
    blockEntries fuel ⟨ts ++ .blockEnd :: tail, anchors, handles⟩ = .ok (es, ⟨tail, anchors, handles⟩) := by
  induction h generalizing fuel with
  | nil =>
    obtain ⟨fuel, rfl⟩ := Nat.exists_eq_add_of_le hf
    rw [Nat.add_comm]
    rfl
  | @cons ts ts' ts'' k v es hk hv hs ih =>
    simp only [List.length_cons, List.length_append] at hf
    obtain ⟨fuel, rfl⟩ := Nat.exists_eq_add_of_le (show 1 ≤ fuel by omega)
    rw [Nat.add_comm 1 fuel]
    simp only [List.cons_append, List.append_assoc]
    refine blockEntries_cons (hk.optional (fun t => endsBlockPart_of_startsNode) (by omega) fun _ => ?_) ?_
      (ih (by omega))
    · rintro t ⟨⟩
      rfl
    · obtain ⟨fuel, rfl⟩ := Nat.exists_eq_add_of_le (show 1 ≤ fuel by omega)
      rw [Nat.add_comm 1 fuel]
      exact hv.optional (fun t => endsBlockPart_of_startsNode) (by omega) fun _ => hs.noItem tail

/-- **Entries between their tokens are a mapping.** -/
theorem EntryTokens.parses (h : EntryTokens ts es) (bare : Bool) :
    Parses bare (.blockMapping :: ts ++ [.blockEnd]) (.mapping .hash es) := by
  refine ⟨⟨_, _, rfl, by simp [Token.startsNode, Token.startsContent, Token.isItem]⟩, ?_⟩
  intro fuel tail anchors handles hf _
  simp only [List.length_append, List.length_cons, List.length_nil] at hf
  obtain ⟨fuel, rfl⟩ := Nat.exists_eq_add_of_le (show 2 ≤ fuel by omega)
  rw [Nat.add_comm 2 fuel, List.cons_append, List.cons_append, List.append_assoc, node_eq rfl]
  change (Yaml.blockEntries fuel ⟨ts ++ ([.blockEnd] ++ tail), anchors, handles⟩ >>= fun p =>
    (pure (Node.mapping .hash p.1, p.2) : Scan _)) = _
  rw [List.singleton_append, h.blockEntries (by omega)]
  rfl

/-! ## Documents -/

/-- **The tokens of a node alone are the tokens of a document.** -/
theorem Parses.ofTokens (h : Parses false ts n) : Node.ofTokens ts = .ok (some n) := by
  have hread := h.reads (4 * ts.length + 8) [] [] usualHandles (by omega) nofun
  obtain ⟨t, rest, rfl, hs⟩ := h.starts
  have hstart : (t.isDirective || t.isDocumentStart) = false := by
    cases t <;> first | rfl | cases hs
  rw [List.append_nil] at hread
  have hdocument :
      (document (4 * (t :: rest).length + 8)).run ⟨t :: rest, [], usualHandles⟩ = .ok (n, ⟨[], [], usualHandles⟩) := by
    change (node true false (4 * (t :: rest).length + 8) ⟨t :: rest, [], usualHandles⟩ >>= fun p =>
      ((StateT.lift (endOfText p.2.rest) : Build Unit) p.2 >>= fun q => (pure (p.1, q.2) : Scan _))) = _
    rw [hread]
    rfl
  unfold Node.ofTokens
  dsimp only
  rw [hstart]
  simp only [Bool.false_eq_true, if_false, hdocument]
  rfl

end Intake.Yaml
