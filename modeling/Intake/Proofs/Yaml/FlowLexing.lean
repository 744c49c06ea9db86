/-
Steps of the lexer between brackets.

Between brackets blocks play no part: lines may end anywhere between two tokens, and what is open is told by a number.
From before one place of the text the lexer comes to before another and finds some tokens on the way (`Finds`), and
such steps go one after the other (`Finds.trans`). There is a step for each bracket and for the comma, for a scalar
between quotes or without, and for a key with its colon: where a key may begin, the place is remembered, and the token
of the key is put there when the colon comes (`Finds.key`).

The lexer stands before a place if nothing but blanks comes first, of those that separate tokens: spaces and ends of
lines, but no tabs.
-/
import Intake.Proofs.Yaml.Lexing

namespace Intake.Yaml

open Intake.Text

/-! ## Blanks between tokens -/

/-- a blank that separates tokens wherever lines may end -/
def isLoose (ch : Char) : Bool := ch == ' ' || ch == '\n' || ch == '\r'

def Loose (gap : List Char) : Prop := ∀ ch ∈ gap, isLoose ch = true

theorem isLoose_iff {ch : Char} : isLoose ch = true ↔ ch = ' ' ∨ ch = '\n' ∨ ch = '\r' := by
  simp only [isLoose, Bool.or_eq_true, beq_iff_eq, or_assoc]

theorem loose_nil : Loose [] := List.forall_mem_nil _

theorem Loose.spaces {gap : List Char} (h : Loose gap) : ∃ n gap', gap = List.replicate n ' ' ++ gap' ∧ Loose gap' ∧
    (gap' = [] ∨ (∃ g, gap' = '\n' :: g) ∨ ∃ g, gap' = '\r' :: g) := by
  induction gap with
  | nil => exact ⟨0, [], rfl, loose_nil, .inl rfl⟩
  | cons ch gap ih =>
    obtain ⟨hch, hgap⟩ := List.forall_mem_cons.1 h
    rcases isLoose_iff.1 hch with rfl | rfl | rfl
    · obtain ⟨n, gap', rfl, hgap', hline⟩ := ih hgap
      exact ⟨n + 1, gap', rfl, hgap', hline⟩
    · exact ⟨0, _, rfl, h, .inr (.inl ⟨gap, rfl⟩)⟩
    · exact ⟨0, _, rfl, h, .inr (.inr ⟨gap, rfl⟩)⟩

/-- a cursor with nothing before a place but blanks, of which there are at most a number -/
def Before (r : List Char) (n : Nat) (c : Cursor) : Prop := ∃ gap, c.rest = gap ++ r ∧ Loose gap ∧ gap.length ≤ n

variable {c : Cursor} {r : List Char} {n : Nat}

/-- the end of a line is passed over, with one blank or two -/
theorem lineBreak_loose {gap : List Char} (hc : c.rest = gap ++ r) (hg : Loose gap)
    (hline : (∃ g, gap = '\n' :: g) ∨ ∃ g, gap = '\r' :: g) (hr : Begins r) :
    ∃ c' gap', c.lineBreak = (['\n'], c') ∧ c'.rest = gap' ++ r ∧ Loose gap' ∧ gap'.length < gap.length := by
  rcases hline with ⟨g, rfl⟩ | ⟨g, rfl⟩
  · refine ⟨c.next, g, Cursor.lineBreak_newline hc, ?_, (List.forall_mem_cons.1 hg).2, Nat.lt_succ_self _⟩
    rw [Cursor.rest_next, hc]
    rfl
  · have hpeek : c.peek = '\r' := Cursor.peek_eq hc
    have hg' := (List.forall_mem_cons.1 hg).2
    cases hn : c.peekAt 1 == '\n' with
    | true =>
      -- a carriage return and a line feed are one end of a line
      have hnext : (g ++ r).getD 0 endChar = '\n' := by
        have := beq_iff_eq.1 hn
        unfold Cursor.peekAt at this
        rwa [hc, List.cons_append, List.getD_cons_succ] at this
      obtain ⟨g', rfl⟩ : ∃ g', g = '\n' :: g' := by
        cases g with
        | nil =>
          cases r with
          | nil => exact absurd hnext (by decide)
          | cons ch r =>
            obtain rfl : ch = '\n' := hnext
            exact absurd (hr '\n' rfl) (by decide)
        | cons ch g =>
          obtain rfl : ch = '\n' := hnext
          exact ⟨g, rfl⟩
      refine ⟨c.skip 2, g', ?_, ?_, (List.forall_mem_cons.1 hg').2, ?_⟩
      · unfold Cursor.lineBreak
        simp [hpeek, hn]
      · rw [Cursor.rest_skip, hc]
        rfl
      · simp only [List.length_cons]
        omega
    | false =>
      refine ⟨c.next, g, ?_, ?_, hg', Nat.lt_succ_self _⟩
      · unfold Cursor.lineBreak
        simp [hpeek, hn]
      · rw [Cursor.rest_next, hc]
        rfl

theorem lineBreak_begins (hc : c.rest = r) (hr : Begins r) : c.lineBreak = ([], c) :=
  Opens.lineBreak (by rw [hc]; exact hr.opens)

/-- **The lexer comes to the next place through spaces and ends of lines.** -/
theorem toNextFrom_loose {inFlow allowed : Bool} {gap : List Char} (hc : c.rest = gap ++ r) (hg : Loose gap)
    (hr : Begins r)
    (hn : gap.length < n) : (Lexer.toNextFrom inFlow n c allowed).1.rest = r ∧
      (allowed = true → (Lexer.toNextFrom inFlow n c allowed).2 = true) := by
  induction n generalizing c gap allowed with
  | zero => cases hn
  | succ n ih =>
    obtain ⟨k, gap', rfl, hg', hline⟩ := hg.spaces
    rw [List.append_assoc] at hc
    have hhead : (gap' ++ r).head? ≠ some ' ' ∧ (gap' ++ r).head? ≠ some '#' := by
      rcases hline with rfl | ⟨g, rfl⟩ | ⟨g, rfl⟩
      · exact ⟨hr.opens.head_ne_space, hr.noComment⟩
      · simp
      · simp
    have hspaces : c.skipSpaces = c.skip k := by rw [Cursor.skipSpaces, Cursor.span_spaces hc hhead.1]
    have hrest : (c.skip k).rest = gap' ++ r := by simpa using Cursor.rest_skip_append hc
    rw [Lexer.toNextFrom, hspaces, Lexer.skipComment_eq (by rw [hrest]; exact hhead.2)]
    rcases hline with rfl | hline
    · rw [lineBreak_begins hrest hr]
      exact ⟨hrest, id⟩
    · obtain ⟨d, gap'', hbreak, hd, hgap'', hlength⟩ := lineBreak_loose hrest hg' hline hr
      rw [hbreak]
      obtain ⟨hplace, hallowed⟩ : (Lexer.toNextFrom inFlow n d (allowed || !inFlow)).1.rest = r ∧
          ((allowed || !inFlow) = true → (Lexer.toNextFrom inFlow n d (allowed || !inFlow)).2 = true) :=
        ih hd hgap'' (by simp only [List.length_append] at hn; omega)
      exact ⟨hplace, fun h => hallowed (by rw [h, Bool.true_or])⟩

/-! ## Words between brackets -/

/-- a character of a scalar without quotes, of those that have no meaning of their own anywhere -/
def isFlowWord (ch : Char) : Bool := !isSpacing ch && !([':', ',', '?', '[', ']', '\x7b', '\x7d'].contains ch)

/-- what follows a node between brackets: a comma or a closing bracket -/
def EndsNode (r : List Char) : Prop := ∃ ch r', r = ch :: r' ∧ (ch = ',' ∨ ch = ']' ∨ ch = '\x7d')

theorem EndsNode.begins (h : EndsNode r) : Begins r := by
  obtain ⟨ch, r', rfl, rfl | rfl | rfl⟩ := h <;> exact begins_cons (by decide) r'

theorem endsPlain_of_isFlowWord {ch : Char} (h : isFlowWord ch = true) (next : Char) :
    endsPlain true ch next = false := by
  simp only [isFlowWord, Bool.and_eq_true, Bool.not_eq_true', List.contains_eq_mem, List.mem_cons,
    List.not_mem_nil, or_false,
    not_or, decide_eq_false_iff_not] at h
  obtain ⟨hspacing, hcolon, hmarks⟩ := h
  simp [endsPlain, hspacing, hcolon, hmarks]

theorem plainWord_append {w rest : List Char} (hw : ∀ ch ∈ w, isFlowWord ch = true) (hrest : plainWord true rest = []) :
    plainWord true (w ++ rest) = w := by
  induction w with
  | nil => exact hrest
  | cons ch w ih =>
    obtain ⟨hch, hw⟩ := List.forall_mem_cons.1 hw
    rw [List.cons_append, plainWord, endsPlain_of_isFlowWord hch, if_neg Bool.false_ne_true, ih hw]

/-- no word begins at a blank or after the end of a node -/
theorem plainWord_loose {gap : List Char} (hg : Loose gap) (hr : EndsNode r) : plainWord true (gap ++ r) = [] := by
  cases gap with
  | nil =>
    obtain ⟨ch, r', rfl, rfl | rfl | rfl⟩ := hr <;> exact if_pos (by simp [endsPlain])
  | cons ch gap =>
    rcases isLoose_iff.1 (hg ch List.mem_cons_self) with rfl | rfl | rfl <;> exact if_pos rfl

theorem before_plainBreaks {fuel : Nat} {breaks : List Char} (h : Before r n c) (hr : EndsNode r) :
    Before r n (plainBreaks fuel c breaks).2 := by
  induction fuel generalizing c breaks with
  | zero => exact h
  | succ fuel ih =>
    obtain ⟨gap, hc, hg, hn⟩ := h
    rw [plainBreaks]
    split
    · next hspace =>
      refine ih ?_
      cases gap with
      | nil =>
        obtain ⟨ch, r', rfl, hch⟩ := hr
        rw [Cursor.peek_eq hc] at hspace
        rcases hch with rfl | rfl | rfl <;> cases hspace
      | cons ch gap =>
        refine ⟨gap, ?_, (List.forall_mem_cons.1 hg).2, Nat.le_of_succ_le hn⟩
        rw [Cursor.rest_next, hc]
        rfl
    · next hspace =>
      obtain ⟨k, gap', rfl, hg', hline⟩ := hg.spaces
      obtain rfl : k = 0 := by
        cases k with
        | zero => rfl
        | succ k => exact absurd (by rw [Cursor.peek_eq hc]; rfl) hspace
      rw [List.replicate_zero, List.nil_append] at hc hn
      rcases hline with rfl | hline
      · rw [lineBreak_begins hc hr.begins]
        exact ⟨[], hc, loose_nil, Nat.zero_le n⟩
      · obtain ⟨d, gap'', hbreak, hd, hgap'', hlength⟩ := lineBreak_loose hc hg' hline hr.begins
        rw [hbreak]
        have hbefore : Before r n d := ⟨gap'', hd, hgap'', by omega⟩
        dsimp only
        split
        · exact hbefore
        · exact ih hbefore

theorem before_plainGap (h : Before r n c) (hr : EndsNode r) : Before r n (plainGap c).cursor := by
  obtain ⟨gap, hc, hg, hn⟩ := h
  obtain ⟨k, gap', rfl, hg', hline⟩ := hg.spaces
  rw [List.append_assoc] at hc
  rw [List.length_append] at hn
  have hhead : (gap' ++ r).head? ≠ some ' ' := by
    rcases hline with rfl | ⟨g, rfl⟩ | ⟨g, rfl⟩
    · exact hr.begins.opens.head_ne_space
    · simp
    · simp
  have hrest : (c.skip k).rest = gap' ++ r := by simpa using Cursor.rest_skip_append hc
  unfold plainGap
  rw [Cursor.span_spaces hc hhead]
  dsimp only
  rcases hline with rfl | hline
  · rw [lineBreak_begins hrest hr.begins]
    exact ⟨[], hrest, loose_nil, Nat.zero_le n⟩
  · obtain ⟨d, gap'', hbreak, hd, hgap'', hlength⟩ := lineBreak_loose hrest hg' hline hr.begins
    have hbefore : Before r n d := ⟨gap'', hd, hgap'', by omega⟩
    rw [hbreak]
    dsimp only
    split
    · exact hbefore
    · have hbreaks : Before r n (plainBreaks d.fuel d []).2 := before_plainBreaks hbefore hr
      generalize plainBreaks d.fuel d [] = b at hbreaks
      obtain ⟨_ | others, e⟩ := b <;> exact hbreaks

/-- **A word between brackets is read up to the blanks after it.** -/
theorem plainScalar_word {w gap : List Char} {indent : Int} (hc : c.rest = w ++ (gap ++ r))
    (hw : ∀ ch ∈ w, isFlowWord ch = true) (hg : Loose gap) (hr : EndsNode r) :
    (plainScalar true indent c).text = w ∧ Before r gap.length (plainScalar true indent c).cursor := by
  have hword : plainWord true c.rest = w := by rw [hc]; exact plainWord_append hw (plainWord_loose hg hr)
  have hrest : (c.skip w.length).rest = gap ++ r := Cursor.rest_skip_append hc
  have hbefore := before_plainGap ⟨gap, hrest, hg, Nat.le_refl _⟩ hr
  have hstop : plainWord true (plainGap (c.skip w.length)).cursor.rest = [] := by
    obtain ⟨gap', hgap', hg', -⟩ := hbefore
    rw [hgap']
    exact plainWord_loose hg' hr
  have hread (fuel : Nat) : plainFrom true (indent + 1) fuel w (plainGap (c.skip w.length)) =
      ⟨w, (plainGap (c.skip w.length)).cursor, (plainGap (c.skip w.length)).crosses⟩ := by
    cases fuel with
    | zero => rfl
    | succ fuel =>
      rw [plainFrom, hstop]
      dsimp only
      split <;> rfl
  unfold plainScalar
  rw [hword, hread]
  exact ⟨rfl, hbefore⟩

/-! ## Quotes -/

/-- what stands between double quotes and is read as a text, whatever follows the quotes -/
structure Quoted (w text : List Char) : Prop where
  reads : ∀ {c : Cursor} {r : List Char}, c.rest = w ++ '"' :: r → QuotedReads '"' c text (c.skip (w.length + 1))

theorem Quoted.quotedScalar {w text : List Char} (h : Quoted w text) (hc : c.rest = '"' :: (w ++ '"' :: r)) :
    quotedScalar c = .ok (text, c.skip (w.length + 2)) ∧ (c.skip (w.length + 2)).rest = r := by
  have hnext : c.next.rest = w ++ '"' :: r := by rw [Cursor.rest_next, hc]; rfl
  have hfuel : c.next.rest.length < c.fuel := by
    unfold Cursor.fuel
    rw [hnext, hc, List.length_cons]
    omega
  constructor
  · rw [Yaml.quotedScalar, Cursor.peek_eq hc, h.reads hnext _ [] hfuel, List.nil_append]
    rfl
  · have hskip : c.rest = ('"' :: (w ++ ['"'])) ++ r := by rw [hc]; simp
    have := Cursor.rest_skip_append hskip
    simpa using this

namespace Lexer

/-! ## From place to place -/

/-- a place in the text: how many brackets are open there, what comes, and whether a key may begin -/
structure Spot where
  flow : Nat
  rest : List Char
  keyed : Bool

/-- the lexer has found these tokens, and nothing but blanks comes before a place. Outside of all blocks no key is
required -/
structure Stands (s : Lexer) (p : Spot) (found : List Token) : Prop where
  tokens : s.found = found
  count : s.count = found.length
  flow : s.flow = p.flow
  indent : s.indent = -1
  outer : s.outer = []
  optional : ∀ k ∈ s.keys, k.2.required = false
  keyed : p.keyed = true → s.keyAllowed = true
  before : ∃ gap, s.cursor.rest = gap ++ p.rest ∧ Loose gap

/-- the lexer is at a place, with these tokens found -/
structure At (s : Lexer) (p : Spot) (found : List Token) : Prop extends Stands s p found where
  rest : s.cursor.rest = p.rest

/-- **From before a place the lexer comes to before another, and finds these tokens on the way.** -/
structure Finds (p : Spot) (ts : List Token) (q : Spot) : Prop where
  runs : ∀ {s : Lexer} {found out : List Token}, Stands s p found →
    (∀ s', Stands s' q (ts.reverse ++ found) → s'.Runs out) → s.Runs out

variable {s : Lexer} {p q : Spot} {found out ts : List Token} {t : Token} {f : Nat} {k : Bool}

theorem Finds.trans {p' : Spot} {ts' : List Token} (h : Finds p ts p') (h' : Finds p' ts' q) : Finds p (ts ++ ts') q := by
  refine ⟨fun hs hout => h.runs hs fun s' hs' => h'.runs hs' fun s'' hs'' => hout s'' ?_⟩
  rwa [List.reverse_append, List.append_assoc]

/-- a place where a key began on an earlier line, or too far back -/
def isStale (c : Cursor) (k : Nat × KeyPlace) : Bool := k.2.line != c.line || decide (keyReach < c.index - k.2.index)

theorem dropStaleKeys_of_optional (h : ∀ k ∈ s.keys, k.2.required = false) :
    s.dropStaleKeys = .ok { s with keys := s.keys.filter fun k => !isStale s.cursor k } := by
  have hany : (s.keys.any fun k => isStale s.cursor k && k.2.required) = false := by
    refine List.any_eq_false.2 fun k hk => ?_
    simp [h k hk]
  exact if_neg (ne_true_of_eq_false hany)

theorem cursor_toNext (h : s.cursor.peek.toNat ≠ 0xfeff) : s.toNext =
    { s with cursor := (toNextFrom (s.flow != 0) s.cursor.fuel s.cursor s.keyAllowed).1,
             keyAllowed := (toNextFrom (s.flow != 0) s.cursor.fuel s.cursor s.keyAllowed).2 } :=
  toNext_eq h rfl

theorem peek_loose {gap : List Char} (hc : c.rest = gap ++ r) (hg : Loose gap) (hr : Begins r) :
    c.peek.toNat ≠ 0xfeff := by
  cases gap with
  | cons ch gap =>
    rw [Cursor.peek_eq hc]
    rcases isLoose_iff.1 (hg ch List.mem_cons_self) with rfl | rfl | rfl <;> decide
  | nil =>
    cases r with
    | nil =>
      rw [Cursor.peek, hc]
      decide
    | cons ch r =>
      have := hr ch rfl
      simp only [opensToken, Bool.and_eq_true, bne_iff_ne] at this
      rw [Cursor.peek_eq hc]
      exact this.2

/-- **Before a place the lexer runs as it goes on from the place.** -/
theorem Stands.runs (h : Stands s p found) (hr : Begins p.rest) (ha : ∀ s', At s' p found → s'.Arrives out) :
    s.Runs out := by
  obtain ⟨gap, hrest, hgap⟩ := h.before
  have hfuel : gap.length < s.cursor.fuel := by
    unfold Cursor.fuel
    rw [hrest, List.length_append]
    omega
  obtain ⟨hplace, hallowed⟩ : (toNextFrom (s.flow != 0) s.cursor.fuel s.cursor s.keyAllowed).1.rest = p.rest ∧
      (s.keyAllowed = true → (toNextFrom (s.flow != 0) s.cursor.fuel s.cursor s.keyAllowed).2 = true) :=
    toNextFrom_loose hrest hgap hr hfuel
  have hnext := cursor_toNext (peek_loose hrest hgap hr)
  generalize toNextFrom (s.flow != 0) s.cursor.fuel s.cursor s.keyAllowed = d at *
  obtain ⟨d, allowed⟩ := d
  dsimp only at hplace hallowed hnext
  have hdrop := dropStaleKeys_of_optional (s := s.toNext) (by rw [hnext]; exact h.optional)
  rw [hnext] at hdrop
  refine .of_arrives (by rw [hnext]; exact hdrop) ?_ (ha _ ?_)
  · show d.rest.length ≤ s.cursor.rest.length
    rw [hplace, hrest, List.length_append]
    exact Nat.le_add_left _ _
  · exact ⟨⟨h.tokens, h.count, h.flow, h.indent, h.outer, fun k hk => h.optional k (List.mem_of_mem_filter hk),
      fun hk => hallowed (h.keyed hk), [], hplace, loose_nil⟩, hplace⟩

theorem unwind_eq_self (h : s.outer = []) (column : Int) : s.unwind column = s := by
  unfold unwind
  rw [h]
  split <;> rfl

theorem Finds.of_dispatch {ch : Char} (hp : p.rest = ch :: r) (hch : opensToken ch = true)
    (h : ∀ {s found}, At s p found → ∃ s', s.dispatch = .ok s' ∧ Stands s' q (ts.reverse ++ found) ∧
      s'.cursor.rest.length ≤ r.length) : Finds p ts q := by
  refine ⟨fun hs hout => hs.runs (by rw [hp]; exact begins_cons hch r) fun s' hs' => ?_⟩
  obtain ⟨s'', hdispatch, hstands, hlength⟩ := h hs'
  have hspacing : isSpacing ch = false := by
    simp only [opensToken, Bool.and_eq_true, Bool.not_eq_true'] at hch
    exact hch.1.1
  exact .of_dispatch (hs'.rest.trans hp) hspacing (unwind_eq_self hs'.outer _) hdispatch hlength (hout s'' hstands)

theorem closeKey_of_optional (h : ∀ k ∈ s.keys, k.2.required = false) : s.closeKey = .ok s.dropKey := by
  have hnone : (s.keyHere?.map (·.required)).getD false = false := by
    unfold keyHere?
    cases hk : s.keys.lookup s.flow with
    | none => rfl
    | some k =>
      obtain ⟨before, after, heq, -⟩ := List.lookup_eq_some_iff.1 hk
      exact h (s.flow, k) (by rw [heq]; simp)
  unfold closeKey
  rw [hnone]
  rfl

theorem Stands.finish (h : Stands s ⟨f, [], k⟩ found) : s.Runs found.reverse := by
  refine h.runs nofun fun s' hs' fuel _ => ?_
  have hpeek : (s'.cursor.peek == endChar) = true := by
    rw [Cursor.peek, hs'.rest]
    rfl
  unfold arrive
  rw [unwind_eq_self hs'.outer]
  dsimp only
  rw [hpeek, unwind_eq_self hs'.outer, closeKey_of_optional hs'.optional, if_pos rfl]
  exact congrArg List.reverse hs'.tokens

/-! ## Brackets and commas -/

def keyPlaceHere (s : Lexer) : KeyPlace := ⟨s.count, false, s.cursor.index, s.cursor.line, s.cursor.column⟩

theorem openKey_of_optional (h : ∀ k ∈ s.keys, k.2.required = false) (hi : s.indent = -1) :
    ∃ keys, s.openKey = .ok { s with keys := keys } ∧ (∀ k ∈ keys, k.2.required = false) ∧
      (s.keyAllowed = true → ∃ others, keys = (s.flow, s.keyPlaceHere) :: others) := by
  by_cases ha : s.keyAllowed = true
  · have hrequired : (s.flow == 0 && s.indent == (s.cursor.column : Int)) = false := by
      rw [hi]
      have : ((-1 : Int) == (s.cursor.column : Int)) = false := beq_eq_false_iff_ne.2 (by omega)
      rw [this, Bool.and_false]
    refine ⟨(s.flow, s.keyPlaceHere) :: s.keys.filter (·.1 != s.flow), ?_,
      List.forall_mem_cons.2 ⟨rfl, fun k hk => h k (List.mem_of_mem_filter hk)⟩, fun _ => ⟨_, rfl⟩⟩
    unfold openKey keyPlaceHere
    rw [if_pos ha, closeKey_of_optional h, ← hrequired]
    rfl
  · refine ⟨s.keys, ?_, h, fun h => absurd h ha⟩
    unfold openKey
    rw [if_neg ha]

theorem At.rest_next {ch : Char} (h : At s p found) (hp : p.rest = ch :: r) : s.cursor.next.rest = r := by
  rw [Cursor.rest_next, h.rest, hp]
  rfl

theorem Finds.open {bracket : Char} {gap : List Char}
    (ht : bracket = '[' ∧ t = .flowList ∨ bracket = '\x7b' ∧ t = .flowMapping) (hg : Loose gap) :
    Finds ⟨f, bracket :: (gap ++ r), k⟩ [t] ⟨f + 1, r, true⟩ := by
  have hopens : opensToken bracket = true := by rcases ht with ⟨rfl, -⟩ | ⟨rfl, -⟩ <;> decide
  refine .of_dispatch rfl hopens fun {s found} hs => ?_
  obtain ⟨keys, hkeys, hoptional, -⟩ := openKey_of_optional hs.optional hs.indent
  have hrest := hs.rest_next rfl
  have hopen : s.openFlow t = .ok { ({ s with keys := keys } : Lexer).pushAfter 1 t with
      flow := s.flow + 1, keyAllowed := true } := by
    unfold openFlow
    rw [hkeys]
    rfl
  refine ⟨_, (dispatch_bracket hs.rest ht).trans hopen, ?_, Nat.le_of_eq (congrArg List.length hrest)⟩
  exact ⟨congrArg _ hs.tokens, congrArg Nat.succ hs.count, congrArg Nat.succ hs.flow, hs.indent, hs.outer, hoptional,
    fun _ => rfl,
    gap, hrest, hg⟩

theorem Finds.close {bracket : Char} {gap : List Char}
    (ht : bracket = ']' ∧ t = .flowListEnd ∨ bracket = '\x7d' ∧ t = .flowMappingEnd) (hg : Loose gap) :
    Finds ⟨f + 1, bracket :: (gap ++ r), k⟩ [t] ⟨f, r, false⟩ := by
  have hopens : opensToken bracket = true := by rcases ht with ⟨rfl, -⟩ | ⟨rfl, -⟩ <;> decide
  refine .of_dispatch rfl hopens fun {s found} hs => ?_
  have hrest := hs.rest_next rfl
  have hflow : s.dropKey.flow ≠ 0 := by
    show s.flow ≠ 0
    rw [hs.flow]
    exact Nat.succ_ne_zero f
  have hclose : s.closeFlow t = .ok { s.dropKey.pushAfter 1 t with flow := s.flow - 1, keyAllowed := false } := by
    unfold closeFlow
    rw [closeKey_of_optional hs.optional]
    exact if_neg hflow
  refine ⟨_, (dispatch_closing hs.rest ht).trans hclose, ?_, Nat.le_of_eq (congrArg List.length hrest)⟩
  exact ⟨congrArg _ hs.tokens, congrArg Nat.succ hs.count, congrArg Nat.pred hs.flow, hs.indent, hs.outer,
    fun k hk => hs.optional k (List.mem_of_mem_filter hk), nofun, gap, hrest, hg⟩

theorem dispatch_comma (h : s.cursor.rest = ',' :: r) : s.dispatch = s.commaMark := by
  have hpeek : s.cursor.peek = ',' := Cursor.peek_eq h
  unfold dispatch
  simp [hpeek]

theorem Finds.comma {gap : List Char} (hg : Loose gap) : Finds ⟨f, ',' :: (gap ++ r), k⟩ [.comma] ⟨f, r, true⟩ := by
  refine .of_dispatch rfl (by decide) fun {s found} hs => ?_
  have hrest := hs.rest_next rfl
  have hcomma : s.commaMark = .ok { s.dropKey.pushAfter 1 .comma with keyAllowed := true } := by
    unfold commaMark
    rw [closeKey_of_optional hs.optional]
    rfl
  refine ⟨_, (dispatch_comma hs.rest).trans hcomma, ?_, Nat.le_of_eq (congrArg List.length hrest)⟩
  exact ⟨congrArg _ hs.tokens, congrArg Nat.succ hs.count, hs.flow, hs.indent, hs.outer,
    fun k hk => hs.optional k (List.mem_of_mem_filter hk), fun _ => rfl, gap, hrest, hg⟩

/-! ## Scalars -/

theorem Finds.quoted {w text gap : List Char} (h : Quoted w text) (hg : Loose gap) :
    Finds ⟨f, '"' :: (w ++ '"' :: (gap ++ r)), k⟩ [.scalar text false] ⟨f, r, false⟩ := by
  refine .of_dispatch rfl (by decide) fun {s found} hs => ?_
  obtain ⟨keys, hkeys, hoptional, -⟩ := openKey_of_optional hs.optional hs.indent
  obtain ⟨hread, hrest⟩ := h.quotedScalar hs.rest
  have hquoted : s.quotedToken = .ok { ({ s with keys := keys, cursor := s.cursor.skip (w.length + 2) } : Lexer).push
      (.scalar text false) with keyAllowed := false } := by
    unfold quotedToken
    rw [hkeys]
    show (quotedScalar s.cursor >>= _) = _
    rw [hread]
    rfl
  refine ⟨_, (dispatch_quoted hs.rest (.inr rfl)).trans hquoted, ?_, ?_⟩
  · exact ⟨congrArg _ hs.tokens, congrArg Nat.succ hs.count, hs.flow, hs.indent, hs.outer, hoptional, nofun, gap,
      hrest, hg⟩
  · show (s.cursor.skip (w.length + 2)).rest.length ≤ _
    rw [hrest]
    simp only [List.length_append, List.length_cons]
    omega

/-- a number or a name as it may stand between brackets: it begins with a letter or a digit, or with a minus before one -/
structure FlowWord (w : List Char) : Prop where
  chars : ∀ ch ∈ w, isFlowWord ch = true
  first : (∃ a w', w = a :: w' ∧ a.isAlphanum = true) ∨ ∃ a w', w = '-' :: a :: w' ∧ a.isAlphanum = true

theorem toNat_lt_of_isAlphanum {a : Char} (h : a.isAlphanum = true) : a.toNat < 128 := by
  have hranges :
    ((decide (a.val ≥ 'A'.val ∧ a.val ≤ 'Z'.val) || (decide (a.val ≥ 'a'.val) && decide (a.val ≤ 'z'.val))) ||
      (decide (a.val ≥ '0'.val) && decide (a.val ≤ '9'.val))) = true := h
  simp only [Bool.or_eq_true, Bool.and_eq_true, decide_eq_true_eq, ge_iff_le, UInt32.le_iff_toNat_le] at hranges
  have hz : 'z'.val.toNat = 122 := rfl
  have hZ : 'Z'.val.toNat = 90 := rfl
  have h9 : '9'.val.toNat = 57 := rfl
  have ha : a.toNat = a.val.toNat := rfl
  omega

theorem kind_of_isAlphanum {a : Char} (h : a.isAlphanum = true) : isSpacing a = false ∧ isPlainChar a = true ∧
    indicators.contains a = false ∧ opensToken a = true ∧ a ≠ '-' ∧ a ≠ '.' ∧ a ≠ '?' ∧ a ≠ ':' := by
  have all : ∀ n : Fin 128, (Char.ofNat n.1).isAlphanum = true → isSpacing (Char.ofNat n.1) = false ∧
      isPlainChar (Char.ofNat n.1) = true ∧ indicators.contains (Char.ofNat n.1) = false ∧
        opensToken (Char.ofNat n.1) = true ∧
      Char.ofNat n.1 ≠ '-' ∧ Char.ofNat n.1 ≠ '.' ∧ Char.ofNat n.1 ≠ '?' ∧ Char.ofNat n.1 ≠ ':' := by decide
  have := all ⟨a.toNat, toNat_lt_of_isAlphanum h⟩
  rw [Char.ofNat_toNat] at this
  exact this h

theorem FlowWord.begins {w : List Char} (h : FlowWord w) (rest : List Char) : ∃ a w', w = a :: w' ∧
    BeginsPlain a (w' ++ rest) ∧ opensToken a = true ∧ opensAsMark (a :: (w' ++ rest)) = false ∧ a ≠ '?' ∧ a ≠ ':' := by
  obtain ⟨a, w', rfl, ha⟩ | ⟨a, w', rfl, ha⟩ := h.first
  · obtain ⟨hspacing, hplain, hindicator, hopens, hminus, hpoint, hquestion, hcolon⟩ := kind_of_isAlphanum ha
    refine ⟨a, w', rfl, ⟨hspacing, hplain, hindicator, ?_⟩, hopens, not_opensAsMark_of_space hminus hpoint,
      hquestion, hcolon⟩
    rintro (h | h | h)
    · exact absurd h hquestion
    · exact absurd h hcolon
    · exact absurd h hminus
  · obtain ⟨hspacing, -, -, -, hminus, -, -, -⟩ := kind_of_isAlphanum ha
    refine ⟨'-', a :: w', rfl, ⟨by decide, by decide, by decide, fun _ => hspacing⟩, by decide, ?_, by decide, by decide⟩
    simp [opensAsMark, hminus]

theorem Finds.word {w gap : List Char} (h : FlowWord w) (hg : Loose gap) (hr : EndsNode r) :
    Finds ⟨f + 1, w ++ (gap ++ r), k⟩ [.scalar w true] ⟨f + 1, r, false⟩ := by
  obtain ⟨a, w', hw, hbegins, hopens, hmark, hquestion, hcolon⟩ := h.begins (gap ++ r)
  have hcons : w ++ (gap ++ r) = a :: (w' ++ (gap ++ r)) := by rw [hw]; rfl
  refine .of_dispatch hcons hopens fun {s found} hs => ?_
  obtain ⟨keys, hkeys, hoptional, -⟩ := openKey_of_optional hs.optional hs.indent
  have hflow : (s.flow != 0) = true := by
    rw [hs.flow]
    rfl
  have hrest := hs.rest.trans hcons
  obtain ⟨htext, gap', hrest', hg', hlength⟩ : (plainScalar true s.indent s.cursor).text = w ∧
      Before r gap.length (plainScalar true s.indent s.cursor).cursor := plainScalar_word hs.rest h.chars hg hr
  have hplain :
    s.plainToken = .ok { ({ s with keys := keys, cursor := (plainScalar true s.indent s.cursor).cursor } : Lexer).push
      (.scalar w true) with keyAllowed := (plainScalar true s.indent s.cursor).crossed } := by
    unfold plainToken
    rw [hkeys, ← htext]
    show Except.ok _ = _
    rw [hflow]
  refine ⟨_, (dispatch_plain hrest hbegins (fun _ => hmark) fun _ => ⟨hquestion, hcolon⟩).trans hplain, ?_, ?_⟩
  · exact ⟨congrArg _ hs.tokens, congrArg Nat.succ hs.count, hs.flow, hs.indent, hs.outer, hoptional, nofun, gap',
      hrest', hg'⟩
  · show (plainScalar true s.indent s.cursor).cursor.rest.length ≤ _
    rw [hrest']
    simp only [List.length_append]
    omega

/-! ## Keys -/

theorem dispatch_colon (h : s.cursor.rest = ':' :: r) (hf : s.flow ≠ 0) : s.dispatch = s.valueMark := by
  have hpeek : s.cursor.peek = ':' := Cursor.peek_eq h
  have hflow : (s.flow != 0) = true := bne_iff_ne.2 hf
  unfold dispatch
  simp [hpeek, hflow]

/-- at a colon the token of the key is put before the scalar that was the key -/
theorem valueMark_inFlow {place : KeyPlace} {others : List (Nat × KeyPlace)} (hf : s.flow ≠ 0)
    (hkeys : s.keys = (s.flow, place) :: others) (hfound : s.found = t :: found) (hcount : s.count = found.length + 1)
    (hposition : place.position = found.length) : s.valueMark =
      .ok { s with cursor := s.cursor.next, found := .value :: t :: .key :: found, count := found.length + 3,
                   keyAllowed := false, keys := others.filter (·.1 != s.flow) } := by
  have hhere : s.keyHere? = some place := by
    unfold keyHere?
    rw [hkeys]
    exact List.lookup_cons_self
  have hdrop : s.dropKey.keys = others.filter (·.1 != s.flow) := by
    unfold dropKey
    rw [hkeys]
    simp
  have hinsert : s.dropKey.insertAt place.position .key =
      { s with found := t :: .key :: found, count := found.length + 2, keys := others.filter (·.1 != s.flow) } := by
    have hafter : s.count - place.position = 1 := by omega
    unfold insertAt
    show ({ s.dropKey with found := _, count := s.count + 1 } : Lexer) = _
    rw [show s.dropKey.count = s.count from rfl, hafter, show s.dropKey.found = s.found from rfl, hfound, hcount]
    simp [dropKey, ← hdrop]
  have hopens :
    ({ s with found := t :: .key :: found, count := found.length + 2, keys := others.filter (·.1 != s.flow) } :
      Lexer).opensBlock place.column = false := by
    simp [opensBlock, hf]
  unfold valueMark
  rw [hhere]
  dsimp only
  rw [hinsert, hopens]
  rfl

/-- a key and the spaces after it are passed in one line -/
theorem skip_key {w : List Char} {n : Nat} (h : c.rest = '"' :: (w ++ '"' :: (List.replicate n ' ' ++ r)))
    (hline : ∀ ch ∈ w, isBreak ch = false ∧ ch ≠ '\r') :
    ((c.skip (w.length + 2)).skip n).index = c.index + (w.length + 2 + n) ∧
    ((c.skip (w.length + 2)).skip n).line = c.line := by
  have hinLine : ∀ ch ∈ '"' :: (w ++ '"' :: List.replicate n ' '), isBreak ch = false ∧ ch ≠ '\r' := by
    simp only [List.forall_mem_cons, List.forall_mem_append]
    refine ⟨by decide, hline, by decide, fun ch hch => ?_⟩
    rw [List.eq_of_mem_replicate hch]
    decide
  have hlength : ('"' :: (w ++ '"' :: List.replicate n ' ')).length = w.length + 2 + n := by
    simp only [List.length_cons, List.length_append, List.length_replicate]
    omega
  have hskip := Cursor.skip_inLine (c := c) (r := r) (by rw [h]; simp) hinLine
  rwa [hlength, Cursor.skip_add] at hskip

/-- at the colon after a fresh key its token and that of a value are found -/
theorem Runs.colon {n : Nat} {place : KeyPlace} {others : List (Nat × KeyPlace)} (hf : s.flow ≠ 0)
    (hkeys : s.keys = (s.flow, place) :: others) (hfound : s.found = t :: found) (hcount : s.count = found.length + 1)
    (hposition : place.position = found.length) (hoptional : ∀ k ∈ s.keys, k.2.required = false) (houter : s.outer = [])
    (hrest : s.cursor.rest = List.replicate n ' ' ++ ':' :: r) (hline : place.line = (s.cursor.skip n).line)
    (hreach : (s.cursor.skip n).index ≤ place.index + keyReach)
    (hr : ∀ keys, (∀ k ∈ keys, k.2.required = false) → (Lexer.mk (s.cursor.skip n).next (.value :: t :: .key :: found)
      (found.length + 3) s.flow s.indent s.outer false keys).Runs out) : s.Runs out := by
  obtain ⟨c, tokens, count, flow, indent, outer, allowed, keys⟩ := s
  obtain rfl : keys = (flow, place) :: others := hkeys
  dsimp only at hf hfound hcount houter hrest hline hreach hr
  have hbegins : Begins (':' :: r) := begins_cons (by decide) r
  have hloose : Loose (List.replicate n ' ') := fun ch hch => by rw [List.eq_of_mem_replicate hch]; rfl
  have hnext : (Lexer.mk c tokens count flow indent outer allowed ((flow, place) :: others)).toNext =
      ⟨c.skip n, tokens, count, flow, indent, outer, allowed, (flow, place) :: others⟩ :=
    toNext_eq (peek_loose hrest hloose hbegins) (toNextFrom_spaces hrest hbegins)
  have hdrop := dropStaleKeys_of_optional
    (s := ⟨c.skip n, tokens, count, flow, indent, outer, allowed, (flow, place) :: others⟩) hoptional
  have hfresh : isStale (c.skip n) (flow, place) = false := by
    have hnear : ¬ keyReach < (c.skip n).index - place.index := by omega
    exact Bool.or_eq_false_iff.2 ⟨bne_eq_false_iff_eq.2 hline, decide_eq_false hnear⟩
  dsimp only at hdrop
  rw [List.filter_cons_of_pos (by rw [hfresh]; rfl)] at hdrop
  have hcolon : (c.skip n).rest = ':' :: r := by simpa using Cursor.rest_skip_append hrest
  refine .of_arrives (by rw [hnext]; exact hdrop) ?_ ?_
  · show (c.skip n).rest.length ≤ c.rest.length
    rw [hcolon, hrest, List.length_append]
    exact Nat.le_add_left _ _
  · refine .of_dispatch hcolon (by decide) (unwind_eq_self houter _)
      ((dispatch_colon hcolon hf).trans (valueMark_inFlow hf rfl hfound hcount hposition)) ?_
      (hr _ fun k hk => hoptional k ?_)
    · show (c.skip n).next.rest.length ≤ _
      rw [Cursor.rest_next, hcolon]
      exact Nat.le_refl _
    · exact List.mem_cons_of_mem _ (List.mem_of_mem_filter (List.mem_of_mem_filter hk))

/-- **A key on a line with its colon, within its reach**: the token of a key, its scalar and that of a value -/
theorem Finds.key {w text gap : List Char} {n : Nat} (h : Quoted w text)
    (hline : ∀ ch ∈ w, isBreak ch = false ∧ ch ≠ '\r') (hreach : w.length + 2 + n ≤ keyReach) (hg : Loose gap) :
    Finds ⟨f + 1, '"' :: (w ++ '"' :: (List.replicate n ' ' ++ ':' :: (gap ++ r))), true⟩
    [.key, .scalar text false, .value]
      ⟨f + 1, r, false⟩ := by
  have hquote : opensToken '"' = true := by decide
  refine ⟨fun {s found out} hs hout => hs.runs (begins_cons hquote _) fun s' hs' => ?_⟩
  have hat : s'.cursor.rest = '"' :: (w ++ '"' :: (List.replicate n ' ' ++ ':' :: (gap ++ r))) := hs'.rest
  obtain ⟨hread, hrest⟩ := h.quotedScalar hat
  obtain ⟨keys, hopen, hoptional, hfirst⟩ := openKey_of_optional hs'.optional hs'.indent
  obtain ⟨others, rfl⟩ := hfirst (hs'.keyed rfl)
  -- the scalar, and the place of its quote
  have hquoted :
    s'.quotedToken = .ok ⟨s'.cursor.skip (w.length + 2), .scalar text false :: s'.found, s'.count + 1, s'.flow,
      s'.indent, s'.outer, false, (s'.flow, s'.keyPlaceHere) :: others⟩ := by
    unfold quotedToken
    rw [hopen]
    show (quotedScalar s'.cursor >>= _) = _
    rw [hread]
    rfl
  refine .of_dispatch hat (by decide) (unwind_eq_self hs'.outer _) ((dispatch_quoted hat (.inr rfl)).trans hquoted) ?_ ?_
  · show (s'.cursor.skip (w.length + 2)).rest.length ≤ _
    rw [hrest]
    simp only [List.length_append, List.length_cons]
    omega
  obtain ⟨hindex, hsame⟩ := skip_key hat hline
  have hflow : s'.flow ≠ 0 := by
    rw [hs'.flow]
    exact Nat.succ_ne_zero f
  refine .colon (t := .scalar text false) hflow rfl (congrArg _ hs'.tokens) ?_ ?_ hoptional hs'.outer hrest
    hsame.symm ?_ fun keys hkeys => hout _ ?_
  · exact congrArg Nat.succ hs'.count
  · exact hs'.count
  · show ((s'.cursor.skip (w.length + 2)).skip n).index ≤ s'.cursor.index + keyReach
    omega
  · refine ⟨rfl, rfl, hs'.flow, hs'.indent, hs'.outer, hkeys, nofun, gap, ?_, hg⟩
    show ((s'.cursor.skip (w.length + 2)).skip n).next.rest = gap ++ r
    have hcolon : ((s'.cursor.skip (w.length + 2)).skip n).rest = ':' :: (gap ++ r) := by
      simpa using Cursor.rest_skip_append hrest
    rw [Cursor.rest_next, hcolon]
    rfl

end Lexer

end Intake.Yaml
