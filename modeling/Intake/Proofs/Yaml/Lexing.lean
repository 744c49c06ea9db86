/-
Steps of the lexer between the tokens of blocks.

The lexer runs from token to token. Between two of them it comes to the next place in the text, on the same line or
on a new one, and closes the blocks that are further to the right. What it finds from some state on does not depend
on the fuel (`Runs`), and so from the place of the next token on (`Arrives`).

Every lemma takes what is found after a step to what is found before it. A key is known from its colon only, and the
tokens before it are put in then (`Arrives.simpleKey`).
-/
import Intake.Yaml.Token
import Intake.Proofs.Yaml.QuotedWriting

namespace Intake.Yaml

/-! ## Where a token begins -/

/-- a character at which a token begins: no spacing, no comment, and no mark of the byte order -/
def opensToken (ch : Char) : Bool := !isSpacing ch && ch != '#' && ch.toNat != 0xfeff

/-- a token begins here, or the text ends -/
def Begins (r : List Char) : Prop := ∀ ch ∈ r.head?, opensToken ch = true

/-- a token begins a line here, or the text ends -/
structure BeginsLine (r : List Char) : Prop where
  begins : Begins r
  noMark : opensAsMark r = false

theorem begins_cons {ch : Char} (h : opensToken ch = true) (r : List Char) : Begins (ch :: r) := by
  rintro d ⟨⟩
  exact h

theorem Begins.opens {r : List Char} (h : Begins r) : Opens r := by
  cases r with
  | nil => exact .inl rfl
  | cons ch r =>
    have := h ch rfl
    simp only [opensToken, Bool.and_eq_true, Bool.not_eq_true'] at this
    exact opens_cons this.1.1

theorem Begins.noComment {r : List Char} (h : Begins r) : r.head? ≠ some '#' := by
  intro hr
  exact absurd (h '#' hr) (by decide)

theorem beginsLine_nil : BeginsLine [] := ⟨nofun, rfl⟩

theorem beginsLine_cons {ch : Char} (h : opensToken ch = true) (h1 : ch ≠ '-') (h2 : ch ≠ '.') (r : List Char) :
    BeginsLine (ch :: r) :=
  ⟨begins_cons h r, not_opensAsMark_of_space h1 h2⟩

namespace Lexer

def inBlock (c : Cursor) (found : List Token) (indent : Int) (outer : List Int) (allowed : Bool)
    (keys : List (Nat × KeyPlace)) : Lexer :=
  ⟨c, found, found.length, 0, indent, outer, allowed, keys⟩

/-- the tokens of the rest of the text, from the place of the next token on -/
def arrive (fuel : Nat) (s : Lexer) : List Token :=
  let s := s.unwind s.cursor.column
  if s.cursor.peek == endChar then
    match (s.unwind (-1)).closeKey with
    | .error t => (Token.invalid t :: s.found).reverse
    | .ok s => s.found.reverse
  else
    match s.dispatch with
    | .error t => (Token.invalid t :: s.found).reverse
    | .ok s => run fuel s

/-- the tokens of the whole text, if the lexer goes on from here -/
def Runs (s : Lexer) (out : List Token) : Prop := ∀ fuel, s.cursor.rest.length < fuel → s.run fuel = out

/-- the tokens of the whole text, if the lexer is at the place of the next token -/
def Arrives (s : Lexer) (out : List Token) : Prop := ∀ fuel, s.cursor.rest.length ≤ fuel → s.arrive fuel = out

variable {c : Cursor} {found out : List Token} {indent : Int} {outer : List Int} {allowed : Bool}
  {keys : List (Nat × KeyPlace)} {s s' : Lexer} {r : List Char}

theorem run_succ (fuel : Nat) (h : s.toNext.dropStaleKeys = .ok s') : s.run (fuel + 1) = s'.arrive fuel := by
  change (match s.toNext.dropStaleKeys with
    | .error t => (Token.invalid t :: s.found).reverse
    | .ok s => s.arrive fuel) = _
  rw [h]

theorem Runs.of_arrives (h : s.toNext.dropStaleKeys = .ok s') (hl : s'.cursor.rest.length ≤ s.cursor.rest.length)
    (ha : s'.Arrives out) : s.Runs out := by
  intro fuel hfuel
  obtain ⟨f, rfl⟩ := QuotedReads.fuel_pos hfuel
  rw [run_succ f h]
  exact ha f (by omega)

/-! ## To the next place -/

theorem skipSpaces_eq {n : Nat} (h : c.rest = List.replicate n ' ' ++ r) (hr : Begins r) : c.skipSpaces = c.skip n := by
  rw [Cursor.skipSpaces, Cursor.span_spaces h hr.opens.head_ne_space]

theorem skipComment_eq (h : c.rest.head? ≠ some '#') : c.skipComment = c := by
  have : (c.peek == '#') = false := by
    refine beq_eq_false_iff_ne.2 fun hp => ?_
    unfold Cursor.peek at hp
    cases hc : c.rest with
    | nil =>
      rw [hc] at hp
      exact absurd hp (by decide)
    | cons ch r =>
      rw [hc] at hp
      exact h (by rw [hc, List.head?_cons]; exact congrArg some hp)
  rw [Cursor.skipComment, this]
  rfl

/-- spaces before a token are passed over -/
theorem toNextFrom_spaces {inFlow : Bool} {n fuel : Nat} (h : c.rest = List.replicate n ' ' ++ r) (hr : Begins r) :
    toNextFrom inFlow (fuel + 1) c allowed = (c.skip n, allowed) := by
  have hrest : (c.skip n).rest = r := by simpa using Cursor.rest_skip_append h
  have hbreak : (c.skip n).lineBreak = ([], c.skip n) := Opens.lineBreak (by rw [hrest]; exact hr.opens)
  rw [toNextFrom, skipSpaces_eq h hr, skipComment_eq (by rw [hrest]; exact hr.noComment), hbreak]

/-- so are the end of a line and the indentation after it, where a key may begin -/
theorem toNextFrom_newline {k fuel : Nat} (h : c.rest = newline k ++ r) (hr : Begins r) :
    toNextFrom false (fuel + 2) c allowed = (c.skip (k + 1), true) := by
  have hline : c.rest = '\n' :: (List.replicate k ' ' ++ r) := h
  have hspaces : c.skipSpaces = c := by
    rw [Cursor.skipSpaces, Cursor.span_spaces (n := 0) hline (by simp)]
    rfl
  have hnext : c.next.rest = List.replicate k ' ' ++ r := by rw [Cursor.rest_next, hline]; rfl
  rw [toNextFrom, hspaces, skipComment_eq (by rw [hline]; simp), Cursor.lineBreak_newline hline]
  dsimp only
  rw [toNextFrom_spaces hnext hr, Bool.not_false, Bool.or_true]
  rfl

/-- only a byte order mark at the front of the text is passed over before all else -/
theorem toNext_eq {c' : Cursor} {allowed' : Bool} (hb : s.cursor.peek.toNat ≠ 0xfeff)
    (h : toNextFrom (s.flow != 0) s.cursor.fuel s.cursor s.keyAllowed = (c', allowed')) :
    s.toNext = { s with cursor := c', keyAllowed := allowed' } := by
  unfold toNext
  dsimp only
  rw [if_neg fun h => hb h.2, h]

theorem dropStaleKeys_eq (h : ∀ k ∈ keys, k.2.required = false ∧ k.2.line ≠ c.line) :
    (inBlock c found indent outer allowed keys).dropStaleKeys = .ok (inBlock c found indent outer allowed []) := by
  have hany :
      (keys.any fun k => (k.2.line != c.line || decide (keyReach < c.index - k.2.index)) && k.2.required) = false := by
    refine List.any_eq_false.2 fun k hk => ?_
    simp [(h k hk).1]
  have hfilter : (keys.filter fun k => !(k.2.line != c.line || decide (keyReach < c.index - k.2.index))) = [] := by
    refine List.filter_eq_nil_iff.2 fun k hk => ?_
    simp [(h k hk).2]
  unfold dropStaleKeys inBlock
  simp only [hany, hfilter, Bool.false_eq_true, if_false]

/-- keys that began on this line, and not too far back, may still be keys -/
theorem dropStaleKeys_fresh (h : ∀ k ∈ s.keys, k.2.line = s.cursor.line ∧ s.cursor.index ≤ k.2.index + keyReach) :
    s.dropStaleKeys = .ok s := by
  have hfresh : ∀ k ∈ s.keys, (k.2.line != s.cursor.line || decide (keyReach < s.cursor.index - k.2.index)) = false := by
    intro k hk
    have := (h k hk).2
    have hreach : ¬ keyReach < s.cursor.index - k.2.index := by omega
    simp [(h k hk).1, hreach]
  have hany : (s.keys.any fun k => (k.2.line != s.cursor.line || decide (keyReach < s.cursor.index - k.2.index)) &&
      k.2.required) = false := by
    refine List.any_eq_false.2 fun k hk => ?_
    rw [hfresh k hk]
    exact Bool.false_ne_true
  have hfilter : (s.keys.filter fun k => !(k.2.line != s.cursor.line || decide (keyReach < s.cursor.index - k.2.index))) =
      s.keys := by
    refine List.filter_eq_self.2 fun k hk => ?_
    rw [hfresh k hk]
    rfl
  unfold dropStaleKeys
  simp only [hany, hfilter, Bool.false_eq_true, if_false]

theorem Runs.spaces {n : Nat} (h : c.rest = List.replicate n ' ' ++ r) (hr : Begins r)
    (hk : ∀ k ∈ keys, k.2.required = false ∧ k.2.line ≠ (c.skip n).line)
    (ha : (inBlock (c.skip n) found indent outer allowed []).Arrives out) :
    (inBlock c found indent outer allowed keys).Runs out := by
  have hb : c.peek.toNat ≠ 0xfeff := by
    cases n with
    | succ n =>
      rw [Cursor.peek_eq h]
      decide
    | zero =>
      cases r with
      | nil =>
        rw [Cursor.peek, h]
        decide
      | cons ch r =>
        have := hr ch rfl
        simp only [opensToken, Bool.and_eq_true, bne_iff_ne] at this
        rw [Cursor.peek_eq h]
        exact this.2
  refine .of_arrives ?_ ?_ ha
  · rw [toNext_eq (s := inBlock c found indent outer allowed keys) hb (toNextFrom_spaces h hr)]
    exact dropStaleKeys_eq hk
  · rw [inBlock, inBlock, Cursor.rest_skip, List.length_drop]
    exact Nat.sub_le ..

theorem Runs.newline {k : Nat} (h : c.rest = Yaml.newline k ++ r) (hr : Begins r)
    (hk : ∀ key ∈ keys, key.2.required = false ∧ key.2.line ≤ c.line)
    (ha : (inBlock (c.skip (k + 1)) found indent outer true []).Arrives out) :
    (inBlock c found indent outer allowed keys).Runs out := by
  have hb : c.peek.toNat ≠ 0xfeff := by
    have hpeek : c.peek = '\n' := Cursor.peek_eq h
    rw [hpeek]
    decide
  have hline : c.line < (c.skip (k + 1)).line := by
    rw [Cursor.skip_newline h]
    exact Nat.lt_succ_self _
  have hfuel : c.fuel = (c.rest.length - 1) + 2 := by
    unfold Cursor.fuel
    rw [h, Yaml.newline, List.cons_append, List.length_cons]
    omega
  have hnext : toNextFrom false c.fuel c allowed = (c.skip (k + 1), true) := by
    rw [hfuel]
    exact toNextFrom_newline h hr
  refine .of_arrives ?_ ?_ ha
  · rw [toNext_eq (s := inBlock c found indent outer allowed keys) hb hnext]
    exact dropStaleKeys_eq fun key hkey => ⟨(hk key hkey).1, Nat.ne_of_lt (Nat.lt_of_le_of_lt (hk key hkey).2 hline)⟩
  · rw [inBlock, inBlock, Cursor.rest_skip, List.length_drop]
    exact Nat.sub_le ..

/-! ## Blocks that end -/

theorem unwind_eq (column : Int) : (inBlock c found indent outer allowed keys).unwind column =
    unwindFrom column (inBlock c found indent outer allowed keys) outer := if_pos rfl

theorem unwind_of_le {column : Int} (h : indent ≤ column) :
    (inBlock c found indent outer allowed keys).unwind column = inBlock c found indent outer allowed keys := by
  rw [unwind_eq]
  cases outer with
  | nil => rfl
  | cons o os => exact if_neg (Int.not_lt.2 h)

theorem Arrives.close {around : Int} (h : (c.column : Int) < indent)
    (ha : (inBlock c (.blockEnd :: found) around outer allowed keys).Arrives out) :
    (inBlock c found indent (around :: outer) allowed keys).Arrives out := by
  intro fuel hfuel
  have hunwind : (inBlock c found indent (around :: outer) allowed keys).unwind c.column =
      (inBlock c (.blockEnd :: found) around outer allowed keys).unwind c.column := by
    rw [unwind_eq, unwind_eq]
    exact if_pos h
  have := ha fuel hfuel
  unfold arrive at this ⊢
  have hcursor : (inBlock c found indent (around :: outer) allowed keys).cursor = c := rfl
  have hcursor' : (inBlock c (.blockEnd :: found) around outer allowed keys).cursor = c := rfl
  rw [hcursor, hunwind]
  rwa [hcursor'] at this

/-- the end of the text closes the one block that is open -/
theorem Arrives.finish (hi : 0 ≤ indent) (hcol : indent ≤ c.column) (h : c.rest = []) :
    (inBlock c found indent [-1] true []).Arrives (found.reverse ++ [.blockEnd]) := by
  intro fuel _
  have hpeek : ((inBlock c found indent [-1] true []).cursor.peek == endChar) = true := by
    change (c.peek == endChar) = true
    rw [Cursor.peek, h]
    rfl
  have hstay : (inBlock c found indent [-1] true []).unwind (inBlock c found indent [-1] true []).cursor.column =
      inBlock c found indent [-1] true [] := unwind_of_le hcol
  have hclosed : (inBlock c found indent [-1] true []).unwind (-1) = inBlock c (.blockEnd :: found) (-1) [] true [] := by
    rw [unwind_eq]
    exact if_pos (show (-1 : Int) < indent by omega)
  unfold arrive
  dsimp only
  rw [hstay, if_pos hpeek, hclosed]
  exact List.reverse_cons

/-! ## From token to token -/

/-- a further token is found where the lexer is, if no block ends there -/
theorem Arrives.of_dispatch {ch : Char} (h : s.cursor.rest = ch :: r) (hs : isSpacing ch = false)
    (hu : s.unwind s.cursor.column = s) (hd : s.dispatch = .ok s') (hl : s'.cursor.rest.length ≤ r.length)
    (hr : s'.Runs out) : s.Arrives out := by
  intro fuel hfuel
  have hlength : r.length < fuel := by
    rw [h, List.length_cons] at hfuel
    omega
  have hpeek : (s.cursor.peek == endChar) = false := by
    rw [Cursor.peek_eq h]
    exact beq_eq_false_iff_ne.2 (ne_endChar_of_not_spacing hs)
  unfold arrive
  rw [hu]
  dsimp only
  rw [hpeek, hd]
  exact hr fuel (Nat.lt_of_le_of_lt hl hlength)

/-! ## Marks -/

theorem dispatch_item {d : Char} (h : s.cursor.rest = '-' :: d :: r) (hd : isSpacing d = true) :
    s.dispatch = s.itemMark := by
  have hmark : s.cursor.atMark = false := by
    have hdash : d ≠ '-' := by
      rintro rfl
      exact absurd hd (by decide)
    unfold Cursor.atMark opensAsMark
    rw [h]
    cases r <;> simp [hdash]
  have hpeek : s.cursor.peek = '-' := Cursor.peek_eq h
  have hnext : s.cursor.peekAt 1 = d := by
    rw [Cursor.peekAt, h]
    rfl
  unfold dispatch
  simp [hpeek, hnext, hmark, hd]

theorem dispatch_key {d : Char} (h : s.cursor.rest = '?' :: d :: r) (hd : isSpacing d = true) :
    s.dispatch = s.keyMark := by
  have hpeek : s.cursor.peek = '?' := Cursor.peek_eq h
  have hnext : s.cursor.peekAt 1 = d := by
    rw [Cursor.peekAt, h]
    rfl
  unfold dispatch
  simp [hpeek, hnext, hd]

theorem dispatch_value {d : Char} (h : s.cursor.rest = ':' :: d :: r) (hd : isSpacing d = true) :
    s.dispatch = s.valueMark := by
  have hpeek : s.cursor.peek = ':' := Cursor.peek_eq h
  have hnext : s.cursor.peekAt 1 = d := by
    rw [Cursor.peekAt, h]
    rfl
  unfold dispatch
  simp [hpeek, hnext, hd]

theorem dispatch_quoted {quote : Char} (h : s.cursor.rest = quote :: r) (hq : quote = '\x27' ∨ quote = '"') :
    s.dispatch = s.quotedToken := by
  have hpeek : s.cursor.peek = quote := Cursor.peek_eq h
  unfold dispatch
  rcases hq with rfl | rfl <;> simp [hpeek]

theorem dispatch_bracket {bracket : Char} {t : Token} (h : s.cursor.rest = bracket :: r)
    (hq : bracket = '[' ∧ t = .flowList ∨ bracket = '\x7b' ∧ t = .flowMapping) : s.dispatch = s.openFlow t := by
  have hpeek : s.cursor.peek = bracket := Cursor.peek_eq h
  unfold dispatch
  rcases hq with ⟨rfl, rfl⟩ | ⟨rfl, rfl⟩ <;> simp [hpeek]

theorem dispatch_closing {bracket : Char} {t : Token} (h : s.cursor.rest = bracket :: r)
    (hq : bracket = ']' ∧ t = .flowListEnd ∨ bracket = '\x7d' ∧ t = .flowMappingEnd) : s.dispatch = s.closeFlow t := by
  have hpeek : s.cursor.peek = bracket := Cursor.peek_eq h
  unfold dispatch
  rcases hq with ⟨rfl, rfl⟩ | ⟨rfl, rfl⟩ <;> simp [hpeek]

/-- a text without quotes begins with a character that has no meaning of its own -/
structure BeginsPlain (a : Char) (r : List Char) : Prop where
  spacing : isSpacing a = false
  plain : isPlainChar a = true
  indicator : indicators.contains a = false
  next : a = '?' ∨ a = ':' ∨ a = '-' → isSpacing (r.headD endChar) = false

theorem BeginsPlain.begins {a : Char} (h : BeginsPlain a r) {inFlow : Bool} (hf : inFlow = true → a ≠ '?' ∧ a ≠ ':') :
    beginsPlain inFlow a (r.headD endChar) = true := by
  have all : (reserved.all fun x => x == '?' || x == ':' || x == '-' || indicators.contains x) = true := by decide
  unfold beginsPlain
  by_cases ha : a = '?' ∨ a = ':' ∨ a = '-'
  · rw [h.next ha]
    cases inFlow with
    | false => rcases ha with rfl | rfl | rfl <;> decide
    | true =>
      obtain rfl := (ha.resolve_left (hf rfl).1).resolve_left (hf rfl).2
      decide
  · have hreserved : reserved.contains a = false := by
      refine Bool.eq_false_iff.2 fun hr => ?_
      have hx := List.all_eq_true.1 all a (by simpa using hr)
      rw [h.indicator, Bool.or_false] at hx
      exact ha (by simpa [or_assoc] using hx)
    rw [h.spacing, hreserved]
    rfl

theorem dispatch_plain {a : Char} (h : s.cursor.rest = a :: r) (ha : BeginsPlain a r)
    (hm : s.cursor.column = 0 → opensAsMark (a :: r) = false) (hf : s.flow ≠ 0 → a ≠ '?' ∧ a ≠ ':') :
    s.dispatch = s.plainToken := by
  have hpeek : s.cursor.peek = a := Cursor.peek_eq h
  have hnext : s.cursor.peekAt 1 = r.headD endChar := by
    rw [Cursor.peekAt, h]
    cases r <;> rfl
  have hmark (x : Char) : (a == x && s.cursor.column == 0 && s.cursor.atMark) = false := by
    by_cases hcol : s.cursor.column = 0
    · unfold Cursor.atMark
      rw [h, hm hcol, Bool.false_and, Bool.and_false]
    · simp [hcol]
  have hne (x : Char) (hx : indicators.contains x = true) : (a == x) = false := by
    refine beq_eq_false_iff_ne.2 ?_
    rintro rfl
    rw [ha.indicator] at hx
    cases hx
  have hitem : (a == '-' && isSpacing (r.headD endChar)) = false := by
    by_cases hax : a = '-'
    · rw [ha.next (.inr (.inr hax)), Bool.and_false]
    · simp [hax]
  have hmeaning (x : Char) (hx : x = '?' ∨ x = ':') :
      (a == x && (s.flow != 0 || isSpacing (r.headD endChar))) = false := by
    by_cases hax : a = x
    · have hflow : s.flow = 0 := by
        by_contra hflow
        rcases hx with rfl | rfl
        · exact (hf hflow).1 hax
        · exact (hf hflow).2 hax
      rw [hflow, ha.next (hax ▸ hx.imp_right .inl)]
      exact Bool.and_false _
    · simp [hax]
  have hbegins : beginsPlain (s.flow != 0) a (r.headD endChar) = true :=
    ha.begins fun hflow => hf (bne_iff_ne.1 hflow)
  unfold dispatch
  simp only [hpeek, hnext, hmark, hitem, hmeaning '?' (.inl rfl), hmeaning ':' (.inr rfl), hne '%' (by decide),
    hne '[' (by decide), hne '\x7b' (by decide), hne ']' (by decide), hne '\x7d' (by decide), hne ',' (by decide),
    hne '*' (by decide), hne '&' (by decide), hne '!' (by decide), hne '|' (by decide), hne '>' (by decide),
    hne '\x27' (by decide), hne '"' (by decide), hbegins, Bool.false_and, Bool.or_self, Bool.false_eq_true,
    if_false, if_true]

/-! ## Marks of blocks -/

/-- the tokens found, once the block of a column is open -/
def opened (opening : Token) (indent : Int) (column : Nat) (found : List Token) : List Token :=
  if indent < column then opening :: found else found

def outside (indent : Int) (column : Nat) (outer : List Int) : List Int :=
  if indent < column then indent :: outer else outer

/-- a mark that opens a block, or goes on with the one that is open -/
theorem blockMark_eq {opening mark : Token} {allowsKey : Bool} (hi : indent ≤ c.column) :
    (inBlock c found indent outer true []).blockMark opening mark allowsKey =
      .ok (inBlock c.next (mark :: opened opening indent c.column found) c.column
          (outside indent c.column outer) allowsKey []) := by
  have hcolumn : (inBlock c found indent outer true []).cursor.column = c.column := rfl
  unfold blockMark
  rw [if_neg (by simp [inBlock]), hcolumn]
  by_cases h : indent < c.column
  · have hopens : (inBlock c found indent outer true []).opensBlock c.column = true := by simp [opensBlock, inBlock, h]
    dsimp only
    rw [hopens, opened, outside, if_pos h, if_pos h]
    rfl
  · have hopens : (inBlock c found indent outer true []).opensBlock c.column = false := by simp [opensBlock, inBlock, h]
    have he : indent = c.column := Int.le_antisymm hi (Int.not_lt.1 h)
    dsimp only
    rw [hopens, opened, outside, if_neg h, if_neg h, ← he]
    rfl

theorem Arrives.item {d : Char} (h : c.rest = '-' :: d :: r) (hd : isSpacing d = true) (hi : indent ≤ c.column)
    (hr : (inBlock c.next (.item :: opened .blockList indent c.column found) c.column (outside indent c.column outer) true
      []).Runs out) : (inBlock c found indent outer true []).Arrives out := by
  refine .of_dispatch h (by decide) (unwind_of_le hi) ((dispatch_item h hd).trans (blockMark_eq hi)) ?_ hr
  exact Nat.le_of_eq (congrArg List.length ((Cursor.rest_next c).trans (by rw [h]; rfl)))

theorem Arrives.keyMark {d : Char} (h : c.rest = '?' :: d :: r) (hd : isSpacing d = true) (hi : indent ≤ c.column)
    (hr : (inBlock c.next (.key :: opened .blockMapping indent c.column found) c.column
      (outside indent c.column outer) true
      []).Runs out) : (inBlock c found indent outer true []).Arrives out := by
  refine .of_dispatch h (by decide) (unwind_of_le hi) ((dispatch_key h hd).trans (blockMark_eq hi)) ?_ hr
  exact Nat.le_of_eq (congrArg List.length ((Cursor.rest_next c).trans (by rw [h]; rfl)))

theorem Arrives.valueMark {d : Char} (h : c.rest = ':' :: d :: r) (hd : isSpacing d = true) (hi : indent = c.column)
    (hr : (inBlock c.next (.value :: found) indent outer true []).Runs out) :
    (inBlock c found indent outer true []).Arrives out := by
  subst hi
  have hmark : (inBlock c found c.column outer true []).valueMark =
      .ok (inBlock c.next (.value :: found) c.column outer true []) := by
    have : (inBlock c found c.column outer true []).blockMark .blockMapping .value true =
        .ok (inBlock c.next (.value :: opened .blockMapping c.column c.column found) c.column
          (outside c.column c.column outer) true []) := blockMark_eq (Int.le_refl _)
    rw [opened, outside, if_neg (Int.lt_irrefl _), if_neg (Int.lt_irrefl _)] at this
    exact this
  refine .of_dispatch h (by decide) (unwind_of_le (Int.le_refl _)) ((dispatch_value h hd).trans hmark) ?_ hr
  exact Nat.le_of_eq (congrArg List.length ((Cursor.rest_next c).trans (by rw [h]; rfl)))

/-! ## Scalars -/

def keyPlace (c : Cursor) (found : List Token) (indent : Int) : KeyPlace :=
  ⟨found.length, indent == (c.column : Int), c.index, c.line, c.column⟩

theorem openKey_eq : (inBlock c found indent outer allowed []).openKey =
    .ok (inBlock c found indent outer allowed (if allowed then [(0, keyPlace c found indent)] else [])) := by
  cases allowed <;> rfl

/-- no key must begin at a place that is further to the right than the block -/
theorem not_required (hi : indent < c.column) {allowed : Bool} :
    ∀ k ∈ if allowed then [((0 : Nat), keyPlace c found indent)] else [], k.2.required = false ∧ k.2.line = c.line := by
  cases allowed with
  | false => nofun
  | true => simpa [keyPlace] using Int.ne_of_lt hi

theorem plainToken_eq {t : ScalarText} (h : plainScalar false indent c = t) :
    (inBlock c found indent outer allowed []).plainToken =
    .ok (inBlock t.cursor (.scalar t.text true :: found) indent outer
      t.crossed (if allowed then [(0, keyPlace c found indent)] else [])) := by
  subst h
  unfold plainToken
  rw [openKey_eq]
  rfl

theorem quotedToken_eq {text : List Char} {c' : Cursor} (h : quotedScalar c = .ok (text, c')) :
    (inBlock c found indent outer allowed []).quotedToken = .ok (inBlock c' (.scalar text false :: found) indent outer
      false (if allowed then [(0, keyPlace c found indent)] else [])) := by
  have hquoted (ks : List (Nat × KeyPlace)) : quotedScalar (inBlock c found indent outer allowed ks).cursor =
      .ok (text, c') := h
  simp only [quotedToken, openKey_eq, bind, Except.bind, hquoted]
  rfl

theorem beginsPlain_of_written {cs w : List Char} (h : PlainText cs) {written : Nat} (hw : PlainWritten written cs w)
    (r : List Char) : ∃ a w', w = a :: w' ∧ cs.head? = some a ∧ BeginsPlain a (w' ++ r) := by
  obtain ⟨a, cs, rfl⟩ := List.exists_cons_of_ne_nil h.nonempty
  have hb := h.begins a cs rfl
  simp only [isIndicatorFirst, Bool.or_eq_false_iff] at hb
  obtain ⟨w, rfl, hrest⟩ := hw.of_cons h.head_ne_space
  refine ⟨a, w, rfl, rfl, h.head_not_spacing, (h.chars a List.mem_cons_self).1, hb.1, fun ha => ?_⟩
  have hnext : (cs.head?.map isSpacing).getD true = false := by
    rcases ha with rfl | rfl | rfl <;> simpa using hb.2
  cases cs with
  | nil => cases hnext
  | cons b cs =>
    have hs : isSpacing b = false := hnext
    obtain ⟨w, rfl, -⟩ := hrest.of_cons (ne_space_of_not_isSpacing hs)
    exact hs

theorem BeginsPlain.opensToken {a : Char} (h : BeginsPlain a r) : opensToken a = true := by
  have hcomment : a ≠ '#' := by
    rintro rfl
    exact absurd h.indicator (by decide)
  have hmark : a.toNat ≠ 0xfeff := by
    intro ha
    have := h.plain
    unfold isPlainChar at this
    rw [ha] at this
    exact absurd this (by decide)
  simp [Yaml.opensToken, h.spacing, hcomment, hmark]

/-- a text without quotes as a value, up to the line after it -/
theorem Arrives.plainValue {cs body : List Char} (h : PlainText cs) {written i k column : Nat} (hi : i < written)
    (hk : k ≤ i)
    (hb : BeginsLine body) (hcol : i < c.column)
    (hc : c.rest = plainWords written false column cs ++ (Yaml.newline k ++ body))
    (ha : (inBlock (c.skip ((plainWords written false column cs).length + (k + 1)))
      (.scalar cs true :: found) i outer true
      []).Arrives out) : (inBlock c found i outer allowed []).Arrives out := by
  have hwritten := plainWritten_plainWords written _ (Nat.le_refl _) h.after_letter column
  obtain ⟨a, w, hw, -, hbegins⟩ := beginsPlain_of_written h hwritten (Yaml.newline k ++ body)
  have hread := h.plainScalar_value hi hk hb.begins.opens hb.noMark hcol hc
  obtain ⟨hrest, -, hline⟩ := Cursor.skip_to_newline hc
  generalize hd : c.skip ((plainWords written false column cs).length + (k + 1)) = d at *
  have hcons : c.rest = a :: (w ++ (Yaml.newline k ++ body)) := by rw [hc, hw]; rfl
  have hspan : d.rest.length ≤ (w ++ (Yaml.newline k ++ body)).length := by
    rw [hrest]
    simp only [List.length_append]
    omega
  have hcol' : (i : Int) < c.column := Int.ofNat_lt.2 hcol
  have hzero : c.column ≠ 0 := Nat.ne_of_gt (Nat.lt_of_le_of_lt (Nat.zero_le _) hcol)
  have hdispatch := (dispatch_plain (s := inBlock c found i outer allowed []) hcons hbegins (fun h => absurd h hzero)
    fun h => absurd rfl h).trans
    (plainToken_eq hread)
  refine .of_dispatch hcons hbegins.spacing (unwind_of_le (Int.le_of_lt hcol')) hdispatch hspan ?_
  refine .spaces (n := 0) hrest hb.begins (fun key hkey => ?_) ha
  obtain ⟨hrequired, hl⟩ := not_required hcol' key hkey
  exact ⟨hrequired, by rw [hl]; exact Nat.ne_of_lt hline⟩

/-- a text between quotes as a value, up to the line after it -/
theorem Arrives.quotedValue {quote : Char} {cs w body : List Char} (hq : quote = '\x27' ∨ quote = '"') {i k : Nat}
    (hb : BeginsLine body) (hcol : i < c.column) (hw : w.head? = some quote)
    (hread : quotedScalar c = .ok (cs, c.skip w.length)) (hc : c.rest = w ++ (Yaml.newline k ++ body))
    (ha : (inBlock (c.skip (w.length + (k + 1))) (.scalar cs false :: found) i outer true []).Arrives out) :
    (inBlock c found i outer allowed []).Arrives out := by
  have hrest : (c.skip w.length).rest = Yaml.newline k ++ body := Cursor.rest_skip_append hc
  obtain ⟨w, rfl⟩ : ∃ w', w = quote :: w' := by
    cases w with
    | nil => cases hw
    | cons ch w => exact ⟨w, congrArg (· :: w) (Option.some.inj hw)⟩
  have hcons : c.rest = quote :: (w ++ (Yaml.newline k ++ body)) := hc
  have hspan : (c.skip (quote :: w).length).rest.length ≤ (w ++ (Yaml.newline k ++ body)).length := by
    rw [hrest]
    simp only [List.length_append]
    omega
  have hspacing : isSpacing quote = false := by rcases hq with rfl | rfl <;> decide
  have hcol' : (i : Int) < c.column := Int.ofNat_lt.2 hcol
  have hdispatch := (dispatch_quoted (s := inBlock c found i outer allowed []) hcons hq).trans (quotedToken_eq hread)
  refine .of_dispatch hcons hspacing (unwind_of_le (Int.le_of_lt hcol')) hdispatch hspan ?_
  refine .newline hrest hb.begins (fun key hkey => ?_) ?_
  · obtain ⟨hrequired, hl⟩ := not_required hcol' key hkey
    exact ⟨hrequired, by rw [hl]; exact Cursor.line_le_skip ..⟩
  · rwa [Cursor.skip_add] at ha

/-! ## Empty collections -/

/-- the brackets of an empty collection, up to the line after it -/
theorem Arrives.emptyValue {bracket closing : Char} {t t' : Token} {body : List Char}
    (ht : bracket = '[' ∧ t = .flowList ∨ bracket = '\x7b' ∧ t = .flowMapping)
    (ht' : closing = ']' ∧ t' = .flowListEnd ∨ closing = '\x7d' ∧ t' = .flowMappingEnd) {i k : Nat} (hb : BeginsLine body)
    (hcol : i < c.column) (hc : c.rest = bracket :: closing :: (Yaml.newline k ++ body))
    (ha : (inBlock (c.skip (2 + (k + 1))) (t' :: t :: found) i outer true []).Arrives out) :
    (inBlock c found i outer allowed []).Arrives out := by
  have hcol' : (i : Int) < c.column := Int.ofNat_lt.2 hcol
  have hspacing : isSpacing bracket = false := by rcases ht with ⟨rfl, -⟩ | ⟨rfl, -⟩ <;> decide
  have hsteady : isSteady bracket = true := by rcases ht with ⟨rfl, -⟩ | ⟨rfl, -⟩ <;> decide
  have hopens : opensToken closing = true := by rcases ht' with ⟨rfl, -⟩ | ⟨rfl, -⟩ <;> decide
  have hpeek : (closing == endChar) = false := by rcases ht' with ⟨rfl, -⟩ | ⟨rfl, -⟩ <;> decide
  have hmark : closing.toNat ≠ 0xfeff := by rcases ht' with ⟨rfl, -⟩ | ⟨rfl, -⟩ <;> decide
  have hnext := Cursor.next_of_steady hc hsteady
  have hrest : c.next.rest = closing :: (Yaml.newline k ++ body) := by rw [Cursor.rest_next, hc]; rfl
  generalize hkeys : (if allowed then [((0 : Nat), keyPlace c found (i : Int))] else []) = keys
  have hold : ∀ key ∈ keys, key.2.required = false ∧ key.2.line = c.line := hkeys ▸ not_required hcol'
  have hfirst : ∀ key ∈ keys, key.1 = 0 ∧ key.2.index = c.index := by
    rw [← hkeys]
    cases allowed with
    | false => nofun
    | true => simp [keyPlace]
  -- the lexer between the brackets
  have hopen : (inBlock c found i outer allowed []).openFlow t =
      .ok ⟨c.next, t :: found, found.length + 1, 1, i, outer, true, keys⟩ := by
    unfold openFlow
    rw [openKey_eq, hkeys]
    rfl
  have hfresh : (⟨c.next, t :: found, found.length + 1, 1, i, outer, true, keys⟩ : Lexer).dropStaleKeys =
      .ok ⟨c.next, t :: found, found.length + 1, 1, i, outer, true, keys⟩ := by
    refine dropStaleKeys_fresh fun key hkey => ?_
    rw [hnext]
    exact ⟨(hold key hkey).2, by rw [(hfirst key hkey).2]; exact Nat.add_le_add_left (by decide) _⟩
  have hstay : (⟨c.next, t :: found, found.length + 1, 1, i, outer, true, keys⟩ : Lexer).toNext =
      ⟨c.next, t :: found, found.length + 1, 1, i, outer, true, keys⟩ := by
    refine toNext_eq ?_ (toNextFrom_spaces (n := 0) hrest (begins_cons hopens _))
    rw [Cursor.peek_eq hrest]
    exact hmark
  have hclose : (⟨c.next, t :: found, found.length + 1, 1, i, outer, true, keys⟩ : Lexer).closeFlow t' =
      .ok (inBlock c.next.next (t' :: t :: found) i outer false keys) := by
    have hnone : keys.lookup 1 = none := by
      refine List.lookup_eq_none_iff.2 fun key hkey => ?_
      simp [(hfirst key hkey).1]
    have hkept : (keys.filter fun key => key.1 != 1) = keys := by
      refine List.filter_eq_self.2 fun key hkey => ?_
      simp [(hfirst key hkey).1]
    simp only [closeFlow, closeKey, keyHere?, hnone, dropKey, hkept, bind, Except.bind]
    rfl
  have hdispatch := (dispatch_bracket (s := inBlock c found i outer allowed []) hc ht).trans hopen
  refine .of_dispatch hc hspacing (unwind_of_le (Int.le_of_lt hcol')) hdispatch (Nat.le_of_eq (congrArg _ hrest)) ?_
  refine .of_arrives (by rw [hstay, hfresh]) (Nat.le_refl _) ?_
  have hclosing : isSpacing closing = false := by rcases ht' with ⟨rfl, -⟩ | ⟨rfl, -⟩ <;> decide
  refine .of_dispatch hrest hclosing rfl ((dispatch_closing hrest ht').trans hclose) ?_ ?_
  · exact Nat.le_of_eq (congrArg List.length ((Cursor.rest_next c.next).trans (by rw [hrest]; rfl)))
  · refine .newline ((Cursor.rest_next c.next).trans (by rw [hrest]; rfl)) hb.begins (fun key hkey => ?_) ?_
    · obtain ⟨hrequired, hl⟩ := hold key hkey
      exact ⟨hrequired, by rw [hl]; exact Cursor.line_le_skip c 2⟩
    · rwa [Cursor.skip_add] at ha

/-! ## Keys on a line with their values -/

/-- how a text is written as a key before its colon: on one line, not too long, and read back as a scalar -/
structure KeyWritten (cs : List Char) (isPlain : Bool) (w : List Char) : Prop where
  steady : ∀ ch ∈ w, isSteady ch = true
  reach : w.length ≤ keyReach
  begins : ∀ r, BeginsLine (w ++ ':' :: r)
  first : ∃ ch w', w = ch :: w'
  reads : ∀ {c : Cursor} {d : Char} {r : List Char} (found : List Token) {indent : Int} (outer : List Int),
    c.rest = w ++ ':' :: d :: r → isSpacing d = true → indent ≤ c.column →
    (inBlock c found indent outer true []).dispatch = .ok (inBlock (c.skip w.length) (.scalar cs isPlain :: found) indent
      outer false [(0, keyPlace c found indent)])

theorem insertAt_eq (ts : List Token) (t : Token) :
    (inBlock c (ts ++ found) indent outer allowed keys).insertAt found.length t =
      inBlock c (ts ++ t :: found) indent outer allowed keys := by
  have hafter : (ts ++ found).length - found.length = ts.length := by
    rw [List.length_append, Nat.add_sub_cancel]
  have hcount : (ts ++ found).length + 1 = (ts ++ t :: found).length := by
    simp only [List.length_append, List.length_cons, Nat.add_assoc]
  unfold insertAt inBlock
  simp only [hafter, List.take_left, List.drop_left, hcount]

/-- a colon after a key: the tokens before the key are put in -/
theorem valueMark_eq {t : Token} {d : Cursor} (hi : indent ≤ c.column) :
    (inBlock d (t :: found) indent outer false [(0, keyPlace c found indent)]).valueMark =
      .ok (inBlock d.next (.value :: t :: .key :: opened .blockMapping indent c.column found) c.column
        (outside indent c.column outer) false []) := by
  have hkey : (inBlock d (t :: found) indent outer false [(0, keyPlace c found indent)]).keyHere? =
      some (keyPlace c found indent) := rfl
  have hdrop : (inBlock d (t :: found) indent outer false [(0, keyPlace c found indent)]).dropKey =
      inBlock d ([t] ++ found) indent outer false [] := rfl
  unfold valueMark
  rw [hkey, hdrop]
  dsimp only [keyPlace]
  rw [insertAt_eq [t] .key]
  by_cases h : indent < c.column
  · have hopens : (inBlock d ([t] ++ .key :: found) indent outer false []).opensBlock c.column = true := by
      simp [opensBlock, inBlock, h]
    have hopen : (inBlock d ([t] ++ .key :: found) indent outer false []).openBlock c.column =
        inBlock d ([t, .key] ++ found) c.column (indent :: outer) false [] := rfl
    rw [if_pos hopens, hopen, insertAt_eq [t, .key] .blockMapping, opened, outside, if_pos h, if_pos h]
    rfl
  · have hopens : ¬ (inBlock d ([t] ++ .key :: found) indent outer false []).opensBlock c.column = true := by
      simp [opensBlock, inBlock, h]
    have he : indent = c.column := Int.le_antisymm hi (Int.not_lt.1 h)
    rw [if_neg hopens, opened, outside, if_neg h, if_neg h, ← he]
    rfl

/-- **A key on a line with its value opens a block of entries, or goes on with the one that is open.** -/
theorem Arrives.simpleKey {cs w : List Char} {isPlain : Bool} (h : KeyWritten cs isPlain w) {d : Char}
    (hc : c.rest = w ++ ':' :: d :: r) (hr : isSpacing d = true) (hi : indent ≤ c.column)
    (ha : (inBlock (c.skip (w.length + 1))
      (.value :: .scalar cs isPlain :: .key :: opened .blockMapping indent c.column found)
      c.column (outside indent c.column outer) false []).Runs out) :
    (inBlock c found indent outer true []).Arrives out := by
  obtain ⟨ch, w', rfl⟩ := h.first
  have hskip := Cursor.skip_of_steady hc h.steady
  have hrest : (c.skip (ch :: w').length).rest = ':' :: d :: r := Cursor.rest_skip_append hc
  have hopens : opensToken ':' = true := by decide
  have hspacing : isSpacing ch = false := by
    have := ((h.begins (d :: r)).begins ch rfl)
    simp only [opensToken, Bool.and_eq_true, Bool.not_eq_true'] at this
    exact this.1.1
  have hlength : (c.skip (ch :: w').length).rest.length ≤ (w' ++ ':' :: d :: r).length := by
    rw [hrest, List.length_append]
    exact Nat.le_add_left ..
  refine .of_dispatch hc hspacing (unwind_of_le hi) (h.reads found outer hc hr hi) hlength ?_
  -- the key is still fresh at the colon
  generalize hd : c.skip (ch :: w').length = e at *
  have hstay : (inBlock e (.scalar cs isPlain :: found) indent outer false [(0, keyPlace c found indent)]).toNext =
      inBlock e (.scalar cs isPlain :: found) indent outer false [(0, keyPlace c found indent)] := by
    refine toNext_eq ?_ (toNextFrom_spaces (n := 0) hrest (begins_cons hopens _))
    have hpeek : e.peek = ':' := Cursor.peek_eq hrest
    change e.peek.toNat ≠ 0xfeff
    rw [hpeek]
    decide
  have hfresh :
    (inBlock e (.scalar cs isPlain :: found) indent outer false [(0, keyPlace c found indent)]).dropStaleKeys =
      .ok (inBlock e (.scalar cs isPlain :: found) indent outer false [(0, keyPlace c found indent)]) := by
    refine dropStaleKeys_fresh fun key hkey => ?_
    obtain rfl := List.mem_singleton.1 hkey
    have hd' : (inBlock e (.scalar cs isPlain :: found) indent outer false [(0, keyPlace c found indent)]).cursor =
      e := rfl
    rw [hd', hskip]
    exact ⟨rfl, Nat.add_le_add_left h.reach _⟩
  refine .of_arrives (by rw [hstay, hfresh]) (Nat.le_refl _) ?_
  have hcol : indent ≤ e.column := by
    rw [hskip]
    push_cast
    omega
  refine .of_dispatch hrest (by decide) (unwind_of_le hcol) ((dispatch_value hrest hr).trans (valueMark_eq hi)) ?_ ?_
  · exact Nat.le_of_eq (congrArg List.length ((Cursor.rest_next e).trans (by rw [hrest]; rfl)))
  · rw [Cursor.skip_add, hd] at ha
    exact ha

/-! ## Nodes -/

/-- **What is written of a node after its indicator is found as these tokens**, and the lexer comes to the next line,
which is no further to the right than what is around the node -/
structure Lexes (p : Place) (w : List Char) (ts : List Token) : Prop where
  spaced : ∃ d w', w = d :: w' ∧ isSpacing d = true
  finds : ∀ {c : Cursor} {found out : List Token} {outer : List Int} {k : Nat} {body : List Char},
    c.rest = w ++ (newline k ++ body) → k ≤ p.indent → BeginsLine body → p.indent < c.column →
    (p.compact = true → c.column = p.indent + 1) →
    (inBlock (c.skip (w.length + (k + 1))) (ts.reverse ++ found) p.indent outer true []).Arrives out →
    (inBlock c found p.indent outer p.compact []).Runs out

/-- **What is written of the items or entries of a block at a column is found as these tokens**, after the one that opens
the block -/
structure LexesBlock (opening : Token) (column : Nat) (w : List Char) (ts : List Token) : Prop where
  begins : ∀ k body, BeginsLine (w ++ (newline k ++ body))
  finds : ∀ {c : Cursor} {found out : List Token} {indent : Int} {outer : List Int} {k : Nat} {body : List Char},
    c.rest = w ++ (newline k ++ body) → k ≤ column → BeginsLine body → c.column = column → indent ≤ column →
    (inBlock (c.skip (w.length + (k + 1))) (ts.reverse ++ opened opening indent column found) column
      (outside indent column outer) true []).Arrives out →
    (inBlock c found indent outer true []).Arrives out

end Lexer

end Intake.Yaml
