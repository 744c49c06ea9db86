/-
What is printed as JSON is read back.

A value that JSON knows is read as it was printed, and any other as its text for readers (`Value.asJson`). Each piece
of a text is read up to its end, whatever follows: a character by its escape, a text up to its closing quote, a number
up to something that a numeral does not go on with, and a collection up to its closing bracket (`Json.Tells`). What
follows an item is a comma or a closing bracket, with or without blanks before it, so a text can be read whatever its
style does about blanks (`Json.Style.Marked`).

Results:
- `Json.tells_of_print`: what is printed of a value tells it;
- `Json.read_json`: the text of a value is read as what the value is in JSON;
- `Json.read_again`: the text of what was read is read as the same.
-/
import Intake.Proofs.Json.Reading

namespace Intake

open Intake.Text Intake.Number Intake.Outcome

/-! ## Values in JSON -/

namespace Value

mutual

/-- what a value is in JSON: what JSON does not know is a text, for readers -/
def asJson : Value → Value
  | .null => .null
  | .bool b => .bool b
  | .int n => .int n
  | .float x => .float x
  | .text s => .text s
  | .textMember s => .text s
  | .list xs => .list (asJsonAll xs)
  | .tuple xs => .list (asJsonAll xs)
  | .map false es => .map false (asJsonEntries es)
  | v => .text (String.ofList (v.plain?.getD []))

def asJsonAll : List Value → List Value
  | [] => []
  | x :: xs => x.asJson :: asJsonAll xs

def asJsonEntries : List (Value × Value) → List (Value × Value)
  | [] => []
  | (k, v) :: es => (k, v.asJson) :: asJsonEntries es

end

theorem asJsonAll_eq_map (xs : List Value) : asJsonAll xs = xs.map asJson := by
  induction xs with
  | nil => rfl
  | cons x xs ih => rw [asJsonAll, ih, List.map_cons]

theorem asJsonEntries_eq_map (es : List (Value × Value)) : asJsonEntries es = es.map fun e => (e.1, e.2.asJson) := by
  induction es with
  | nil => rfl
  | cons e es ih => rw [asJsonEntries, ih, List.map_cons]

theorem Read.asJson_eq {v : Value} (h : v.Read) : v.asJson = v := by
  induction h with
  | @intro v here _ ih =>
    cases v with
    | list xs => rw [asJson, asJsonAll_eq_map, List.map_congr_left fun x hx => ih x (.item hx), List.map_id']
    | map readOnly es =>
      obtain ⟨rfl, -⟩ := here
      rw [asJson, asJsonEntries_eq_map, List.map_congr_left fun e he => by rw [ih e.2 (.entry he)], List.map_id']
    | null | bool | int | float | text => rfl
    | _ => exact absurd here id

/-- binary numbers are in the form that reading gives them, the keys of a hash are texts that come once, and so do the
names of an instance -/
def IsTellable : Value → Prop
  | .float x => x.Canonical ∧ ∀ p, x = .nan p → p = 1
  | .map false es => (∀ e ∈ es, ∃ s, e.1 = .text s) ∧ es.Pairwise fun e f => sameKey f.1 e.1 = false
  | .parsed p => (p.values.map (·.1)).Nodup
  | _ => True

/-- a value whose text tells what it is in JSON -/
abbrev Tellable : Value → Prop := Throughout IsTellable

theorem Read.tellable {v : Value} (h : v.Read) : v.Tellable := by
  refine h.imp fun x hx => ?_
  cases x with
  | float x => exact hx
  | map readOnly es =>
    obtain ⟨rfl, h⟩ := hx
    exact h
  | parsed p => exact absurd hx id
  | _ => trivial

/-- the projection of a value tells what it is if the value does -/
theorem Tellable.projected {v : Value} (h : v.Tellable) : v.projected.Tellable := by
  induction v using byInstances with
  | parsed p ih =>
    obtain ⟨heading, raw, values, supplied⟩ := p
    rw [Value.projected]
    refine Throughout.map_iff.2 ⟨⟨fun e he => ?_, ?_⟩, fun e he => ?_⟩
    · obtain ⟨f, -, rfl⟩ := mem_projectedFields he
      exact ⟨f.1, rfl⟩
    · rw [projectedFields_eq, Fields.entries, List.map_map, List.pairwise_map]
      refine ((List.pairwise_map.1 h.here).sublist List.filter_sublist).imp fun hne => ?_
      exact (sameKey_texts _ _).trans (beq_eq_false_iff_ne.2 hne.symm)
    · obtain ⟨f, hf, rfl⟩ := mem_projectedFields he
      exact ⟨Throughout.text_iff.2 trivial, ih f hf (h.child (.field hf))⟩
  | list xs ih =>
    rw [Value.projected, projectedAll_eq_map]
    refine Throughout.list_iff.2 ⟨trivial, fun x hx => ?_⟩
    obtain ⟨y, hy, rfl⟩ := List.mem_map.1 hx
    exact ih y hy (h.child (.item hy))
  | other v hv =>
    cases v with
    | parsed p => exact absurd rfl (hv.1 p)
    | list xs => exact absurd rfl (hv.2 xs)
    | _ => exact h

end Value

namespace Json

variable {style : Style} {level : Nat} {cs rest : List Char} {c : Char} {v : Value}

/-! ## Texts -/

theorem unit?_hexDigits {n : Nat} (h : n < 0x10000) (rest : List Char) :
    unit? (hexDigits 4 n ++ rest) = some (n, rest) := by
  obtain ⟨a, b, c, d, hdigits⟩ : ∃ a b c d, hexDigits 4 n = [a, b, c, d] := ⟨_, _, _, _, rfl⟩
  have hvalue := ofBaseDigits?_hexDigits 4 n
  rw [hdigits, Nat.mod_eq_of_lt (by simpa using h)] at hvalue
  rw [hdigits]
  show (ofBaseDigits? 16 [a, b, c, d]).map _ = _
  rw [hvalue]
  rfl

theorem numbered?_unit (h : c.toNat < 0x10000) (rest : List Char) :
    numbered? (hexDigits 4 c.toNat ++ rest) = some (c, rest) := by
  have hvalid : c.toNat < 0xD800 ∨ 0xDFFF < c.toNat ∧ c.toNat < 0x110000 := c.valid
  have hhigh : isHigh c.toNat = false := by simp only [isHigh, decide_eq_false_iff_not]; omega
  have hlow : isLow c.toNat = false := by simp only [isLow, decide_eq_false_iff_not]; omega
  simp [numbered?, unit?_hexDigits h, charOf, hhigh, hlow]

theorem numbered?_pair {hi lo : Nat} (hhigh : isHigh hi = true) (hlow : isLow lo = true)
    (hchar : 0x10000 + (hi - 0xD800) * 0x400 + (lo - 0xDC00) = c.toNat) (rest : List Char) :
    numbered? (hexDigits 4 hi ++ (unitEscape lo ++ rest)) = some (c, rest) := by
  have hhi : 0xD800 ≤ hi ∧ hi < 0xDC00 := of_decide_eq_true hhigh
  have hlo : 0xDC00 ≤ lo ∧ lo < 0xE000 := of_decide_eq_true hlow
  have hfirst := unit?_hexDigits (show hi < 0x10000 by omega) (unitEscape lo ++ rest)
  have hsecond := unit?_hexDigits (show lo < 0x10000 by omega) rest
  rw [numbered?, hfirst]
  show (if isHigh hi = true then (unit? (hexDigits 4 lo ++ rest)).bind _ else _) = _
  rw [if_pos hhigh, hsecond, Option.bind_some]
  dsimp only
  rw [if_pos hlow, hchar, Char.ofNat_toNat]

/-- the number of a character beyond sixteen bits has two halves -/
theorem halves {n : Nat} (h : 0x10000 ≤ n) (hn : n < 0x110000) : isHigh (0xD800 + (n - 0x10000) / 0x400) = true ∧
    isLow (0xDC00 + (n - 0x10000) % 0x400) = true ∧
    0x10000 + (0xD800 + (n - 0x10000) / 0x400 - 0xD800) * 0x400 + (0xDC00 + (n - 0x10000) % 0x400 - 0xDC00) = n := by
  refine ⟨decide_eq_true ?_, decide_eq_true ?_, ?_⟩ <;> omega

theorem chars_numbered (h : numbered? cs = some (c, rest)) :
    chars ('\\' :: 'u' :: cs) = (chars rest).map fun (s, r) => (c :: s, r) := by
  rw [chars]
  split
  · next heq => rw [h] at heq; cases heq
  · next heq => rw [h] at heq; cases heq; rfl

theorem chars_short {e : Char} (h : shortEscape? e = some c) (cs : List Char) :
    chars ('\\' :: e :: cs) = (chars cs).map fun (s, r) => (c :: s, r) := by
  rw [chars]
  · rw [h]
  · rintro rfl
    cases (show shortEscape? 'u' = none by decide).symm.trans h

theorem chars_plain (h : 0x20 ≤ c.toNat) (hq : c ≠ '"') (hb : c ≠ '\\') (cs : List Char) :
    chars (c :: cs) = (chars cs).map fun (s, r) => (c :: s, r) := by
  rw [chars]
  · exact if_neg (by omega)
  · exact hq
  all_goals simp [hb]

/-- **A character is read by its escape.** -/
theorem chars_escape (ascii : Bool) (c : Char) (cs : List Char) :
    chars (escape ascii c ++ cs) = (chars cs).map fun (s, r) => (c :: s, r) := by
  have of_number {n : Nat} (h : c.toNat = n) : c = Char.ofNat n := by rw [← h, Char.ofNat_toNat]
  unfold escape
  split_ifs with hquote hfeed hreturn htab hback hform hnumber
  · refine chars_short ?_ cs
    rcases hquote with rfl | rfl <;> rfl
  · subst hfeed
    exact chars_short rfl cs
  · subst hreturn
    exact chars_short rfl cs
  · subst htab
    exact chars_short rfl cs
  · rw [of_number hback]
    exact chars_short rfl cs
  · rw [of_number hform]
    exact chars_short rfl cs
  · unfold numberEscape
    split
    · next hunit => exact chars_numbered (numbered?_unit hunit cs)
    · next hpair =>
      have hvalid : c.toNat < 0xD800 ∨ 0xDFFF < c.toNat ∧ c.toNat < 0x110000 := c.valid
      obtain ⟨hhigh, hlow, hchar⟩ := halves (Nat.not_lt.1 hpair) (by omega)
      rw [List.append_assoc]
      exact chars_numbered (numbered?_pair hhigh hlow hchar cs)
  · obtain ⟨hq, hb⟩ := not_or.1 hquote
    exact chars_plain (Nat.not_lt.1 (not_or.1 hnumber).1) hq hb cs

theorem chars_escaped (ascii : Bool) (s rest : List Char) :
    chars (s.flatMap (escape ascii) ++ '"' :: rest) = some (s, rest) := by
  induction s with
  | nil => rw [List.flatMap_nil, List.nil_append, chars]
  | cons c s ih => rw [List.flatMap_cons, List.append_assoc, chars_escape, ih, Option.map_some]

theorem text_escaped (ascii : Bool) (s rest : List Char) :
    text (s.flatMap (escape ascii) ++ '"' :: rest) = .ok (String.ofList s, rest) := by
  rw [text, chars_escaped]

/-! ## Values -/

/-- a text opens a value, and reading takes it for that value up to its end, if what follows does not go on with a
numeral -/
structure Tells (cs : List Char) (v : Value) : Prop where
  opens : ∃ c tail, cs = c :: tail ∧ isBlank c = false ∧ c ≠ ']'
  reads : ∀ fuel rest, cs.length ≤ fuel → Apart rest → value fuel (cs ++ rest) = .ok (v, rest)

theorem skip_append (hb : ∀ c ∈ cs, isBlank c = true) (rest : List Char) : skip (cs ++ rest) = skip rest := by
  induction cs with
  | nil => rfl
  | cons c cs ih =>
    obtain ⟨hc, hcs⟩ := List.forall_mem_cons.1 hb
    rw [skip, List.cons_append, List.dropWhile_cons_of_pos hc]
    exact ih hcs

theorem skip_cons (hc : isBlank c = false) (cs : List Char) : skip (c :: cs) = c :: cs :=
  List.dropWhile_cons_of_neg (by rw [hc]; decide)

theorem Tells.skip_append (h : Tells cs v) (rest : List Char) : skip (cs ++ rest) = cs ++ rest := by
  obtain ⟨c, tail, rfl, hc, -⟩ := h.opens
  exact skip_cons hc _

theorem apart_append (hb : ∀ c ∈ cs, isBlank c = true) (h : Apart rest) : Apart (cs ++ rest) := by
  cases cs with
  | nil => exact h
  | cons c cs =>
    refine stops_cons ?_
    have hc := hb c List.mem_cons_self
    simp only [isBlank, Bool.or_eq_true, beq_iff_eq] at hc
    rcases hc with ((rfl | rfl) | rfl) | rfl <;> decide

theorem tells_named {c : Char} {cs : List Char} (hc : isBlank c = false) (hmark : c ∉ ['"', '[', ']', '\x7b'])
    (h : ∀ rest, named? (c :: cs ++ rest) = some (v, rest)) : Tells (c :: cs) v where
  opens := ⟨c, cs, rfl, hc, fun heq => hmark (by simp [heq])⟩
  reads fuel rest hfuel _ := by
    obtain ⟨fuel, rfl⟩ : ∃ k, fuel = k + 1 := Nat.exists_eq_add_one.2 (Nat.zero_lt_of_lt hfuel)
    have hnamed := h rest
    rw [List.cons_append] at hnamed ⊢
    unfold value
    split
    · next heq => exact absurd (List.cons.inj heq).1 (fun heq => hmark (by simp [heq]))
    · next heq => exact absurd (List.cons.inj heq).1 (fun heq => hmark (by simp [heq]))
    · next heq => exact absurd (List.cons.inj heq).1 (fun heq => hmark (by simp [heq]))
    · unfold scalar
      rw [hnamed]

theorem tells_number (negative : Bool) {cs : List Char} (hopens : ∃ c tail, cs = c :: tail ∧ c.isDigit = true)
    (h : ∀ rest, Apart rest → magnitude negative (cs ++ rest) = .ok (v, rest)) :
    Tells ((if negative then ['-'] else []) ++ cs) v := by
  obtain ⟨c, tail, rfl, hc⟩ := hopens
  have hblank : isBlank c = false := by
    simp only [isBlank, Bool.or_eq_false_iff, beq_eq_false_iff_ne]
    refine ⟨⟨⟨?_, ?_⟩, ?_⟩, ?_⟩ <;> exact ne_of_isDigit hc (by decide)
  constructor
  case opens =>
    cases negative with
    | true => exact ⟨'-', c :: tail, rfl, by decide, by decide⟩
    | false => exact ⟨c, tail, rfl, hblank, ne_of_isDigit hc (by decide)⟩
  case reads =>
    intro fuel rest hfuel hapart
    obtain ⟨fuel, rfl⟩ : ∃ k, fuel = k + 1 := Nat.exists_eq_add_one.2 (by
      simp only [List.length_append, List.length_cons] at hfuel
      omega)
    cases negative with
    | true => exact (value_minus fuel hc (tail ++ rest)).trans (h rest hapart)
    | false => exact (value_of_isDigit fuel hc (tail ++ rest)).trans (h rest hapart)

theorem tells_int {n : Int} (h : intJson n = .ok cs) : Tells cs (.int n) := by
  unfold intJson intText? at h
  split at h
  · next hs =>
    obtain ⟨hshort, hs⟩ := Option.ite_none_right_eq_some.1 hs
    cases h
    cases hs
    obtain ⟨d, ds, hds⟩ := List.exists_cons_of_ne_nil (digits_nonempty n.natAbs)
    have hopens : ∃ c tail, digits n.natAbs = c :: tail ∧ c.isDigit = true :=
      ⟨d, ds, hds, digits_all n.natAbs d (hds ▸ List.mem_cons_self)⟩
    have htells := tells_number (decide (n < 0)) hopens fun rest => magnitude_digits (decide (n < 0)) hshort
    rw [signed_natAbs] at htells
    unfold intText
    by_cases hn : n < 0 <;> simpa [hn] using htells
  · cases h

theorem tells_float {x : Binary64} (hc : x.Canonical) (hp : ∀ p, x = .nan p → p = 1) :
    Tells (floatJson x) (.float x) := by
  cases x with
  | nan p =>
    obtain rfl := hp p rfl
    exact tells_named (by decide) (by decide) fun rest => rfl
  | infinite s =>
    cases s with
    | true => exact tells_named (by decide) (by decide) fun rest => rfl
    | false => exact tells_named (by decide) (by decide) fun rest => rfl
  | finite s m e =>
    have hopens : ∃ c tail, (Binary64.finite false m e).text = c :: tail ∧ c.isDigit = true := by
      show ∃ c tail, (if m = 0 then "0.0".toList else Binary64.positiveText m e) = c :: tail ∧ c.isDigit = true
      split
      · exact ⟨'0', _, rfl, rfl⟩
      · exact (Binary64.opens_positiveText m e).2
    have htells := tells_number s hopens fun rest => magnitude_text s hc
    cases s <;> exact htells

theorem tells_text (ascii : Bool) (s : List Char) : Tells (textJson ascii s) (.text (String.ofList s)) where
  opens := ⟨'"', _, rfl, by decide, by decide⟩
  reads fuel rest hfuel _ := by
    obtain ⟨fuel, rfl⟩ : ∃ k, fuel = k + 1 := Nat.exists_eq_add_one.2 (Nat.zero_lt_of_lt hfuel)
    have htext := text_escaped ascii s rest
    rw [textJson, List.append_assoc, List.cons_append]
    unfold value
    simp only [List.singleton_append, htext]
    rfl

/-! ## Collections -/

/-- a style with a comma between items and a colon after a key, with blanks after them or not -/
structure Style.Marked (style : Style) : Prop where
  comma : ∃ bs, style.comma.toList = ',' :: bs ∧ ∀ c ∈ bs, isBlank c = true
  colon : ∃ bs, style.colon.toList = ':' :: bs ∧ ∀ c ∈ bs, isBlank c = true

theorem Style.compact_marked : Style.compact.Marked := ⟨⟨[], rfl, by simp⟩, [], rfl, by simp⟩

theorem Style.line_marked : Style.line.Marked := ⟨⟨[' '], rfl, by simp [isBlank]⟩, [' '], rfl, by simp [isBlank]⟩

theorem Style.tree_marked : Style.tree.Marked := ⟨⟨[], rfl, by simp⟩, [' '], rfl, by simp [isBlank]⟩

theorem blank_newline (style : Style) (level : Nat) : ∀ c ∈ newline style level, isBlank c = true := by
  unfold newline
  split
  · simp
  · refine List.forall_mem_cons.2 ⟨rfl, fun c hc => ?_⟩
    rw [List.eq_of_mem_replicate hc]
    rfl

def further (style : Style) (level : Nat) (items : List (List Char)) : List Char :=
  items.flatMap fun item => style.comma.toList ++ newline style level ++ item

theorem further_cons (hs : style.Marked) (level : Nat) (item : List Char) (more : List (List Char)) :
    ∃ bs, further style level (item :: more) = ',' :: (bs ++ (item ++ further style level more)) ∧
    ∀ c ∈ bs, isBlank c = true := by
  obtain ⟨bs, hcomma, hblank⟩ := hs.comma
  refine ⟨bs ++ newline style level, ?_, List.forall_mem_append.2 ⟨hblank, blank_newline style level⟩⟩
  simp [further, hcomma]

theorem items_told (hs : style.Marked) (level : Nat) {first : List Char} {more : List (List Char)} {x : Value}
    {xs : List Value}
    (hx : Tells first x) (hxs : List.Forall₂ Tells more xs) {close : List Char} (hclose : ∀ c ∈ close, isBlank c = true)
    (rest : List Char) (fuel : Nat) (hfuel : first.length + (further style level more).length < fuel) :
    items fuel (first ++ (further style level more ++ (close ++ ']' :: rest))) = .ok (x :: xs, rest) := by
  induction hxs generalizing first x fuel with
  | nil =>
    obtain ⟨fuel, rfl⟩ : ∃ k, fuel = k + 1 := Nat.exists_eq_add_one.2 (Nat.zero_lt_of_lt hfuel)
    have hvalue := hx.reads fuel (close ++ ']' :: rest) (by omega) (apart_append hclose (stops_cons (by decide)))
    rw [further, List.flatMap_nil, List.nil_append]
    simp only [items, hvalue, ok_bind, skip_append hclose, skip_cons (show isBlank ']' = false by decide)]
  | @cons second y more ys hy _ ih =>
    obtain ⟨fuel, rfl⟩ : ∃ k, fuel = k + 1 := Nat.exists_eq_add_one.2 (Nat.zero_lt_of_lt hfuel)
    obtain ⟨bs, hcomma, hblank⟩ := further_cons hs level second more
    rw [hcomma] at hfuel ⊢
    simp only [List.length_append, List.length_cons] at hfuel
    have hvalue :=
      hx.reads fuel (',' :: (bs ++ (second ++ (further style level more ++ (close ++ ']' :: rest))))) (by omega)
      (stops_cons (by decide))
    have hrest := ih hy fuel (by omega)
    simp only [List.cons_append, List.append_assoc, items, hvalue, ok_bind,
      skip_cons (show isBlank ',' = false by decide),
      skip_append hblank, hy.skip_append, hrest]

theorem tells_list (hs : style.Marked) {l : List (List Char)} {xs : List Value} (h : List.Forall₂ Tells l xs) :
    Tells (bracketed style level '[' ']' l) (.list xs) := by
  cases h with
  | nil =>
    constructor
    case opens => exact ⟨'[', [']'], rfl, by decide, by decide⟩
    case reads =>
      intro fuel rest hfuel _
      obtain ⟨fuel, rfl⟩ : ∃ k, fuel = k + 1 := Nat.exists_eq_add_one.2 (Nat.zero_lt_of_lt hfuel)
      rfl
  | @cons first x more xs hx hxs =>
    have htext (rest : List Char) : bracketed style level '[' ']' (first :: more) ++ rest =
        '[' :: (newline style (level + 1) ++
            (first ++ (further style (level + 1) more ++ (newline style level ++ ']' :: rest)))) := by
      simp [bracketed, further]
    constructor
    case opens =>
      have hopen := htext []
      rw [List.append_nil] at hopen
      exact ⟨_, _, hopen, by decide, by decide⟩
    case reads =>
      intro fuel rest hfuel _
      have hlength := congrArg List.length (htext [])
      simp only [List.append_nil, List.length_append, List.length_cons, List.length_nil] at hlength
      obtain ⟨fuel, rfl⟩ : ∃ k, fuel = k + 1 := Nat.exists_eq_add_one.2 (by omega)
      have hitems := items_told hs (level + 1) hx hxs (blank_newline style level) rest fuel (by omega)
      obtain ⟨c, tail, rfl, hc, hne⟩ := hx.opens
      rw [htext, value, skip_append (blank_newline style (level + 1)), List.cons_append, skip_cons hc]
      split
      · next heq => exact absurd (List.cons.inj heq).1 hne
      · rw [List.cons_append] at hitems
        rw [hitems]
        rfl

/-- the text of an entry: a key, a colon and a value -/
def TellsEntry (style : Style) (cs : List Char) (e : Value × Value) : Prop :=
  ∃ (key : String) (vs : List Char), e.1 = .text key ∧
  cs = textJson style.ascii key.toList ++ (style.colon.toList ++ vs) ∧ Tells vs e.2

theorem TellsEntry.reads (hs : style.Marked) {e : Value × Value} (he : TellsEntry style cs e) (fuel : Nat)
    (hfuel : cs.length ≤ fuel)
    (after : List Char) (ha : Apart after) : ∃ (key : String) (tail r : List Char), cs ++ after = '"' :: tail ∧
    e.1 = .text key ∧
      text tail = .ok (key, ':' :: r) ∧ value fuel (skip r) = .ok (e.2, after) := by
  obtain ⟨key, vs, hkey, rfl, hvs⟩ := he
  obtain ⟨bs, hcolon, hblank⟩ := hs.colon
  have htext := text_escaped style.ascii key.toList (':' :: (bs ++ (vs ++ after)))
  rw [String.ofList_toList] at htext
  refine ⟨key, _, bs ++ (vs ++ after), ?_, hkey, htext, ?_⟩
  · simp [textJson, hcolon]
  · rw [Json.skip_append hblank, hvs.skip_append]
    refine hvs.reads fuel after ?_ ha
    simp only [List.length_append] at hfuel
    omega

theorem entries_told (hs : style.Marked) (level : Nat) {first : List Char} {more : List (List Char)}
    {e : Value × Value} {es : List (Value × Value)}
    (he : TellsEntry style first e) (hes : List.Forall₂ (TellsEntry style) more es) {close : List Char}
    (hclose : ∀ c ∈ close, isBlank c = true) (rest : List Char) (fuel : Nat)
    (hfuel : first.length + (further style level more).length < fuel) :
    entries fuel (first ++ (further style level more ++ (close ++ '\x7d' :: rest))) = .ok (e :: es, rest) := by
  induction hes generalizing first e fuel with
  | nil =>
    obtain ⟨fuel, rfl⟩ : ∃ k, fuel = k + 1 := Nat.exists_eq_add_one.2 (Nat.zero_lt_of_lt hfuel)
    obtain ⟨key, tail, r, hfirst, hkey, htext, hvalue⟩ := he.reads hs fuel (by omega) (close ++ '\x7d' :: rest)
      (apart_append hclose (stops_cons (by decide)))
    rw [further, List.flatMap_nil, List.nil_append, hfirst]
    simp only [entries, htext, ok_bind, skip_cons (show isBlank ':' = false by decide), hvalue, skip_append hclose,
      skip_cons (show isBlank '\x7d' = false by decide), ← hkey]
  | @cons second f more fs hf _ ih =>
    obtain ⟨fuel, rfl⟩ : ∃ k, fuel = k + 1 := Nat.exists_eq_add_one.2 (Nat.zero_lt_of_lt hfuel)
    obtain ⟨bs, hcomma, hblank⟩ := further_cons hs level second more
    rw [hcomma] at hfuel ⊢
    simp only [List.length_append, List.length_cons] at hfuel
    obtain ⟨key, tail, r, hfirst, hkey, htext, hvalue⟩ := he.reads hs fuel (by omega)
      (',' :: (bs ++ (second ++ (further style level more ++ (close ++ '\x7d' :: rest))))) (stops_cons (by decide))
    have hrest := ih hf fuel (by omega)
    have hskip : skip (second ++ (further style level more ++ (close ++ '\x7d' :: rest))) =
        second ++ (further style level more ++ (close ++ '\x7d' :: rest)) := by
      obtain ⟨key, vs, -, rfl, -⟩ := hf
      exact skip_cons (by decide) _
    rw [List.cons_append, List.append_assoc, List.append_assoc, hfirst]
    simp only [entries, htext, ok_bind, skip_cons (show isBlank ':' = false by decide), hvalue,
      skip_cons (show isBlank ',' = false by decide), skip_append hblank, hskip, hrest, ← hkey]

/-- a hash is read by its entries, if each key comes once -/
theorem tells_map (hs : style.Marked) {l : List (List Char)} {es : List (Value × Value)}
    (h : List.Forall₂ (TellsEntry style) l es)
    (honce : es.Pairwise fun e f => Value.sameKey f.1 e.1 = false) :
    Tells (bracketed style level '\x7b' '\x7d' l) (.map false es) := by
  cases h with
  | nil =>
    constructor
    case opens => exact ⟨'\x7b', ['\x7d'], rfl, by decide, by decide⟩
    case reads =>
      intro fuel rest hfuel _
      obtain ⟨fuel, rfl⟩ : ∃ k, fuel = k + 1 := Nat.exists_eq_add_one.2 (Nat.zero_lt_of_lt hfuel)
      rfl
  | @cons first e more es he hes =>
    have htext (rest : List Char) : bracketed style level '\x7b' '\x7d' (first :: more) ++ rest =
        '\x7b' :: (newline style (level + 1) ++
          (first ++ (further style (level + 1) more ++ (newline style level ++ '\x7d' :: rest)))) := by
      simp [bracketed, further]
    constructor
    case opens =>
      have hopen := htext []
      rw [List.append_nil] at hopen
      exact ⟨_, _, hopen, by decide, by decide⟩
    case reads =>
      intro fuel rest hfuel _
      have hlength := congrArg List.length (htext [])
      simp only [List.append_nil, List.length_append, List.length_cons, List.length_nil] at hlength
      obtain ⟨fuel, rfl⟩ : ∃ k, fuel = k + 1 := Nat.exists_eq_add_one.2 (by omega)
      have hentries := entries_told hs (level + 1) he hes (blank_newline style level) rest fuel (by omega)
      obtain ⟨key, vs, -, hfirst, -⟩ := he
      rw [htext, value, skip_append (blank_newline style (level + 1))]
      rw [hfirst, textJson, List.cons_append, List.cons_append, List.cons_append] at hentries ⊢
      rw [skip_cons (by decide)]
      show (entries fuel _).map _ = _
      rw [hentries]
      exact congrArg (fun es => Except.ok (Value.map false es, rest)) (Value.ofEntries_of_once honce)

/-! ## Whole values -/

theorem tells_foreign (h : foreign style v = .ok cs) : Tells cs (.text (String.ofList (v.plain?.getD []))) := by
  unfold foreign at h
  split at h
  · split at h
    · next t ht =>
      cases h
      rw [ht]
      exact tells_text _ _
    · cases h
  · cases h

/-- **What is printed of a value tells what the value is in JSON.** -/
theorem tells_of_print (hs : style.Marked) (hv : v.Tellable) (h : print style level v = .ok cs) : Tells cs v.asJson := by
  induction v using Value.byChildren generalizing level cs with
  | parts v ih =>
    have items {xs : List Value} {l : List (List Char)} (hxs : ∀ x ∈ xs, Value.Child x v)
        (hl : printAll style (level + 1) xs = .ok l) : List.Forall₂ Tells l (Value.asJsonAll xs) := by
      rw [printAll_eq_mapM, mapM_eq_ok] at hl
      rw [Value.asJsonAll_eq_map, List.forall₂_map_right_iff]
      exact forall₂_of_mem hl.flip fun _ _ y hy hprint => ih y (hxs y hy) (hv.child (hxs y hy)) hprint
    cases v with
    | null => cases h; exact tells_named (by decide) (by decide) fun rest => rfl
    | bool b => cases h; cases b <;> exact tells_named (by decide) (by decide) fun rest => rfl
    | int n => exact tells_int h
    | float x => cases h; exact tells_float hv.here.1 hv.here.2
    | text s =>
      cases h
      have htells := tells_text style.ascii s.toList
      rwa [String.ofList_toList] at htells
    | textMember s =>
      cases h
      have htells := tells_text style.ascii s.toList
      rwa [String.ofList_toList] at htells
    | list xs =>
      obtain ⟨l, hl, h⟩ := bind_eq_ok.1 (show printAll style (level + 1) xs >>= _ = _ from h)
      cases h
      exact tells_list hs (items (fun x hx => .item hx) hl)
    | tuple xs =>
      obtain ⟨l, hl, h⟩ := bind_eq_ok.1 (show printAll style (level + 1) xs >>= _ = _ from h)
      cases h
      exact tells_list hs (items (fun x hx => .place hx) hl)
    | map readOnly es =>
      cases readOnly with
      | true => exact tells_foreign h
      | false =>
        rw [print] at h
        obtain ⟨l, hl, h⟩ := bind_eq_ok.1 h
        cases h
        obtain ⟨hkeys, honce⟩ := hv.here
        rw [Value.asJson, Value.asJsonEntries_eq_map]
        refine tells_map hs ?_ (List.pairwise_map.2 honce)
        rw [printEntries_eq_mapM, mapM_eq_ok] at hl
        rw [List.forall₂_map_right_iff]
        refine forall₂_of_mem hl.flip fun _ _ e he hprint => ?_
        obtain ⟨key, hkey, hprint⟩ := bind_eq_ok.1 hprint
        obtain ⟨value, hvalue, hprint⟩ := bind_eq_ok.1 hprint
        cases hprint
        obtain ⟨s, hs⟩ := hkeys e he
        rw [hs] at hkey
        cases hkey
        exact ⟨s, value, hs, by rw [List.append_assoc], ih e.2 (.entry he) (hv.child (.entry he)) hvalue⟩
    | _ => exact tells_foreign h

/-- **The text of a value is read as what the value is in JSON**, with blanks after it or not. -/
theorem read_json (hs : style.Marked) (hv : v.Tellable) {text after : String} (h : v.json style = .ok text)
    (hafter : ∀ c ∈ after.toList, isBlank c = true) : read (text ++ after) = .ok v.asJson := by
  obtain ⟨cs, hcs, h⟩ := bind_eq_ok.1 h
  cases h
  have htells := tells_of_print hs hv hcs
  have hapart : Apart (after.toList) := by
    have hblank : Apart (after.toList ++ []) := apart_append hafter stops_nil
    rwa [List.append_nil] at hblank
  have hskip : skip after.toList = [] := by
    have hblank := skip_append hafter []
    rwa [List.append_nil] at hblank
  have hchars : (String.ofList cs ++ after).toList = cs ++ after.toList := by
    rw [String.toList_append, String.toList_ofList]
  have hvalue :=
    htells.reads (2 * (cs ++ after.toList).length + 2) after.toList (by rw [List.length_append]; omega) hapart
  rw [read, hchars]
  dsimp only
  rw [htells.skip_append, hvalue, ok_bind]
  dsimp only
  rw [hskip]
  rfl

/-- **The text of what was read is read as the same.** -/
theorem read_again (hs : style.Marked) (hv : v.Read) {text : String} (h : v.json style = .ok text) :
    read text = .ok v := by
  have hread : read (text ++ "") = .ok v.asJson := read_json hs hv.tellable h (by simp)
  rwa [String.append_empty, hv.asJson_eq] at hread

end Json

end Intake
