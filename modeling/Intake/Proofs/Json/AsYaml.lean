/-
JSON text read as YAML.

A definition is read from JSON text by the reader of YAML. What both notations read alike (`SharedText`) has the same
value in both: what the reader of JSON takes off the front of a text, the lexer of YAML finds as tokens between
brackets, and these stand for a node that makes the value (`ValueAlike`). A value without quotes or brackets of its own
must end before a mark, as items and entries do.

Induction is on the fuel, for the three readers of values, items and entries at once: each calls the others with less.

Results:
- `Yaml.read_of_json`: a shared text of a collection or a text has one value;
- `Definition.ofText_of_json`: a definition is built from a shared text as from its value;
- `Definition.power_read_otherwise`: not so from every JSON text.
-/
import Intake.CommandLine.Run
import Intake.Proofs.Json.Roundtrip
import Intake.Proofs.Json.SharedScalars
import Intake.Proofs.Reloading
import Intake.Proofs.Yaml.FlowParsing

namespace Intake

open Intake.Text Intake.Number Intake.Outcome

namespace Json

variable {cs rest : List Char} {v : Value}

/-! ## Blanks -/

/-- the blanks of a shared text separate tokens in YAML -/
theorem SharedText.gap (h : SharedText cs) : ∃ gap r, cs = gap ++ r ∧ Json.skip cs = r ∧ Yaml.Loose gap := by
  refine ⟨cs.takeWhile isBlank, Json.skip cs, List.takeWhile_append_dropWhile.symm, rfl, fun c hc => ?_⟩
  have hblank : isBlank c = true := List.mem_takeWhile_imp hc
  have hshared := h.chars c ((List.takeWhile_sublist _).subset hc)
  simp only [isSharedChar, Bool.and_eq_true, bne_iff_ne] at hshared
  simp only [isBlank, Bool.or_eq_true, beq_iff_eq, hshared.1.2, or_false] at hblank
  exact Yaml.isLoose_iff.2 (or_assoc.1 hblank)

theorem stops_of_endsNode (h : Yaml.EndsNode (skip cs)) : Stops isWordChar cs := by
  cases cs with
  | nil => exact stops_nil
  | cons c cs =>
    refine stops_cons ?_
    by_cases hblank : isBlank c = true
    · simp only [isBlank, Bool.or_eq_true, beq_iff_eq] at hblank
      rcases hblank with ((rfl | rfl) | rfl) | rfl <;> decide
    · obtain ⟨ch, r, heq, hch⟩ := h
      rw [skip, List.dropWhile_cons_of_neg hblank] at heq
      obtain ⟨rfl, -⟩ := List.cons.inj heq
      rcases hch with rfl | rfl | rfl <;> decide

/-! ## One step of each reader -/

def standsBare : Value → Bool
  | .text _ | .list _ | .map .. => false
  | _ => true

/-- **What JSON takes off the front of a text as a value, YAML finds as the tokens of a node that makes it.** -/
structure ValueAlike (cs : List Char) (v : Value) (rest : List Char) : Prop where
  shared : SharedText rest
  found : ∃ ts n, Yaml.FlowParses ts n ∧ Yaml.Makes n v ∧ ∀ f k, (standsBare v = true → 0 < f) →
    Yaml.Lexer.Finds ⟨f, cs, k⟩ ts ⟨f, skip rest, false⟩

/-- so it is with items up to the closing bracket, which come first or after others -/
structure ItemsAlike (cs : List Char) (xs : List Value) (rest : List Char) : Prop where
  shared : SharedText rest
  found : ∃ ts ns, (∀ isFirst, Yaml.FlowItems isFirst (Yaml.separator isFirst ++ ts) ns) ∧ List.Forall₂ Yaml.Makes ns xs ∧
    ∀ f, Yaml.Lexer.Finds ⟨f + 1, cs, true⟩ (ts ++ [.flowListEnd]) ⟨f, skip rest, false⟩

/-- and with entries up to the closing brace -/
structure EntriesAlike (cs : List Char) (es : List (Value × Value)) (rest : List Char) : Prop where
  shared : SharedText rest
  found : ∃ ts ns fs, (∀ isFirst, Yaml.FlowEntries isFirst (Yaml.separator isFirst ++ ts) ns) ∧
    List.Forall₂ Yaml.MakesEntry ns fs ∧ es = Fields.entries fs ∧
    ∀ f, Yaml.Lexer.Finds ⟨f + 1, cs, true⟩ (ts ++ [.flowMappingEnd]) ⟨f, skip rest, false⟩

theorem text_eq_ok {s : String} (h : text cs = .ok (s, rest)) : ∃ w, cs = w ++ '"' :: rest ∧ TextWritten w s.toList := by
  unfold text at h
  split at h
  · next s' rest' hchars =>
    obtain ⟨rfl, rfl⟩ := Prod.mk.inj (Except.ok.inj h)
    rw [String.toList_ofList]
    exact written_of_chars hchars
  · cases h

theorem alike_text {s : String} (h : text cs = .ok (s, rest)) (hs : SharedText ('"' :: cs)) :
    ValueAlike ('"' :: cs) (.text s) rest := by
  obtain ⟨w, rfl, hw⟩ := text_eq_ok h
  obtain ⟨hpair, -, hrest⟩ := hs.quoted hw
  have hquoted : Yaml.Quoted w s.toList := hw.quoted (fun c hc => hs.chars c (by simp [hc])) hpair
  have hvalue : Yaml.scalarValue .text s.toList = .ok (.text s) := by rw [Yaml.scalarValue, String.ofList_toList]
  refine ⟨hrest, _, _, Yaml.flowParses_scalar false s.toList, Yaml.makes_scalar rfl hvalue, fun f k _ => ?_⟩
  obtain ⟨gap, r, rfl, hskip, hloose⟩ := hrest.gap
  rw [hskip]
  exact .quoted hquoted hloose

theorem ScalarWritten.standsBare {w : List Char} (h : ScalarWritten w v) : standsBare v = true := by
  rcases h.cases with ⟨name, hname, -⟩ | ⟨s, body, -, hbody⟩
  · have all : ∀ n ∈ names, Json.standsBare n.2 = true := by simp [names, Json.standsBare]
    exact all _ hname
  · cases hbody <;> rfl

theorem alike_scalar (h : scalar cs = .ok (v, rest)) (hs : SharedText cs)
    (hend : standsBare v = true → Yaml.EndsNode (skip rest)) : ValueAlike cs v rest := by
  obtain ⟨w, rfl, hw⟩ := written_of_scalar h
  have hends := hend hw.standsBare
  obtain ⟨hword, hrest⟩ := hs.word hw.wordChars.1 hw.wordChars.2 (stops_of_endsNode hends)
  refine ⟨hrest, _, _, Yaml.flowParses_scalar true w, makes_of_sharedWord hw hword, fun f k hf => ?_⟩
  obtain ⟨f, rfl⟩ := Nat.exists_eq_add_of_le (hf hw.standsBare)
  obtain ⟨gap, r, rfl, hskip, hloose⟩ := hrest.gap
  rw [hskip] at hends ⊢
  rw [Nat.add_comm]
  exact .word hw.flowWord hloose hends

/-- the marks between values are passed over in both notations -/
theorem SharedText.mark {mark : Char} (h : SharedText (mark :: cs)) (hm : mark ∈ [',', ':', '[', ']', '\x7b', '\x7d']) :
    SharedText cs := by
  have all : ([',', ':', '[', ']', '\x7b', '\x7d'].all fun m => m != '"' && !isWordChar m) = true := by decide
  have hmark := List.all_eq_true.1 all mark hm
  simp only [Bool.and_eq_true, bne_iff_ne, Bool.not_eq_true'] at hmark
  exact h.tail hmark.1 hmark.2

theorem SharedText.after {mark : Char} {after : List Char} (h : SharedText cs) (hm : Json.skip cs = mark :: after)
    (hmark : mark ∈ [',', ':', '[', ']', '\x7b', '\x7d']) : SharedText after := by
  have := h.skip
  rw [hm] at this
  exact this.mark hmark

theorem alike_list {ts : List Yaml.Token} {ns : List Yaml.Node} {xs : List Value} (hs : SharedText ('[' :: cs))
    (hrest : SharedText rest) (hitems : Yaml.FlowItems true ts ns) (hmakes : List.Forall₂ Yaml.Makes ns xs)
    (hfinds : ∀ f, Yaml.Lexer.Finds ⟨f + 1, skip cs, true⟩ (ts ++ [.flowListEnd]) ⟨f, skip rest, false⟩) :
    ValueAlike ('[' :: cs) (.list xs) rest := by
  refine ⟨hrest, _, _, hitems.parses, Yaml.makes_list hmakes, fun f k _ => ?_⟩
  obtain ⟨gap, r, rfl, hskip, hloose⟩ := (hs.mark (by decide)).gap
  rw [hskip] at hfinds
  exact (Yaml.Lexer.Finds.open (.inl ⟨rfl, rfl⟩) hloose).trans (hfinds f)

theorem alike_mapping {ts : List Yaml.Token} {ns : List (Yaml.Node × Yaml.Node)} {fs : Fields}
    (hs : SharedText ('\x7b' :: cs)) (hrest : SharedText rest) (hentries : Yaml.FlowEntries true ts ns)
    (hmakes : List.Forall₂ Yaml.MakesEntry ns fs)
    (hfinds : ∀ f, Yaml.Lexer.Finds ⟨f + 1, skip cs, true⟩ (ts ++ [.flowMappingEnd]) ⟨f, skip rest, false⟩) :
    ValueAlike ('\x7b' :: cs) (.map false (Value.ofEntries fs.entries)) rest := by
  refine ⟨hrest, _, _, hentries.parses, Yaml.makes_entries hmakes, fun f k _ => ?_⟩
  obtain ⟨gap, r, rfl, hskip, hloose⟩ := (hs.mark (by decide)).gap
  rw [hskip] at hfinds
  exact (Yaml.Lexer.Finds.open (.inr ⟨rfl, rfl⟩) hloose).trans (hfinds f)

theorem finds_close {closing : Char} {t : Yaml.Token}
    (ht : closing = ']' ∧ t = .flowListEnd ∨ closing = '\x7d' ∧ t = .flowMappingEnd) (hs : SharedText cs) (f : Nat)
    (k : Bool) :
    Yaml.Lexer.Finds ⟨f + 1, closing :: cs, k⟩ [t] ⟨f, skip cs, false⟩ := by
  obtain ⟨gap, r, rfl, hskip, hloose⟩ := hs.gap
  rw [hskip]
  exact .close ht hloose

theorem finds_comma (hs : SharedText cs) (f : Nat) (k : Bool) :
    Yaml.Lexer.Finds ⟨f, ',' :: cs, k⟩ [.comma] ⟨f, skip cs, true⟩ := by
  obtain ⟨gap, r, rfl, hskip, hloose⟩ := hs.gap
  rw [hskip]
  exact .comma hloose

theorem finds_key {key : String} {after : List Char} (h : text cs = .ok (key, rest)) (hs : SharedText ('"' :: cs))
    (hcolon : skip rest = ':' :: after) : SharedText after ∧ ∀ f, Yaml.Lexer.Finds ⟨f + 1, '"' :: cs, true⟩
      [.key, .scalar key.toList false, .value] ⟨f + 1, skip after, false⟩ := by
  obtain ⟨w, rfl, hw⟩ := text_eq_ok h
  obtain ⟨hpair, hfits, hrest⟩ := hs.quoted hw
  have hchars : ∀ c ∈ w, isSharedChar c = true := fun c hc => hs.chars c (by simp [hc])
  have hafter := hrest.after hcolon (by decide)
  refine ⟨hafter, fun f => ?_⟩
  have hline : ∀ c ∈ w, Yaml.isBreak c = false ∧ c ≠ '\r' := by
    intro c hc
    rcases hw.spacing hchars c hc with rfl | hspacing
    · decide
    · refine ⟨Yaml.not_isBreak_of_not_isSpacing hspacing, ?_⟩
      rintro rfl
      exact absurd hspacing (by decide)
  simp only [keyFits, hcolon, List.head?_cons, bne_self_eq_false, Bool.false_or, Bool.and_eq_true, decide_eq_true_eq,
    List.all_eq_true, beq_iff_eq] at hfits
  obtain ⟨hspaces, hreach⟩ := hfits
  -- the key stands on the line of its colon
  have hsplit : rest = List.replicate (rest.takeWhile isBlank).length ' ' ++ ':' :: after := by
    rw [← List.eq_replicate_of_mem hspaces, ← hcolon]
    exact List.takeWhile_append_dropWhile.symm
  obtain ⟨gap, r, rfl, hskip, hloose⟩ := hafter.gap
  rw [hsplit, hskip]
  exact .key (hw.quoted hchars hpair) hline hreach hloose

/-! ## What the readers take -/

/-- items are a value, and after it the closing bracket, or a comma and items -/
theorem cases_of_items {fuel : Nat} {xs : List Value} (h : items (fuel + 1) cs = .ok (xs, rest)) :
    ∃ x r, value fuel cs = .ok (x, r) ∧ ((skip r = ']' :: rest ∧ xs = [x]) ∨
      ∃ after ys, skip r = ',' :: after ∧ items fuel (skip after) = .ok (ys, rest) ∧ xs = x :: ys) := by
  unfold items at h
  obtain ⟨⟨x, r⟩, hx, h⟩ := bind_eq_ok.1 h
  refine ⟨x, r, hx, ?_⟩
  dsimp only at h
  split at h
  · next hclose =>
    obtain ⟨rfl, rfl⟩ := Prod.mk.inj (Except.ok.inj h)
    exact .inl ⟨hclose, rfl⟩
  · next after hcomma =>
    obtain ⟨⟨ys, r'⟩, hys, h⟩ := bind_eq_ok.1 h
    obtain ⟨rfl, rfl⟩ := Prod.mk.inj (Except.ok.inj h)
    exact .inr ⟨after, ys, hcomma, hys, rfl⟩
  · cases h

/-- entries are a key, a colon and a value, and after it the closing brace, or a comma and entries -/
theorem cases_of_entries {fuel : Nat} {es : List (Value × Value)} (h : entries (fuel + 1) cs = .ok (es, rest)) :
    ∃ cs' key r before x r', cs = '"' :: cs' ∧ text cs' = .ok (key, r) ∧ skip r = ':' :: before ∧
      value fuel (skip before) = .ok (x, r') ∧ ((skip r' = '\x7d' :: rest ∧ es = [(.text key, x)]) ∨
        ∃ after fs, skip r' = ',' :: after ∧ entries fuel (skip after) = .ok (fs, rest) ∧ es = (.text key, x) :: fs) := by
  unfold entries at h
  split at h
  · next cs' =>
    obtain ⟨⟨key, r⟩, hkey, h⟩ := bind_eq_ok.1 h
    dsimp only at h
    split at h
    · next before hcolon =>
      obtain ⟨⟨x, r'⟩, hx, h⟩ := bind_eq_ok.1 h
      refine ⟨cs', key, r, before, x, r', rfl, hkey, hcolon, hx, ?_⟩
      dsimp only at h
      split at h
      · next hclose =>
        obtain ⟨rfl, rfl⟩ := Prod.mk.inj (Except.ok.inj h)
        exact .inl ⟨hclose, rfl⟩
      · next after hcomma =>
        obtain ⟨⟨fs, r''⟩, hfs, h⟩ := bind_eq_ok.1 h
        obtain ⟨rfl, rfl⟩ := Prod.mk.inj (Except.ok.inj h)
        exact .inr ⟨after, fs, hcomma, hfs, rfl⟩
      · cases h
    · cases h
  · cases h

/-- what each of the readers takes with some fuel -/
structure AlikeWith (fuel : Nat) : Prop where
  value : ∀ {cs v rest}, Json.value fuel cs = .ok (v, rest) → SharedText cs →
    (standsBare v = true → Yaml.EndsNode (skip rest)) →
    ValueAlike cs v rest
  items : ∀ {cs xs rest}, Json.items fuel cs = .ok (xs, rest) → SharedText cs → ItemsAlike cs xs rest
  entries : ∀ {cs es rest}, Json.entries fuel cs = .ok (es, rest) → SharedText cs → EntriesAlike cs es rest

variable {fuel : Nat}

theorem AlikeWith.itemsNext (ih : AlikeWith fuel) {xs : List Value} (h : Json.items (fuel + 1) cs = .ok (xs, rest))
    (hs : SharedText cs) : ItemsAlike cs xs rest := by
  obtain ⟨x, r, hx, hnext⟩ := cases_of_items h
  have hends : Yaml.EndsNode (skip r) := by
    rcases hnext with ⟨hclose, -⟩ | ⟨after, ys, hcomma, -⟩
    · exact ⟨_, _, hclose, .inr (.inl rfl)⟩
    · exact ⟨_, _, hcomma, .inl rfl⟩
  obtain ⟨hr, ts, n, hparses, hmakes, hfinds⟩ := ih.value hx hs fun _ => hends
  have hvalue (f : Nat) := hfinds (f + 1) true fun _ => Nat.succ_pos f
  rcases hnext with ⟨hclose, rfl⟩ | ⟨after, ys, hcomma, hys, rfl⟩
  · have hrest := hr.after hclose (by decide)
    refine ⟨hrest, ts, [n], fun isFirst => ?_, .cons hmakes .nil, fun f => ?_⟩
    · simpa using Yaml.FlowItems.cons isFirst hparses (.nil false)
    · have hvalue := hvalue f
      rw [hclose] at hvalue
      exact hvalue.trans (finds_close (.inl ⟨rfl, rfl⟩) hrest f false)
  · have hafter := hr.after hcomma (by decide)
    obtain ⟨hrest, ts', ns, hitems, hmakes', hfinds'⟩ := ih.items hys hafter.skip
    refine ⟨hrest, ts ++ .comma :: ts', n :: ns, fun isFirst => ?_, .cons hmakes hmakes', fun f => ?_⟩
    · simpa [Yaml.separator] using Yaml.FlowItems.cons isFirst hparses (hitems false)
    · have hvalue := hvalue f
      rw [hcomma] at hvalue
      simpa using hvalue.trans ((finds_comma hafter (f + 1) false).trans (hfinds' f))

theorem AlikeWith.entriesNext (ih : AlikeWith fuel) {es : List (Value × Value)}
    (h : Json.entries (fuel + 1) cs = .ok (es, rest)) (hs : SharedText cs) : EntriesAlike cs es rest := by
  obtain ⟨cs', key, r, before, x, r', rfl, hkey, hcolon, hx, hnext⟩ := cases_of_entries h
  have hends : Yaml.EndsNode (skip r') := by
    rcases hnext with ⟨hclose, -⟩ | ⟨after, fs, hcomma, -⟩
    · exact ⟨_, _, hclose, .inr (.inr rfl)⟩
    · exact ⟨_, _, hcomma, .inl rfl⟩
  obtain ⟨hbefore, hkeys⟩ := finds_key hkey hs hcolon
  obtain ⟨hr, ts, n, hparses, hmakes, hfinds⟩ := ih.value hx hbefore.skip fun _ => hends
  have hentry (f : Nat) := (hkeys f).trans (hfinds (f + 1) false fun _ => Nat.succ_pos f)
  have hscalar : Yaml.FlowParses [.scalar key.toList false] (.scalar .text key.toList) :=
    Yaml.flowParses_scalar false key.toList
  rcases hnext with ⟨hclose, rfl⟩ | ⟨after, es, hcomma, hes, rfl⟩
  · have hrest := hr.after hclose (by decide)
    refine ⟨hrest, [.key, .scalar key.toList false, .value] ++ ts, [(_, n)], [(key, x)], fun isFirst => ?_,
      .cons ⟨rfl, hmakes⟩ .nil, rfl, fun f => ?_⟩
    · simpa using Yaml.FlowEntries.cons isFirst hscalar hparses (.nil false)
    · have hentry := hentry f
      rw [hclose] at hentry
      exact hentry.trans (finds_close (.inr ⟨rfl, rfl⟩) hrest f false)
  · have hafter := hr.after hcomma (by decide)
    obtain ⟨hrest, ts', ns, fs, hentries, hmakes', rfl, hfinds'⟩ := ih.entries hes hafter.skip
    refine ⟨hrest, [.key, .scalar key.toList false, .value] ++ ts ++ .comma :: ts', (_, n) :: ns, (key, x) :: fs,
      fun isFirst => ?_, .cons ⟨rfl, hmakes⟩ hmakes', rfl, fun f => ?_⟩
    · simpa [Yaml.separator] using Yaml.FlowEntries.cons isFirst hscalar hparses (hentries false)
    · have hentry := hentry f
      rw [hcomma] at hentry
      simpa using hentry.trans ((finds_comma hafter (f + 1) false).trans (hfinds' f))

theorem AlikeWith.valueNext (ih : AlikeWith fuel) (h : Json.value (fuel + 1) cs = .ok (v, rest)) (hs : SharedText cs)
    (hends : standsBare v = true → Yaml.EndsNode (skip rest)) : ValueAlike cs v rest := by
  unfold Json.value at h
  split at h
  · obtain ⟨⟨s, r⟩, htext, h⟩ := map_eq_ok.1 h
    obtain ⟨rfl, rfl⟩ := Prod.mk.inj h
    exact alike_text htext hs
  · split at h
    · next hclose =>
      obtain ⟨rfl, rfl⟩ := Prod.mk.inj (Except.ok.inj h)
      have hrest := (hs.mark (by decide)).after hclose (by decide)
      refine alike_list hs hrest (.nil true) .nil fun f => ?_
      rw [hclose]
      exact finds_close (.inl ⟨rfl, rfl⟩) hrest f true
    · obtain ⟨⟨xs, r⟩, hxs, h⟩ := map_eq_ok.1 h
      obtain ⟨rfl, rfl⟩ := Prod.mk.inj h
      obtain ⟨hrest, ts, ns, hitems, hmakes, hfinds⟩ := ih.items hxs (hs.mark (by decide)).skip
      exact alike_list hs hrest (hitems true) hmakes hfinds
  · split at h
    · next hclose =>
      obtain ⟨rfl, rfl⟩ := Prod.mk.inj (Except.ok.inj h)
      have hrest := (hs.mark (by decide)).after hclose (by decide)
      refine alike_mapping hs hrest (.nil true) .nil fun f => ?_
      rw [hclose]
      exact finds_close (.inr ⟨rfl, rfl⟩) hrest f true
    · obtain ⟨⟨es, r⟩, hes, h⟩ := map_eq_ok.1 h
      obtain ⟨rfl, rfl⟩ := Prod.mk.inj h
      obtain ⟨hrest, ts, ns, fs, hentries, hmakes, rfl, hfinds⟩ := ih.entries hes (hs.mark (by decide)).skip
      exact alike_mapping hs hrest (hentries true) hmakes hfinds
  · exact alike_scalar h hs hends

theorem alikeWith (fuel : Nat) : AlikeWith fuel := by
  induction fuel with
  | zero => exact ⟨nofun, nofun, nofun⟩
  | succ fuel ih => exact ⟨ih.valueNext, ih.itemsNext, ih.entriesNext⟩

end Json

/-! ## Documents -/

/-- **A shared text of a collection or a text has in YAML the value that it has in JSON.** -/
theorem Yaml.read_of_json {t : String} {v : Value} (h : Json.read t = .ok v) (hs : Json.SharedText t.toList)
    (hv : Json.standsBare v = false) : Yaml.read t = .ok v := by
  obtain ⟨⟨w, rest⟩, hw, h⟩ := bind_eq_ok.1 h
  dsimp only at h
  split at h
  · next hend =>
    obtain rfl := Except.ok.inj h
    obtain ⟨-, ts, n, hparses, hmakes, hfinds⟩ :=
      (Json.alikeWith _).value hw hs.skip fun hbare => absurd (hv.symm.trans hbare) (by decide)
    obtain ⟨gap, r, hgap, hskip, hloose⟩ := hs.gap
    have hstart : Lexer.Stands (Lexer.start t.toList) ⟨0, Json.skip t.toList, true⟩ [] :=
      ⟨rfl, rfl, rfl, rfl, rfl, nofun, fun _ => rfl, gap, by rw [hskip]; exact hgap, hloose⟩
    have hruns : (Lexer.start t.toList).Runs ts := by
      refine (hfinds 0 true fun hbare => absurd (hv.symm.trans hbare) (by decide)).runs hstart fun s' hs' => ?_
      rw [List.isEmpty_iff.1 hend] at hs'
      simpa using hs'.finish
    have htokens : tokens t.toList = ts := hruns _ (Nat.lt_succ_self _)
    have hchars : t.toList.all isDocumentChar = true := by
      refine List.all_eq_true.2 fun c hc => ?_
      have := hs.chars c hc
      simp only [Json.isSharedChar, Bool.and_eq_true] at this
      exact this.1.1
    refine read_of_makes ?_ hmakes
    rw [Node.ofText, hchars, if_pos rfl, htokens]
    exact hparses.parses.ofTokens
  · cases h

namespace Definition

/-- **A definition is built from a shared JSON text as from the value of the text.** -/
theorem ofText_of_json {t : String} {es : List (Value × Value)} (h : Json.read t = .ok (.map false es))
    (hs : Json.SharedText t.toList) (w : Workshop) (stamp : Nat) (name : Option String) :
    ofText w stamp t name = ofDocument w stamp (.map false es) name none := by
  have hdocument : documentOf none t = .ok (.map false es) := by
    rw [documentOf, Yaml.read_of_json h hs rfl]
  rw [ofText, hdocument, ok_bind]

/-! ## An example -/

open CommandLine

/-- a definition with a default of some value -/
def power (v : Value) : Definition := ⟨0, "power", [⟨"watts", .untyped, false, some v, []⟩], .default⟩

def powerFields (v : Value) : Fields :=
  [("name", .text "power"), ("attributes", .ofFields [("watts", .ofFields [("default", v)])])]

/-- its text in JSON, with the default as it is written -/
def powerText (written : String) : String :=
  "\x7b\n  \"name\": \"power\",\n  \"attributes\": \x7b\n    \"watts\": \x7b\n      \"default\": " ++ written ++
    "\n    \x7d\n  \x7d\n\x7d"

theorem toFields_power_text (s : String) : (power (.text s)).toFields .builtin = .ok (powerFields (.text s)) := rfl

theorem toFields_power_float (x : Binary64) : (power (.float x)).toFields .builtin = .ok (powerFields (.float x)) := rfl

theorem ofDocument_power {v : Value} (hv : v.Plain) (hm : v ≠ .missing)
    (hfields : (power v).toFields .builtin = .ok (powerFields v)) :
    ofDocument workshop 0 (.ofFields (powerFields v)) none none = .ok (power v) := by
  have hid : Text.isIdentifier "watts".toList = true := by decide
  have hvisible : "watts".toList.head? ≠ some '_' := by decide
  have hfree : "watts" ∉ reservedNames := by decide
  have hsound : (⟨"watts", .untyped, false, some v, []⟩ : Attribute).Sound :=
    ⟨hid, hvisible, hfree, by simp, by simp [hm], by simp, by simp⟩
  have hdeclared : (power v).Declared Settings.default 0 31 :=
    .mk (by simp) (List.forall_mem_singleton.2 hsound) (by simp [Shape.definition?]) (by simp [Shape.definition?])
      (by simp [Shape.definition?])
  have hportable : (power v).Portable := by
    refine .mk (List.forall_mem_singleton.2 ⟨by simp, ?_, by simp⟩) (by simp [power, Shape.definition?])
    rintro v ⟨⟩
    exact hv
  obtain ⟨fs, htold, -, hloads⟩ := ofDocument_toFields (w := workshop) rfl hdeclared hportable (by simp [power])
  obtain rfl := Except.ok.inj (hfields.symm.trans htold)
  exact hloads 0

theorem plain_ofScientific (negative : Bool) (m : Nat) (e : Int)
    (h : (Binary64.ofScientific negative m e).isFinite = true) :
    (Value.float (.ofScientific negative m e)).Plain := .float h (Binary64.canonical_ofScientific negative m e)

theorem read_power (m : Nat) (e : Int) {t : String}
    (h : (Value.ofFields (powerFields (.float (.ofScientific false m e)))).json .tree = .ok t) :
    Json.read t = .ok (.ofFields (powerFields (.float (.ofScientific false m e)))) := by
  have hfloat : (Value.float (.ofScientific false m e)).Read :=
    .of_leaf ⟨Binary64.canonical_ofScientific false m e,
      fun p hp => absurd hp (Binary64.ofScientific_ne_nan false m e p)⟩ nofun
  refine Json.read_again Json.Style.tree_marked ?_ h
  simp [powerFields, Value.ofFields_eq, Value.Throughout.map_iff, Value.Throughout.text_iff, Value.IsRead, hfloat]

/-- a number with a point and a sign in its exponent is shared -/
theorem power_read_alike :
    Json.read (powerText "2.5e+16") = .ok (.ofFields (powerFields (.float (.ofScientific false 25 15)))) ∧
    Json.SharedText (powerText "2.5e+16").toList ∧
    ofText workshop 0 (powerText "2.5e+16") none = .ok (power (.float (.ofScientific false 25 15))) := by
  have hread : Json.read (powerText "2.5e+16") = .ok (.ofFields (powerFields (.float (.ofScientific false 25 15)))) :=
    read_power 25 15 rfl
  have hshared : Json.SharedText (powerText "2.5e+16").toList := by decide
  refine ⟨hread, hshared, (ofText_of_json hread hshared workshop 0 none).trans ?_⟩
  exact ofDocument_power (plain_ofScientific false 25 15 (by decide)) (by simp) (toFields_power_float _)

theorem yamlRead_power : Yaml.read (powerText "1e+16") = .ok (.ofFields (powerFields (.text "1e+16"))) := by
  have htokens : Yaml.tokens (powerText "1e+16").toList =
      [.flowMapping, .key, .scalar "name".toList false, .value, .scalar "power".toList false, .comma,
        .key, .scalar "attributes".toList false, .value, .flowMapping, .key, .scalar "watts".toList false, .value,
        .flowMapping, .key, .scalar "default".toList false, .value, .scalar "1e+16".toList true,
        .flowMappingEnd, .flowMappingEnd, .flowMappingEnd] := by rfl
  have hnode : Yaml.Node.ofText (powerText "1e+16").toList =
      .ok (some (.mapping .hash [(.scalar .text "name".toList, .scalar .text "power".toList),
        (.scalar .text "attributes".toList, .mapping .hash [(.scalar .text "watts".toList,
          .mapping .hash [(.scalar .text "default".toList, .scalar .text "1e+16".toList)])])])) := by
    rw [Yaml.Node.ofText, if_pos (by decide), htokens]
    rfl
  have htext (s : String) : Yaml.Makes (.scalar .text s.toList) (.text s) :=
    Yaml.makes_scalar rfl (by rw [Yaml.scalarValue, String.ofList_toList])
  have hfield {k : String} {n : Yaml.Node} {v : Value} (h : Yaml.Makes n v) :
      Yaml.Makes (.mapping .hash [(.scalar .text k.toList, n)]) (.ofFields [(k, v)]) :=
    Yaml.makes_mapping (.cons ⟨rfl, h⟩ .nil) (by simp)
  refine Yaml.read_of_makes hnode (Yaml.makes_mapping (.cons ⟨rfl, htext "power"⟩ (.cons ⟨rfl, ?_⟩ .nil)) (by simp))
  exact hfield (k := "watts") (hfield (k := "default") (htext "1e+16"))

/-- **Not every JSON text is read as JSON**: a default that is printed with an exponent, but without a point, is read
as a text, so that what is shown of a definition in JSON does not give the definition again, although its value does. -/
theorem power_read_otherwise : ∃ es, Json.read (powerText "1e+16") = .ok (.map false es) ∧
    ofDocument workshop 0 (.map false es) none none = .ok (power (.float (.ofScientific false 1 16))) ∧
    ((power (.float (.ofScientific false 1 16))).toValue .builtin >>= fun v => v.json .tree) = .ok (powerText "1e+16") ∧
    ofText workshop 0 (powerText "1e+16") none = .ok (power (.text "1e+16")) ∧
    (power (.text "1e+16")).toValue .builtin ≠ (power (.float (.ofScientific false 1 16))).toValue .builtin := by
  have hread : Json.read (powerText "1e+16") = .ok (.ofFields (powerFields (.float (.ofScientific false 1 16)))) :=
    read_power 1 16 rfl
  have hdocument : documentOf none (powerText "1e+16") = .ok (.ofFields (powerFields (.text "1e+16"))) := by
    rw [documentOf, yamlRead_power]
    rfl
  refine ⟨_, hread, ofDocument_power (plain_ofScientific false 1 16 (by decide)) (by simp) (toFields_power_float _),
    rfl, ?_, ?_⟩
  · rw [ofText, hdocument, ok_bind]
    exact ofDocument_power (.text _) (by simp) (toFields_power_text _)
  · simp [toValue, toFields_power_text, toFields_power_float, powerFields, Value.ofFields, Except.map]

end Definition

end Intake
