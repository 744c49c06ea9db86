/-
The part of JSON that YAML 1.1 reads alike.

Not every JSON text reads in YAML as it does in JSON. `SharedText` says of a text that it has nothing in it that tells
the two apart:
- a character that no document holds or that ends a line in YAML only, or a tab, which separates nothing there;
- the escapes of two halves of a pair, which YAML does not put together;
- a key whose colon stands on another line, or further from its opening quote than a key may be;
- a number with an exponent that has no point before it or no sign in it, and a name of an infinity or of no number,
  which are texts in YAML.

A text is scanned from quote to quote and from word to word (`scan`), so that what it holds between quotes does not
count as a word. Whatever is left of it after a token is shared too (`SharedText.tail`, `SharedText.quoted`,
`SharedText.word`).
-/
import Intake.Proofs.Json.Notation
import Intake.Yaml.Token
import Intake.Yaml.Node

namespace Intake.Json

open Intake.Text Intake.Number

/-! ## Texts and words -/

/-- a character that reads alike wherever it may stand -/
def isSharedChar (c : Char) : Bool := Yaml.isDocumentChar c && c != '\t' && (c == '\n' || !Yaml.isBreak c)

/-- what stands up to the closing quote, and what follows it -/
def insideQuotes : List Char → List Char × List Char
  | [] => ([], [])
  | '"' :: cs => ([], cs)
  | '\\' :: e :: cs => ('\\' :: e :: (insideQuotes cs).1, (insideQuotes cs).2)
  | c :: cs => (c :: (insideQuotes cs).1, (insideQuotes cs).2)

def opensHalf (isHalf : Nat → Bool) : List Char → Bool
  | '\\' :: 'u' :: cs => ((unit? cs).map fun n => isHalf n.1).getD false
  | _ => false

/-- the escapes of two halves of a pair, one after the other -/
def hasEscapedPair : List Char → Bool
  | [] => false
  | '\\' :: e :: cs => (opensHalf isHigh ('\\' :: e :: cs) && opensHalf isLow (cs.drop 4)) || hasEscapedPair cs
  | _ :: cs => hasEscapedPair cs

/-- if a colon follows, it stands on the line of a key and within its reach -/
def keyFits (inside after : List Char) : Bool :=
  (skip after).head? != some ':' || ((after.takeWhile isBlank).all (· == ' ') &&
    decide (inside.length + 2 + (after.takeWhile isBlank).length ≤ Yaml.Lexer.keyReach))

def isWordChar (c : Char) : Bool := c.isAlphanum || c == '-' || c == '+' || c == '.'

/-- an exponent stands with its sign and after a point -/
def hasFullExponent (w : List Char) : Bool :=
  match w.dropWhile fun c => c != 'e' && c != 'E' with
  | [] => true
  | _ :: sign :: _ => (sign == '-' || sign == '+') && w.contains '.'
  | _ => false

def isSharedWord (w : List Char) : Bool :=
  ["null", "true", "false"].contains (String.ofList w) || (w.any Char.isDigit && hasFullExponent w)

/-- what stands between quotes and what stands as a word reads alike, after some characters that are passed over -/
def scan : Nat → List Char → Bool
  | _, [] => true
  | passed + 1, _ :: cs => scan passed cs
  | 0, c :: cs =>
    if c = '"' then
      !hasEscapedPair (insideQuotes cs).1 && keyFits (insideQuotes cs).1 (insideQuotes cs).2 &&
        scan ((insideQuotes cs).1.length + 1) cs
    else if isWordChar c then isSharedWord (c :: cs.takeWhile isWordChar) && scan (cs.takeWhile isWordChar).length cs
    else scan 0 cs

/-- **A text that reads in YAML as it does in JSON**, if it reads in JSON -/
structure SharedText (cs : List Char) : Prop where
  chars : ∀ c ∈ cs, isSharedChar c = true
  scanned : scan 0 cs = true

instance (cs : List Char) : Decidable (SharedText cs) :=
  decidable_of_iff (cs.all isSharedChar = true ∧ scan 0 cs = true)
    ⟨fun h => ⟨List.all_eq_true.1 h.1, h.2⟩, fun h => ⟨List.all_eq_true.2 h.chars, h.scanned⟩⟩

variable {cs w s rest : List Char} {c : Char}

/-! ## From token to token -/

theorem scan_eq_drop (n : Nat) (cs : List Char) : scan n cs = scan 0 (cs.drop n) := by
  induction n generalizing cs with
  | zero => rfl
  | succ n ih =>
    cases cs with
    | nil => rfl
    | cons c cs => exact ih cs

namespace SharedText

theorem tail (h : SharedText (c :: cs)) (hquote : c ≠ '"') (hword : isWordChar c = false) : SharedText cs := by
  refine ⟨fun d hd => h.chars d (List.mem_cons_of_mem c hd), ?_⟩
  have := h.scanned
  rwa [scan, if_neg hquote, if_neg (by rw [hword]; exact Bool.false_ne_true)] at this

theorem skip (h : SharedText cs) : SharedText (Json.skip cs) := by
  induction cs with
  | nil => exact h
  | cons c cs ih =>
    unfold Json.skip at ih ⊢
    rw [List.dropWhile_cons]
    split
    · next hblank =>
      have hkind : c ≠ '"' ∧ isWordChar c = false := by
        simp only [isBlank, Bool.or_eq_true, beq_iff_eq] at hblank
        rcases hblank with ((rfl | rfl) | rfl) | rfl <;> decide
      exact ih (h.tail hkind.1 hkind.2)
    · exact h

/-- a run of word characters is a word, and what follows it is shared -/
theorem word (h : SharedText (w ++ rest)) (hw : ∀ c ∈ w, isWordChar c = true) (hn : w ≠ []) (hr : Stops isWordChar rest) :
    isSharedWord w = true ∧ SharedText rest := by
  obtain ⟨c, w, rfl⟩ := List.exists_cons_of_ne_nil hn
  obtain ⟨hc, hw⟩ := List.forall_mem_cons.1 hw
  have hquote : c ≠ '"' := by
    rintro rfl
    exact absurd hc (by decide)
  have hscan := h.scanned
  rw [List.cons_append, scan, if_neg hquote, if_pos hc, takeWhile_append_of_stops hw hr, Bool.and_eq_true, scan_eq_drop,
    List.drop_left] at hscan
  exact ⟨hscan.1, fun d hd => h.chars d (List.mem_append_right _ hd), hscan.2⟩

end SharedText

/-! ## Between quotes -/

theorem ne_of_baseDigit? {base d : Nat} (h : baseDigit? base c = some d) : c ≠ '"' ∧ c ≠ '\\' := by
  have hvalue : hexValue? '"' = none ∧ hexValue? '\\' = none := by decide
  obtain ⟨hhex, -⟩ := Option.filter_eq_some_iff.1 h
  constructor
  · rintro rfl
    rw [hvalue.1] at hhex
    cases hhex
  · rintro rfl
    rw [hvalue.2] at hhex
    cases hhex

theorem insideQuotes_cons (hquote : c ≠ '"') (hescape : c ≠ '\\') (cs : List Char) :
    insideQuotes (c :: cs) = (c :: (insideQuotes cs).1, (insideQuotes cs).2) := by
  rw [insideQuotes]
  · exact hquote
  · rintro e cs rfl
    exact absurd rfl hescape

theorem insideQuotes_escape (e : Char) (cs : List Char) :
    insideQuotes ('\\' :: e :: cs) = ('\\' :: e :: (insideQuotes cs).1, (insideQuotes cs).2) := by
  rw [insideQuotes]

theorem insideQuotes_digits {base n : Nat} {ds : List Char} (h : ofBaseDigits? base ds = some n) (cs : List Char) :
    insideQuotes (ds ++ cs) = (ds ++ (insideQuotes cs).1, (insideQuotes cs).2) := by
  have hdigits : ∀ c ∈ ds, c ≠ '"' ∧ c ≠ '\\' := by
    intro c hc
    obtain ⟨d, hd⟩ := baseDigit?_of_mem h hc
    exact ne_of_baseDigit? hd
  clear h
  induction ds with
  | nil => rfl
  | cons d ds ih =>
    obtain ⟨hd, hds⟩ := List.forall_mem_cons.1 hdigits
    rw [List.cons_append, insideQuotes_cons hd.1 hd.2, ih hds]
    rfl

theorem insideQuotes_written (h : TextWritten w s) (rest : List Char) : insideQuotes (w ++ '"' :: rest) = (w, rest) := by
  induction h with
  | nil => rfl
  | char hquote hescape _ _ ih => rw [List.cons_append, insideQuotes_cons hquote hescape, ih]
  | letter _ _ ih => rw [List.cons_append, List.cons_append, insideQuotes_escape, ih]
  | number hn _ ih =>
    have hdigits := insideQuotes_digits hn
    simp only [List.cons_append, List.nil_append] at hdigits ⊢
    rw [insideQuotes_escape, hdigits, ih]
  | pair hn hm _ _ _ ih =>
    have hdigits := insideQuotes_digits hn
    have hdigits' := insideQuotes_digits hm
    simp only [List.cons_append, List.nil_append] at hdigits hdigits' ⊢
    rw [insideQuotes_escape, hdigits, insideQuotes_escape, hdigits', ih]

/-- **A text between quotes has no pair of escapes in it, its colon fits if it is a key, and what follows it is
shared.** -/
theorem SharedText.quoted (h : SharedText ('"' :: (w ++ '"' :: rest))) (hw : TextWritten w s) :
    hasEscapedPair w = false ∧ keyFits w rest = true ∧ SharedText rest := by
  have hscan := h.scanned
  rw [scan, if_pos rfl, insideQuotes_written hw, scan_eq_drop] at hscan
  simp only [Bool.and_eq_true, Bool.not_eq_true'] at hscan
  obtain ⟨⟨hpair, hkey⟩, hrest⟩ := hscan
  refine ⟨hpair, hkey, fun d hd => h.chars d (by simp [hd]), ?_⟩
  rwa [List.drop_append, List.drop_eq_nil_of_le (Nat.le_succ _), Nat.add_sub_cancel_left] at hrest

/-! ## Pairs of escapes -/

theorem hasEscapedPair_cons (hescape : c ≠ '\\') (cs : List Char) : hasEscapedPair (c :: cs) = hasEscapedPair cs := by
  rw [hasEscapedPair]
  rintro e cs rfl
  exact absurd rfl hescape

/-- after an escape there is no pair, if there is none at it -/
theorem hasEscapedPair_escape {e : Char} (h : hasEscapedPair ('\\' :: e :: cs) = false) : hasEscapedPair cs = false := by
  rw [hasEscapedPair, Bool.or_eq_false_iff] at h
  exact h.2

theorem hasEscapedPair_digits {base n : Nat} {ds : List Char} (h : ofBaseDigits? base ds = some n) (cs : List Char) :
    hasEscapedPair (ds ++ cs) = hasEscapedPair cs := by
  have hdigits : ∀ c ∈ ds, c ≠ '\\' := by
    intro c hc
    obtain ⟨d, hd⟩ := baseDigit?_of_mem h hc
    exact (ne_of_baseDigit? hd).2
  clear h
  induction ds with
  | nil => rfl
  | cons d ds ih =>
    obtain ⟨hd, hds⟩ := List.forall_mem_cons.1 hdigits
    rw [List.cons_append, hasEscapedPair_cons hd, ih hds]

theorem hasEscapedPair_pair {a b c d a' b' c' d' : Char} {n m : Nat} (hn : ofBaseDigits? 16 [a, b, c, d] = some n)
    (hm : ofBaseDigits? 16 [a', b', c', d'] = some m) (hhigh : isHigh n = true) (hlow : isLow m = true) (cs : List Char) :
    hasEscapedPair ('\\' :: 'u' :: a :: b :: c :: d :: '\\' :: 'u' :: a' :: b' :: c' :: d' :: cs) = true := by
  have hfirst :
      opensHalf isHigh ('\\' :: 'u' :: a :: b :: c :: d :: '\\' :: 'u' :: a' :: b' :: c' :: d' :: cs) = true := by
    simp only [opensHalf, unit?, hn, Option.map_some, Option.getD_some, hhigh]
  have hsecond : opensHalf isLow ('\\' :: 'u' :: a' :: b' :: c' :: d' :: cs) = true := by
    simp only [opensHalf, unit?, hm, Option.map_some, Option.getD_some, hlow]
  rw [hasEscapedPair, hfirst]
  exact Bool.or_eq_true_iff.2 (.inl hsecond)

end Intake.Json
