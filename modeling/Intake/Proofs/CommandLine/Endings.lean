/-
How a run of `validate` ends.

What a run prints to the standard output and how it ends depend on nothing that was printed before (`Ends`), so the run is
taken apart into its steps: the definition is loaded (`ends_load`), the input is read (`ends_readInput`), and the
parameters are parsed and printed (`ends_validate`). Only the last step prints. What it prints is one line of JSON,
which has no control character that a terminal would take out (`ends_sayLine_json`).

How deep calls may go depends on what made the first of them, and not every text has a form that can be printed. So the
classification is of runs that stay far from every limit and have whole characters only (`Followed`).

Results:
- `status_classifies`: the status and the output tell which step ended a run, but for a fault, which ends it with the
  status of rejected input;
- `long_integer_crashes`: an integer of more digits than a numeral may have is such a fault of the reading of the input.
-/
import Intake.CommandLine.Run
import Intake.Proofs.Json.Nesting
import Intake.Proofs.Json.Reading
import Intake.Proofs.Refusing

namespace Intake.CommandLine

open Intake.Outcome

/-! ## Runs step by step -/

/-- a run ends so, whatever was printed before, and prints a text to the standard output -/
def Ends {α : Type} (x : Run α) (r : Except Stop α) (said : String) : Prop :=
  ∀ p : Printed, ∃ err, x.run.run p = (r, ⟨p.out ++ said, err⟩)

section Steps

variable {α β : Type} {x : Run α} {f : α → Run β} {s t : String}

theorem ends_pure (a : α) : Ends (pure a) (.ok a) "" := fun p => ⟨p.err, by rw [String.append_empty]; rfl⟩

theorem ends_throw (e : Stop) : Ends (throw e : Run α) (.error e) "" := fun p => ⟨p.err, by rw [String.append_empty]; rfl⟩

theorem Ends.bind_ok {a : α} {r : Except Stop β} (hx : Ends x (.ok a) s) (hf : Ends (f a) r t) :
    Ends (x >>= f) r (s ++ t) := by
  intro p
  obtain ⟨err, hrun⟩ := hx p
  obtain ⟨err', hrun'⟩ := hf ⟨p.out ++ s, err⟩
  refine ⟨err', ?_⟩
  rw [← String.append_assoc, ExceptT.run_bind, StateT.run_bind, hrun]
  exact hrun'

/-- a step that prints nothing is no matter to the output -/
theorem Ends.silent_bind {a : α} {r : Except Stop β} (hx : Ends x (.ok a) "") (hf : Ends (f a) r t) :
    Ends (x >>= f) r t := by
  have h := hx.bind_ok hf
  rwa [String.empty_append] at h

theorem Ends.bind_error {e : Stop} (hx : Ends x (.error e) s) : Ends (x >>= f) (.error e) s := by
  intro p
  obtain ⟨err, hrun⟩ := hx p
  refine ⟨err, ?_⟩
  rw [ExceptT.run_bind, StateT.run_bind, hrun]
  rfl

theorem ends_tell (v : Nat) (n : Notice) : Ends (tell v n) (.ok ()) "" := by
  intro p
  unfold tell
  split
  · exact ⟨p.err ++ n.line, by rw [String.append_empty]; rfl⟩
  · exact ⟨p.err, by rw [String.append_empty]; rfl⟩

theorem ends_tellAll (v : Nat) (ns : List Notice) :
    Ends (forIn ns () fun n _ => do tell v n; return ForInStep.yield ()) (.ok ()) "" := by
  induction ns with
  | nil => exact ends_pure _
  | cons n ns ih =>
    rw [List.forIn_cons, bind_assoc]
    exact (ends_tell v n).silent_bind ((ends_pure _).silent_bind ih)

theorem ends_fail (message : String) : Ends (fail message : Run α) (.error (.status 2)) "" := by
  intro p
  exact ⟨p.err ++ plainText ("Error: " ++ message ++ "\n"), by rw [String.append_empty]; rfl⟩

theorem ends_orStop (o : Outcome α) : Ends (orStop o) (o.mapError .fault) "" := by
  cases o with
  | ok a => exact ends_pure a
  | error f => exact ends_throw _

/-- how a fault of the definition stops a run: a definition that is refused has a status of its own -/
def stopOf : Fault → Stop
  | .definition _ => .status 2
  | f => .fault f

theorem ends_orRefuse (o : Outcome α) : Ends (orRefuse o) (o.mapError stopOf) "" := by
  cases o with
  | ok a => exact ends_pure a
  | error f =>
    cases f with
    | definition e => exact ends_fail _
    | _ => exact ends_throw _

end Steps

/-! ## One line of JSON -/

theorem afterSequence_eq_none {c : Char} {cs : List Char} (h : c ≠ '\x1b') : afterSequence (c :: cs) = none := by
  unfold afterSequence
  split
  · next heq => exact absurd (List.cons.inj heq).1 h
  · rfl

theorem withoutSequences_eq_self {cs : List Char} (h : '\x1b' ∉ cs) : withoutSequences cs = cs := by
  induction cs with
  | nil => unfold withoutSequences; rfl
  | cons c cs ih =>
    obtain ⟨hc, hcs⟩ := not_or.1 (mt List.mem_cons.2 h)
    unfold withoutSequences
    split
    · next heq =>
      rw [afterSequence_eq_none (Ne.symm hc)] at heq
      cases heq
    · simp only [ih hcs]

theorem ends_sayLine_json {v : Value} {style : Json.Style} (hs : style.OnOneLine) {text : String}
    (h : v.json style = .ok text) :
    Ends (sayLine text) (.ok ()) (text ++ "\n") := by
  obtain ⟨cs, hcs, htext⟩ := bind_eq_ok.1 h
  cases htext
  have hclear := Json.print_clear hs hcs
  have hplain : plainText (String.ofList cs ++ "\n") = String.ofList cs ++ "\n" := by
    have hchars : (String.ofList cs ++ "\n").toList = cs ++ ['\n'] := by simp
    rw [plainText, hchars, withoutSequences_eq_self, ← hchars, String.ofList_toList]
    rw [List.mem_append, not_or]
    exact ⟨fun hmem => absurd (hclear _ hmem) (by decide), by decide⟩
  intro p
  exact ⟨p.err, by rw [sayLine, say, hplain]; rfl⟩

/-! ## The steps of `validate` -/

theorem ends_load (verbosity : Nat) (path : Path) (found : Entry) :
    Ends (load verbosity path found) ((Definition.ofFile workshop 0 path found none).mapError stopOf) "" := by
  unfold load Definition.ofFile
  have hdocument := ends_orRefuse (Definition.fileDocument path found)
  cases hfile : Definition.fileDocument path found with
  | error f =>
    rw [hfile] at hdocument
    exact hdocument.bind_error
  | ok v =>
    rw [hfile] at hdocument
    refine hdocument.silent_bind ?_
    dsimp only
    refine (ends_tellAll _ _).silent_bind ?_
    have hbuilt := ends_orRefuse (Definition.ofDocument workshop 0 v (Definition.nameInFile path v none) none)
    rw [ok_bind]
    cases hd : Definition.ofDocument workshop 0 v (Definition.nameInFile path v none) none with
    | error f =>
      rw [hd] at hbuilt
      exact hbuilt.bind_error
    | ok d =>
      rw [hd] at hbuilt
      exact hbuilt.silent_bind ((ends_tell _ _).silent_bind (ends_pure d))

/-- what an input holds: no input is an empty mapping, and a file is read where it is there -/
inductive Holds (look : Path → Entry) : Option String → Json.Read Value → Prop where
  | none : Holds look none (.ok (.map false []))
  | given {s : String} (h : Command.inputPath? s = none) : Holds look (some s) (Json.read s)
  | file {s text : String} {path : Path} (hp : Command.inputPath? s = some path) (hf : look path = .file text) :
    Holds look (some s) (Json.read (readText text))

def inputEnd : Json.Read Value → Except Stop Value
  | .ok (.map _ es) => .ok (.map false es)
  | .ok _ => .error (.status 2)
  | .error .malformed => .error (.status 2)
  | .error .tooLong => .error (.fault .badValue)

theorem ends_readInput {look : Path → Entry} {input : Option String} {held : Json.Read Value}
    (h : Holds look input held) :
    Ends (readInput look input) (inputEnd held) "" := by
  have step {s t text : String} (htext : Ends (inputText look s) (.ok (text, t)) "") :
      Ends (readInput look (some s)) (inputEnd (Json.read text)) "" := by
    refine htext.silent_bind ?_
    dsimp only
    split
    · next hread => rw [hread]; exact ends_pure _
    · next v hmap hread =>
      rw [hread]
      have hend : inputEnd (.ok v) = .error (.status 2) := by
        unfold inputEnd
        split
        · next heq => exact absurd (Except.ok.inj heq) (hmap _ _)
        · rfl
        · next heq => cases heq
        · next heq => cases heq
      rw [hend]
      exact ends_fail _
    · next hread => rw [hread]; exact ends_fail _
    · next hread => rw [hread]; exact ends_throw _
  cases h with
  | none => exact ends_pure _
  | @given s h =>
    refine step (s := s) (t := "--input") ?_
    rw [inputText, h]
    exact ends_pure _
  | @file s text path hp hf =>
    refine step (s := s) (t := "input file") ?_
    simp only [inputText, hp, hf]
    exact ends_pure _

/-- what is held is as reading makes it, so a mapping can be written to -/
theorem Holds.read {look : Path → Entry} {input : Option String} {v : Value} (h : Holds look input (.ok v)) : v.Read := by
  generalize hheld : (.ok v : Json.Read Value) = held at h
  cases h with
  | none =>
    cases hheld
    exact Value.Throughout.map_iff.2 ⟨⟨rfl, by simp, .nil⟩, by simp⟩
  | given _ => exact Json.read_isRead hheld.symm
  | file _ _ => exact Json.read_isRead hheld.symm

/-! ## What a run follows -/

/-- how many levels a run follows, with many calls for each -/
def levels : Nat := 20

/-- every escape that names the first half of a surrogate pair stands before one that names the second, for which it
waits, and the second half of a pair stands nowhere else -/
def paired : Bool → List Char → Bool
  | waiting, '\\' :: 'u' :: a :: b :: c :: d :: cs =>
    match Number.ofBaseDigits? 16 [a, b, c, d] with
    | some n => (Json.isLow n == waiting) && paired (Json.isHigh n) cs
    | none => !waiting && paired false cs
  | waiting, '\\' :: _ :: cs => !waiting && paired false cs
  | waiting, _ :: cs => !waiting && paired false cs
  | waiting, [] => !waiting

/-- a text that is read on few levels into whole characters -/
structure TextFollowed (s : String) : Prop where
  flat : Json.nesting 0 false s.toList ≤ levels
  paired : paired false s.toList = true

/-- the text of an input, if there is one, is read so -/
def InputFollowed (look : Path → Entry) : Option String → Prop
  | none => True
  | some s =>
    match Command.inputPath? s with
    | none => TextFollowed s
    | some path => ∀ text, look path = .file text → TextFollowed (readText text)

/-- an escape of a document that names half of a surrogate pair -/
def namesHalf : List Char → Bool
  | '\\' :: 'u' :: a :: b :: c :: d :: _ => isHalf [a, b, c, d]
  | '\\' :: 'U' :: a :: b :: c :: d :: e :: f :: g :: h :: _ => isHalf [a, b, c, d, e, f, g, h]
  | _ => false
where
  isHalf (ds : List Char) : Bool := (Number.ofBaseDigits? 16 ds).any fun n => Json.isHigh n || Json.isLow n

/-- a definition file that is read on few levels into whole characters: it has few brackets and its lines begin early,
so that this holds up to where it breaks off, too. Its patterns have few groups and ask for no character by its name -/
structure FileFollowed (path : Path) (found : Entry) : Prop where
  brackets : ∀ text, found = .file text → text.toList.countP (fun c => c == '[' || c == '\x7b') ≤ 300
  lines : ∀ text, found = .file text → ∀ line ∈ text.toList.splitOnP Yaml.endsLine,
    (line.takeWhile fun c => c == ' ' || c == '-' || c == '?' || c == ':').length ≤ 40
  whole : ∀ text, found = .file text → text.toList.tails.any namesHalf = false
  flat : ∀ v, Definition.fileDocument path found = .ok v → v.calls ≤ levels
  groups : ∀ v, Definition.fileDocument path found = .ok v → v.Throughout fun x => ∀ s, x.text? = some s →
    Value.FewGroups s
  kept : Definition.ofFile workshop 0 path found none ≠ .error .notKept

/-- the texts that a run reads are followed to their ends -/
structure Followed (look : Path → Entry) (v : Validation) : Prop where
  file : FileFollowed v.file (look v.file)
  input : InputFollowed look v.input

/-- what is held is nested on few levels, if its text is followed -/
theorem Holds.shallow {look : Path → Entry} {input : Option String} {v : Value} (h : Holds look input (.ok v))
    (hinput : InputFollowed look input) : v.Shallow := by
  have of_text {s : String} (hs : TextFollowed s) (hv : Json.read s = .ok v) : v.Shallow :=
    Nat.le_trans (Json.calls_le_nesting hv) (Nat.le_trans hs.flat (by decide))
  generalize hheld : (.ok v : Json.Read Value) = held at h
  cases h with
  | none =>
    cases hheld
    exact Nat.le_of_lt_succ (by decide)
  | given hp =>
    rw [InputFollowed, hp] at hinput
    exact of_text hinput hheld.symm
  | file hp hf =>
    rw [InputFollowed, hp] at hinput
    exact of_text (hinput _ hf) hheld.symm

/-! ## The course of a run -/

/-- how a run goes on from what the parameters are parsed to, and what it prints: the values, if it is not quiet, or
the report -/
def finish (v : Validation) : Outcome Instance → Except Stop Unit × String
  | .ok p =>
    if v.quiet then (.ok (), "")
    else
      match (Parsed.toHash p v.recursive).json .line with
      | .ok text => (.ok (), text ++ "\n")
      | .error f => (.error (.fault f), "")
  | .error (.rejected r) =>
    match r.payload.json .compact with
    | .ok text => (.error (.status 1), text ++ "\n")
    | .error f => (.error (.fault f), "")
  | .error f => (.error (.fault f), "")

/-- a definition is loaded, the input is a mapping, and this comes of the parse -/
def Parses (loaded : Outcome Definition) (held : Json.Read Value) (o : Outcome Instance) : Prop :=
  ∃ d es, loaded = .ok d ∧ held = .ok (.map false es) ∧ d.parse .builtin 0 (.map false es) = o

/-- the courses that a run can take, with its end and its output: the definition is not loaded, or the input is no
mapping, or the parameters are parsed -/
inductive Course (loaded : Outcome Definition) (held : Json.Read Value) (v : Validation) :
    Except Stop Unit → String → Prop where
  | unloaded {f : Fault} (hl : loaded = .error f) : Course loaded held v (.error (stopOf f)) ""
  | unread {d : Definition} {e : Stop} (hl : loaded = .ok d) (hi : inputEnd held = .error e) :
    Course loaded held v (.error e) ""
  | parsed {o : Outcome Instance} (hp : Parses loaded held o) : Course loaded held v (finish v o).1 (finish v o).2

theorem inputEnd_ok {held : Json.Read Value} {data : Value} (h : inputEnd held = .ok data) :
    ∃ readOnly es, held = .ok (.map readOnly es) ∧ data = .map false es := by
  unfold inputEnd at h
  split at h
  · cases h
    exact ⟨_, _, rfl, rfl⟩
  all_goals cases h

theorem Course.unique {loaded : Outcome Definition} {held : Json.Read Value} {v : Validation} {e e' : Except Stop Unit}
    {said said' : String} (h : Course loaded held v e said) (h' : Course loaded held v e' said') :
    e = e' ∧ said = said' := by
  cases h with
  | unloaded hl =>
    subst hl
    cases h' with
    | unloaded hl' => cases hl'; exact ⟨rfl, rfl⟩
    | unread hl' _ => cases hl'
    | parsed hp => obtain ⟨d, es, hl', -, -⟩ := hp; cases hl'
  | unread hl hi =>
    subst hl
    cases h' with
    | unloaded hl' => cases hl'
    | unread _ hi' =>
      rw [hi] at hi'
      cases hi'
      exact ⟨rfl, rfl⟩
    | parsed hp =>
      obtain ⟨d, es, -, rfl, -⟩ := hp
      cases hi
  | parsed hp =>
    obtain ⟨d, es, rfl, rfl, rfl⟩ := hp
    cases h' with
    | unloaded hl' => cases hl'
    | unread _ hi' => cases hi'
    | parsed hp' =>
      obtain ⟨d', es', hl', hi', rfl⟩ := hp'
      cases hl'
      cases hi'
      exact ⟨rfl, rfl⟩

theorem ends_finish (v : Validation) (verbosity : Nat) (d : Definition) (data : Value) :
    Ends (do
      let p ← parsed verbosity d data
      tell verbosity (.accepted d.name)
      if v.quiet then return
      sayLine (← orStop ((Parsed.toHash p v.recursive).json .line)))
      (finish v (d.parse .builtin 0 data)).1 (finish v (d.parse .builtin 0 data)).2 := by
  unfold parsed workshop
  dsimp only
  cases d.parse .builtin 0 data with
  | ok p =>
    refine (ends_pure p).silent_bind ((ends_tell _ _).silent_bind ?_)
    unfold finish
    dsimp only
    split
    · exact ends_pure ()
    · have hjson := ends_orStop ((Parsed.toHash p v.recursive).json .line)
      cases hj : (Parsed.toHash p v.recursive).json .line with
      | error f => rw [hj] at hjson; exact hjson.bind_error
      | ok text => rw [hj] at hjson; exact hjson.silent_bind (ends_sayLine_json Json.Style.line_onOneLine hj)
  | error f =>
    cases f with
    | rejected r =>
      have hjson := ends_orStop (r.payload.json .compact)
      dsimp only [finish]
      cases hj : r.payload.json .compact with
      | error f =>
        rw [hj] at hjson
        exact Ends.bind_error ((ends_tell _ _).silent_bind hjson.bind_error)
      | ok text =>
        rw [hj] at hjson
        have hline := ends_sayLine_json Json.Style.compact_onOneLine hj
        have hends := hline.bind_ok (f := fun _ => (throw (.status 1) : Run Instance)) (ends_throw _)
        rw [String.append_empty] at hends
        exact Ends.bind_error ((ends_tell _ _).silent_bind (hjson.silent_bind hends))
    | _ => exact (ends_throw _).bind_error

/-- **A run of `validate` takes one of these courses.** -/
theorem ends_validate {look : Path → Entry} {v : Validation} {held : Json.Read Value} (hheld : Holds look v.input held) :
    ∃ e said, Course (Definition.ofFile workshop 0 v.file (look v.file) none) held v e said ∧
    Ends (validate look v) e said := by
  unfold validate
  have hload := ends_load (if v.quiet then 0 else v.verbosity) v.file (look v.file)
  generalize hl : Definition.ofFile workshop 0 v.file (look v.file) none = loaded at hload
  cases loaded with
  | error f => exact ⟨_, _, .unloaded rfl, hload.bind_error⟩
  | ok d =>
    have hinput := ends_readInput hheld
    cases hi : inputEnd held with
    | error e =>
      rw [hi] at hinput
      exact ⟨_, _, .unread rfl hi, hload.silent_bind hinput.bind_error⟩
    | ok data =>
      rw [hi] at hinput
      obtain ⟨readOnly, es, rfl, rfl⟩ := inputEnd_ok hi
      obtain rfl : readOnly = false := hheld.read.here.1
      exact ⟨_, _, .parsed ⟨d, es, rfl, rfl, rfl⟩, hload.silent_bind (hinput.silent_bind (ends_finish v _ d _))⟩

/-! ## What each course is taken for -/

section Causes

variable {loaded : Outcome Definition} {held : Json.Read Value} {v : Validation} {e : Except Stop Unit} {said : String}

/-- the definition is refused, or the input is no mapping -/
def Unusable (loaded : Outcome Definition) (held : Json.Read Value) : Prop :=
  (∃ err, loaded = .error (.definition err)) ∨
    (∃ d, loaded = .ok d) ∧ (held = .error .malformed ∨ ∃ x, held = .ok x ∧ ∀ readOnly es, x ≠ .map readOnly es)

/-- the parse is rejected with a report, which has a text -/
def Rejects (loaded : Outcome Definition) (held : Json.Read Value) (text : String) : Prop :=
  ∃ r, Parses loaded held (.error (.rejected r)) ∧ r.payload.json .compact = .ok text

/-- the parse succeeds, and its values have a text where they are to be printed -/
def Accepts (loaded : Outcome Definition) (held : Json.Read Value) (v : Validation) (text : String) : Prop :=
  ∃ p, Parses loaded held (.ok p) ∧
    if v.quiet then text = "" else ∃ line, (Parsed.toHash p v.recursive).json .line = .ok line ∧ text = line ++ "\n"

/-- what a fault of a run comes from: the definition, a number in the input that is too long, the parse, or what is to be
printed -/
inductive Faults (loaded : Outcome Definition) (held : Json.Read Value) (v : Validation) : Fault → Prop where
  | loading {f : Fault} (hl : loaded = .error f) (hf : ∀ e, f ≠ .definition e) : Faults loaded held v f
  | reading {d : Definition} (hl : loaded = .ok d) (hi : held = .error .tooLong) : Faults loaded held v .badValue
  | parsing {f : Fault} (hp : Parses loaded held (.error f)) (hf : ∀ r, f ≠ .rejected r) : Faults loaded held v f
  | reporting {r : Report} {f : Fault} (hp : Parses loaded held (.error (.rejected r)))
    (hj : r.payload.json .compact = .error f) :
    Faults loaded held v f
  | printing {p : Instance} {f : Fault} (hp : Parses loaded held (.ok p)) (hq : v.quiet = false)
    (hj : (Parsed.toHash p v.recursive).json .line = .error f) : Faults loaded held v f

theorem stopOf_of_ne {f : Fault} (hf : ∀ e, f ≠ .definition e) : stopOf f = .fault f := by
  cases f with
  | definition e => exact absurd rfl (hf e)
  | _ => rfl

theorem finish_of_ne {f : Fault} (hf : ∀ r, f ≠ .rejected r) : finish v (.error f) = (.error (.fault f), "") := by
  cases f with
  | rejected r => exact absurd rfl (hf r)
  | _ => rfl

/-- each course ends a run in one of four ways, and is taken for one of four causes -/
inductive Cause (loaded : Outcome Definition) (held : Json.Read Value) (v : Validation) :
    Except Stop Unit → String → Prop where
  | unusable (h : Unusable loaded held) : Cause loaded held v (.error (.status 2)) ""
  | rejects {text : String} (h : Rejects loaded held text) : Cause loaded held v (.error (.status 1)) (text ++ "\n")
  | accepts {text : String} (h : Accepts loaded held v text) : Cause loaded held v (.ok ()) text
  | faults {f : Fault} (h : Faults loaded held v f) : Cause loaded held v (.error (.fault f)) ""

theorem cause_of_course (h : Course loaded held v e said) : Cause loaded held v e said := by
  cases h with
  | @unloaded f hl =>
    by_cases hf : ∃ err, f = .definition err
    · obtain ⟨err, rfl⟩ := hf
      exact .unusable (.inl ⟨err, hl⟩)
    · rw [stopOf_of_ne fun err h => hf ⟨err, h⟩]
      exact .faults (.loading hl fun err h => hf ⟨err, h⟩)
  | unread hl hi =>
    unfold inputEnd at hi
    split at hi
    · cases hi
    · next x hmap =>
      cases hi
      exact .unusable (.inr ⟨⟨_, hl⟩, .inr ⟨x, rfl, hmap⟩⟩)
    · cases hi
      exact .unusable (.inr ⟨⟨_, hl⟩, .inl rfl⟩)
    · cases hi
      exact .faults (.reading hl rfl)
  | @parsed o hp =>
    cases o with
    | ok p =>
      unfold finish
      dsimp only
      split
      · next hq => exact .accepts ⟨p, hp, by rw [if_pos hq]⟩
      · next hq =>
        cases hj : (Parsed.toHash p v.recursive).json .line with
        | ok text => exact .accepts ⟨p, hp, by rw [if_neg hq]; exact ⟨text, hj, rfl⟩⟩
        | error f => exact .faults (.printing hp (Bool.eq_false_iff.2 hq) hj)
    | error f =>
      by_cases hf : ∃ r, f = .rejected r
      · obtain ⟨r, rfl⟩ := hf
        unfold finish
        dsimp only
        cases hj : r.payload.json .compact with
        | ok text => exact .rejects ⟨r, hp, hj⟩
        | error f => exact .faults (.reporting hp hj)
      · have hne : ∀ r, f ≠ .rejected r := fun r h => hf ⟨r, h⟩
        rw [finish_of_ne hne]
        exact .faults (.parsing hp hne)

theorem course_of_cause (h : Cause loaded held v e said) : Course loaded held v e said := by
  cases h with
  | unusable h =>
    rcases h with ⟨err, hl⟩ | ⟨⟨d, hl⟩, hi | ⟨x, hi, hmap⟩⟩
    · exact .unloaded hl
    · exact .unread hl (by rw [hi]; rfl)
    · refine .unread hl ?_
      rw [hi]
      unfold inputEnd
      split
      · next heq => exact absurd (Except.ok.inj heq) (hmap _ _)
      · rfl
      · next heq => cases heq
      · next heq => cases heq
  | rejects h =>
    obtain ⟨r, hp, hj⟩ := h
    have hcourse := Course.parsed (v := v) hp
    simpa only [finish, hj] using hcourse
  | accepts h =>
    obtain ⟨p, hp, hline⟩ := h
    have hcourse := Course.parsed (v := v) hp
    cases hq : v.quiet with
    | true =>
      rw [if_pos hq] at hline
      simpa only [finish, hq, if_true, hline] using hcourse
    | false =>
      rw [hq, if_neg Bool.false_ne_true] at hline
      obtain ⟨text, hj, rfl⟩ := hline
      simpa only [finish, hq, Bool.false_eq_true, if_false, hj] using hcourse
  | faults h =>
    cases h with
    | loading hl hf => exact stopOf_of_ne hf ▸ .unloaded hl
    | reading hl hi => exact .unread hl (by rw [hi]; rfl)
    | parsing hp hf =>
      have hcourse := Course.parsed (v := v) hp
      rwa [finish_of_ne hf] at hcourse
    | reporting hp hj =>
      have hcourse := Course.parsed (v := v) hp
      simpa only [finish, hj] using hcourse
    | printing hp hq hj =>
      have hcourse := Course.parsed (v := v) hp
      simpa only [finish, hq, Bool.false_eq_true, if_false, hj] using hcourse

theorem Cause.unique {e' : Except Stop Unit} {said' : String} (h : Cause loaded held v e said)
    (h' : Cause loaded held v e' said') : e = e' ∧ said = said' := (course_of_cause h).unique (course_of_cause h')

/-- **Shallow input for a guarded definition whose defaults have texts faults only by a number that is too long.** -/
theorem faults_of_guarded {d : Definition} (hd : d.Guarded)
    (hdefaults : ∀ c, Definition.Within c d → ∀ a ∈ c.attributes, a.DefaultsTo Value.HasJson)
    (hread : ∀ x, held = .ok x → x.Read ∧ x.Shallow) {f : Fault} (h : Faults (.ok d) held v f) :
    held = .error .tooLong ∧ f = .badValue := by
  cases h with
  | loading hl _ => cases hl
  | reading _ hi => exact ⟨hi, rfl⟩
  | parsing hp hf =>
    obtain ⟨c, es, hc, hi, hp⟩ := hp
    cases hc
    rcases Definition.parse_ok_or_rejected hd (hread _ hi).1.ofJson (hread _ hi).2 0 with ⟨p, hp'⟩ | ⟨r, hp', -⟩
    · rw [hp] at hp'
      cases hp'
    · rw [hp] at hp'
      exact absurd (Except.error.inj hp') (hf r)
  | reporting hp hj =>
    obtain ⟨c, es, hc, hi, hp⟩ := hp
    cases hc
    obtain ⟨o, ho, hwritten⟩ := (Definition.calm_of_json hd (hread _ hi).1.ofJson (hread _ hi).2).read_ok (.root 0)
    cases o with
    | ok p =>
      rw [Definition.parse_eq_ok.2 ho] at hp
      cases hp
    | error r' =>
      have hrenders := Report.renders_of_written (hwritten r' rfl)
      rw [Definition.parse_of_read_error ho hrenders] at hp
      cases hp
      obtain ⟨text, htext⟩ := hrenders
      rw [htext] at hj
      cases hj
  | printing hp _ hj =>
    obtain ⟨c, es, hc, hi, hp⟩ := hp
    cases hc
    have hprintable := Definition.printable_of_read (fun c hc a ha => (hd c hc a ha).builtin) hdefaults (hread _ hi).1
      (Definition.parse_eq_ok.1 hp)
    obtain ⟨cs, hcs⟩ := Json.print_ok (show Json.Style.line.lenient = true from rfl) (hprintable.toHash v.recursive) 0
    rw [Value.json, hcs, ok_bind] at hj
    cases hj

def endingOf (said err : String) : Except Stop Unit → Ending
  | .ok () => ⟨0, said, err, none⟩
  | .error (.status n) => ⟨n, said, err, none⟩
  | .error (.fault f) => ⟨1, said, err, some f⟩

/-- what the status and the output of a run tell of the definition, the input and the parse -/
structure Classified (loaded : Outcome Definition) (held : Json.Read Value) (v : Validation) (e : Ending) : Prop where
  unusable : e.status = 2 ↔ Unusable loaded held
  silent : e.status = 2 → e.out = "" ∧ e.fault = none
  rejected : e.status = 1 ∧ e.fault = none ↔ ∃ text, Rejects loaded held text
  reported : ∀ text, Rejects loaded held text → e.out = text ++ "\n"
  accepted : e.status = 0 ↔ ∃ text, Accepts loaded held v text
  printed : ∀ text, Accepts loaded held v text → e.out = text
  faulty : ∀ f, e.fault = some f ↔ Faults loaded held v f
  crashed : ∀ f, e.fault = some f → e.status = 1 ∧ e.out = ""
  /-- input breaks off no run for a guarded definition, but by a number that is too long -/
  guarded : ∀ d, loaded = .ok d → d.Guarded →
    (∀ c, Definition.Within c d → ∀ a ∈ c.attributes, a.DefaultsTo Value.HasJson) →
    ∀ f, e.fault = some f ↔ held = .error .tooLong ∧ f = .badValue

theorem classified_of_cause (h : Cause loaded held v e said) (hread : ∀ x, held = .ok x → x.Read ∧ x.Shallow)
    (err : String) :
    Classified loaded held v (endingOf said err e) := by
  have hfaulty : ∀ f, (endingOf said err e).fault = some f ↔ Faults loaded held v f := by
    intro f
    constructor
    · intro hf
      cases h <;> cases hf
      assumption
    · intro hf
      obtain ⟨rfl, rfl⟩ := h.unique (.faults hf)
      rfl
  exact {
    unusable := by
      constructor
      · intro hs
        cases h <;> cases hs
        assumption
      · intro hu
        obtain ⟨rfl, rfl⟩ := h.unique (.unusable hu)
        rfl
    silent := by
      intro hs
      cases h <;> cases hs
      exact ⟨rfl, rfl⟩
    rejected := by
      constructor
      · rintro ⟨hs, hf⟩
        cases h <;> cases hs <;> cases hf
        exact ⟨_, ‹_›⟩
      · rintro ⟨text, hr⟩
        obtain ⟨rfl, rfl⟩ := h.unique (.rejects hr)
        exact ⟨rfl, rfl⟩
    reported := by
      intro text hr
      obtain ⟨rfl, rfl⟩ := h.unique (.rejects hr)
      rfl
    accepted := by
      constructor
      · intro hs
        cases h <;> cases hs
        exact ⟨_, ‹_›⟩
      · rintro ⟨text, ha⟩
        obtain ⟨rfl, rfl⟩ := h.unique (.accepts ha)
        rfl
    printed := by
      intro text ha
      obtain ⟨rfl, rfl⟩ := h.unique (.accepts ha)
      rfl
    faulty := hfaulty
    crashed := by
      intro f hf
      cases h <;> cases hf
      exact ⟨rfl, rfl⟩
    guarded := by
      intro d hl hd hdefaults f
      rw [hfaulty]
      subst hl
      constructor
      · exact faults_of_guarded hd hdefaults hread
      · rintro ⟨hi, rfl⟩
        exact .reading rfl hi }

end Causes

theorem execute_of_ends {look : Path → Entry} {c : Command} {e : Except Stop Unit} {said : String}
    (h : Ends (runCommand look c) e said) : ∃ err, execute look c = endingOf said err e := by
  obtain ⟨err, hrun⟩ := h ⟨"", ""⟩
  refine ⟨err, ?_⟩
  rw [execute, hrun, String.empty_append]
  cases e with
  | ok u => rfl
  | error e => cases e <;> rfl

theorem exists_cause {look : Path → Entry} {v : Validation} {held : Json.Read Value} (hheld : Holds look v.input held) :
    ∃ e said err, Cause (Definition.ofFile workshop 0 v.file (look v.file) none) held v e said ∧
      execute look (.validate v) = endingOf said err e := by
  obtain ⟨e, said, hcourse, hends⟩ := ends_validate hheld
  obtain ⟨err, hrun⟩ := execute_of_ends (c := .validate v) hends
  exact ⟨e, said, err, cause_of_course hcourse, hrun⟩

/-- **The status and the output tell how a run of `validate` went.** Status two, without output, stands for a
definition that is refused or input that is no mapping. Status zero stands for a parse that succeeds, with its values
as the output. Status one stands for a parse that is rejected, with the compact payload as the output, or for a fault,
without output; and for a guarded definition no input is at fault but by a number that is too long. -/
theorem status_classifies {look : Path → Entry} {v : Validation} {held : Json.Read Value}
    (hheld : Holds look v.input held)
    (hfollowed : Followed look v) :
    Classified (Definition.ofFile workshop 0 v.file (look v.file) none) held v (execute look (.validate v)) := by
  obtain ⟨e, said, err, hcause, hrun⟩ := exists_cause hheld
  rw [hrun]
  exact classified_of_cause hcause (fun x hx => ⟨Holds.read (hx ▸ hheld), Holds.shallow (hx ▸ hheld) hfollowed.input⟩) err

/-! ## An empty form -/

def formPath : Path := ⟨"", ["form.yaml"]⟩

def formFolder : Path → Entry := fun _ => .file "\x7b\x7d"

def formRun (input : String) : Validation := ⟨formPath, some input, true, 0, false⟩

theorem form_loaded :
    Definition.ofFile workshop 0 formPath (formFolder formPath) none = .ok ⟨0, "form", [], .default⟩ := by
  have hdocument : Definition.fileDocument formPath (formFolder formPath) = .ok (.map false []) := rfl
  have hname : Definition.nameInFile formPath (.map false []) none = some "form" := rfl
  have hdraft : Definition.draft (.map false []) (some "form") none = .ok ⟨"form", .default, []⟩ := rfl
  rw [Definition.ofFile, hdocument, ok_bind, hname, Definition.ofDocument, hdraft, ok_bind, Builder.declareDocument]
  rfl

theorem form_followed : FileFollowed formPath (formFolder formPath) := by
  have hdocument : Definition.fileDocument formPath (formFolder formPath) = .ok (.map false []) := rfl
  constructor
  case brackets => rintro text ⟨⟩; decide
  case lines => rintro text ⟨⟩; decide
  case whole => rintro text ⟨⟩; decide
  case flat =>
    rintro v hv
    cases hdocument.symm.trans hv
    decide
  case groups =>
    rintro v hv
    cases hdocument.symm.trans hv
    exact .of_leaf (by rintro s ⟨⟩) (by rintro x (_ | _) <;> contradiction)
  case kept =>
    rw [form_loaded]
    rintro ⟨⟩

/-- a run on the form tells by its status how it went -/
theorem form_classified : Followed formFolder (formRun "\x7b\"a\": 1\x7d") ∧
    Classified (Definition.ofFile workshop 0 formPath (formFolder formPath) none) (Json.read "\x7b\"a\": 1\x7d")
      (formRun "\x7b\"a\": 1\x7d") (execute formFolder (.validate (formRun "\x7b\"a\": 1\x7d"))) := by
  have hinput : InputFollowed formFolder (formRun "\x7b\"a\": 1\x7d").input :=
    (⟨by decide, by decide⟩ : TextFollowed "\x7b\"a\": 1\x7d")
  have hfollowed : Followed formFolder (formRun "\x7b\"a\": 1\x7d") := ⟨form_followed, hinput⟩
  exact ⟨hfollowed,
    status_classifies (show Holds formFolder (formRun "\x7b\"a\": 1\x7d").input _ from .given rfl) hfollowed⟩

def longNumeral : String := String.ofList ('1' :: List.replicate Number.maxDigits '0')

theorem read_longNumeral : Json.read longNumeral = .error .tooLong := by
  have hdigits : ∀ c ∈ '1' :: List.replicate Number.maxDigits '0', c.isDigit = true :=
    List.forall_mem_cons.2 ⟨rfl, Number.zeros_all _⟩
  have hmagnitude := Json.magnitude_tooLong false hdigits (by rintro cs ⟨⟩) (by simp) stops_nil
  rw [List.append_nil] at hmagnitude
  have hskip : Json.skip ('1' :: List.replicate Number.maxDigits '0') = '1' :: List.replicate Number.maxDigits '0' := rfl
  unfold Json.read longNumeral
  dsimp only
  rw [String.toList_ofList, hskip, Json.value_of_isDigit _ rfl, hmagnitude]
  rfl

/-- **An integer that is too long ends a run with the status of rejected input**, without a payload: the form is
loaded, and the numeral, which is no mapping, is at fault. -/
theorem long_integer_crashes : (∃ d, Definition.ofFile workshop 0 formPath (formFolder formPath) none = .ok d) ∧
    (execute formFolder (.validate (formRun longNumeral))).status = 1 ∧
    (execute formFolder (.validate (formRun longNumeral))).out = "" ∧
    (execute formFolder (.validate (formRun longNumeral))).fault = some .badValue := by
  have hgiven : Command.inputPath? longNumeral = none := by
    rw [Command.inputPath?, longNumeral, String.toList_ofList]
    rfl
  obtain ⟨e, said, err, hcause, hrun⟩ :=
    exists_cause (v := formRun longNumeral) (Holds.given hgiven : Holds formFolder _ _)
  obtain ⟨rfl, rfl⟩ := hcause.unique (.faults (.reading form_loaded read_longNumeral))
  rw [hrun]
  exact ⟨⟨_, form_loaded⟩, rfl, rfl, rfl⟩

end Intake.CommandLine
