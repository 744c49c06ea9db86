/-
The output of `validate` as its input.

What a run prints of the parameters that it has accepted can be given to it again, on the command line or in a file:
the run accepts it, and prints the same. What is printed is read as what JSON shows of the values, and parsed to the
same values (`Definition.parse_printed`), for a definition from a file, which asks no function of the caller
(`Definition.ordinary_of_loaded`).

Not everything comes back: a default may be a value that its attribute cannot be given, and an instance that no key was
supplied for is nothing where an attribute is required (`Definition.Kept`).

Results:
- `execute_of_accepts`: how a run of parameters that are accepted ends;
- `validate_fixed_point`: the output of such a run is a fixed point.
-/
import Intake.Proofs.CommandLine.Endings
import Intake.Proofs.Json.Rereading
import Intake.Proofs.Loaded
import Intake.Proofs.Yaml.Printing

namespace Intake

open Intake.Outcome

namespace Definition

variable {d : Definition}

/-- attributes have built-in types and no defaults, and no rule is a schema, at every depth -/
def Simple (d : Definition) : Prop :=
  ∀ c, Within c d → ∀ a ∈ c.attributes,
    (∀ t, a.shape = .scalar t → t.IsBuiltin) ∧ a.default = none ∧ ∀ rule ∈ a.rules, rule.option ≠ "json_schema"

/-- a simple definition from a file asks nothing of its attributes that a text might not answer as its value does -/
theorem ordinary_of_loaded {w : Workshop} {stamp : Nat} {path : Path} {found : Entry} {name : Option String}
    (hw : w.known = [])
    (h : ofFile w stamp path found name = .ok d) (hlax : d.settings.strictTypes = false) (hd : d.Simple) :
    d.Ordinary := by
  intro c hc
  refine ⟨?_, fun a ha => ?_⟩
  · rw [settings_of_loaded hw h hc, hlax]
  · obtain ⟨hbuiltin, hdefault, hschema⟩ := hd c hc a ha
    exact ⟨hbuiltin, fun rule hr => ⟨not_callback_of_loaded hw h hc a ha rule hr, hschema rule hr⟩, hdefault⟩

/-- the projection of an accepted input has a text, which opens with a brace and is clear of control characters -/
theorem json_of_parse {es : List (Value × Value)} {p : Instance} (hd : d.Ordinary) (hraw : (Value.map false es).Read)
    (hp : d.parse .builtin 0 (.map false es) = .ok p) : ∃ cs, (p.toHash true).json .line = .ok (String.ofList cs) ∧
      cs.head? = some '\x7b' ∧ ∀ c ∈ cs, Json.isClear c = true := by
  have hprintable := printable_of_read (fun c hc a ha => ((hd c hc).2 a ha).builtin)
    (fun c hc a ha v hv => by rw [((hd c hc).2 a ha).undefaulted] at hv; cases hv) hraw (parse_eq_ok.1 hp)
  obtain ⟨cs, hcs⟩ := Json.print_ok (show Json.Style.line.lenient = true from rfl) (hprintable.toHash true) 0
  refine ⟨cs, by rw [Value.json, hcs, ok_bind], ?_, Json.print_clear Json.Style.line_onOneLine hcs⟩
  obtain ⟨fs, hfs⟩ := Value.projected_parsed p
  rw [show p.toHash true = .map false fs from hfs, Json.print] at hcs
  obtain ⟨items, -, hcs⟩ := bind_eq_ok.1 hcs
  cases hcs
  cases items <;> rfl

end Definition

namespace CommandLine

variable {look : Path → Entry} {v : Validation} {d : Definition} {p : Instance}

/-! ## Printed texts as inputs -/

/-- an input that holds a printed line, with its end or without -/
inductive HoldsLine (look : Path → Entry) (text : String) : Option String → Prop where
  | given {s : String} (h : s = text ∨ s = text ++ "\n") : HoldsLine look text (some s)
  | file {s content : String} {path : Path} (hp : Command.inputPath? s = some path) (hf : look path = .file content)
    (h : content = text ∨ content = text ++ "\n") : HoldsLine look text (some s)

/-- a line that opens with a brace is no path, and a line that is clear of control characters is read from a file as it
stands -/
theorem HoldsLine.holds {cs : List Char} {input : Option String} (hopens : cs.head? = some '\x7b')
    (hclear : ∀ c ∈ cs, Json.isClear c = true) (h : HoldsLine look (String.ofList cs) input) :
    ∃ after : String, (∀ c ∈ after.toList, Json.isBlank c = true) ∧
    Holds look input (Json.read (String.ofList cs ++ after)) := by
  have of_line {s : String} (h : s = String.ofList cs ∨ s = String.ofList cs ++ "\n") :
      ∃ after : String, s = String.ofList cs ++ after ∧ (after = "" ∨ after = "\n") := by
    rcases h with rfl | rfl
    · exact ⟨"", by rw [String.append_empty], .inl rfl⟩
    · exact ⟨"\n", rfl, .inr rfl⟩
  have hblank {after : String} (h : after = "" ∨ after = "\n") : ∀ c ∈ after.toList, Json.isBlank c = true := by
    rcases h with rfl | rfl
    · simp
    · exact List.forall_mem_singleton.2 rfl
  cases h with
  | given h =>
    obtain ⟨after, rfl, hafter⟩ := of_line h
    refine ⟨after, hblank hafter, .given ?_⟩
    obtain ⟨tail, rfl⟩ := List.head?_eq_some_iff.1 hopens
    rw [Command.inputPath?, String.toList_append, String.toList_ofList]
    rfl
  | @file s content path hp hf h =>
    obtain ⟨after, rfl, hafter⟩ := of_line h
    refine ⟨after, hblank hafter, ?_⟩
    have hread : readText (String.ofList cs ++ after) = String.ofList cs ++ after := by
      rw [readText, unifyBreaks_eq, String.ofList_toList]
      rw [String.toList_append, String.toList_ofList, List.mem_append, not_or]
      refine ⟨fun hmem => absurd (hclear _ hmem) (by decide), ?_⟩
      rcases hafter with rfl | rfl <;> simp
    have hholds := Holds.file hp hf
    rwa [hread] at hholds

/-! ## Runs -/

/-- a run of parameters that are accepted ends well, with their values as the output -/
theorem execute_of_accepts {held : Json.Read Value} {text : String} (hheld : Holds look v.input held)
    (h : Accepts (Definition.ofFile workshop 0 v.file (look v.file) none) held v text) :
    (execute look (.validate v)).status = 0 ∧ (execute look (.validate v)).out = text := by
  obtain ⟨e, said, err, hcause, hrun⟩ := exists_cause hheld
  obtain ⟨rfl, rfl⟩ := hcause.unique (.accepts h)
  rw [hrun]
  exact ⟨rfl, rfl⟩

/-- **The output of an accepted run is a fixed point.** For a simple definition from a file, without strict types, a
run that accepts its input prints a line that can be given to it again, with the end of the line or without, on the
command line or in a file: the run accepts that too, prints the same line, and has parsed it to the same values. -/
theorem validate_fixed_point {es : List (Value × Value)}
    (hl : Definition.ofFile workshop 0 v.file (look v.file) none = .ok d)
    (hlax : d.settings.strictTypes = false) (hd : d.Simple) (hheld : Holds look v.input (.ok (.map false es)))
    (hp : d.parse .builtin 0 (.map false es) = .ok p) (hkept : d.Kept p) (hr : v.recursive = true)
    (hq : v.quiet = false) :
    ∃ text, (execute look (.validate v)).status = 0 ∧ (execute look (.validate v)).out = text ++ "\n" ∧
      ∀ look' input, look' v.file = look v.file → HoldsLine look' text input →
        (execute look' (.validate { v with input := input })).status = 0 ∧
        (execute look' (.validate { v with input := input })).out = text ++ "\n" ∧
        ∃ fs q, Holds look' input (.ok (.map false fs)) ∧ d.parse .builtin 0 (.map false fs) = .ok q ∧
          (Value.parsed q).bare = (Value.parsed p).bare := by
  have hordinary := Definition.ordinary_of_loaded rfl hl hlax hd
  have hraw : (Value.map false es).Read := hheld.read
  obtain ⟨cs, htext, hopens, hclear⟩ := Definition.json_of_parse hordinary hraw hp
  have accepted {look : Path → Entry} {v : Validation} {es : List (Value × Value)} {p : Instance}
      (hl : Definition.ofFile workshop 0 v.file (look v.file) none = .ok d)
      (hheld : Holds look v.input (.ok (.map false es)))
      (hp : d.parse .builtin 0 (.map false es) = .ok p) (hr : v.recursive = true) (hq : v.quiet = false)
      (htext : (p.toHash true).json .line = .ok (String.ofList cs)) :
      (execute look (.validate v)).status = 0 ∧ (execute look (.validate v)).out = String.ofList cs ++ "\n" := by
    refine execute_of_accepts hheld ⟨p, ⟨d, es, hl, rfl, hp⟩, ?_⟩
    rw [if_neg (by simp [hq]), hr]
    exact ⟨_, htext, rfl⟩
  obtain ⟨hstatus, hout⟩ := accepted hl hheld hp hr hq htext
  refine ⟨String.ofList cs, hstatus, hout, fun look' input hfile hline => ?_⟩
  obtain ⟨after, hafter, hholds⟩ := hline.holds hopens hclear
  obtain ⟨fs, q, hread, hq', hbare, hagain⟩ :=
    Definition.parse_printed (Definition.namesDistinct_of_loaded rfl hl) hordinary hraw hp
    hkept Json.Style.line_marked htext hafter 0
  rw [hread] at hholds
  obtain ⟨hstatus', hout'⟩ := accepted (v := { v with input := input }) (hfile ▸ hl) hholds hq' hr hq hagain
  exact ⟨hstatus', hout', fs, q, hholds, hq', hbare⟩

/-! ## An example -/

def visit : Definition := ⟨0, "visit", [⟨"at", .scalar .moment, false, none, []⟩], .default⟩

def visitPath : Path := ⟨"", ["visit.yaml"]⟩

def visitFields : Fields := [("at", .text "datetime")]

def visitFolder : Path → Entry := fun _ => .file "at: datetime\n"

/-- a moment in other words than those it is printed in -/
def visitForm : List (Value × Value) := [(.text "at", .text "2024-05-01T10:00:00Z")]

def visitRun : Validation := ⟨visitPath, some "\x7b\"at\": \"2024-05-01T10:00:00Z\"\x7d", true, 0, false⟩

def visited : Instance :=
  ⟨visit.heading, .map false visitForm, [("at", .moment ⟨⟨2024, 5, 1⟩, ⟨10, 0, 0, 0, some 0⟩⟩)], ["at"]⟩

theorem read_visitFields : Yaml.read "at: datetime\n" = .ok (.ofFields visitFields) := by
  have hplain : (Value.ofFields visitFields).Plain := .map (by decide) (List.forall_mem_singleton.2 (.text "datetime"))
  obtain ⟨text, hprint, hread⟩ := Yaml.read_of_print (List.cons_ne_nil _ _) hplain rfl
  cases (show Yaml.print visitFields.entries = .ok "at: datetime\n" from rfl).symm.trans hprint
  exact hread

theorem visit_loaded : Definition.ofFile workshop 0 visitPath (visitFolder visitPath) none = .ok visit := by
  have hdocument : Definition.fileDocument visitPath (visitFolder visitPath) = .ok (.ofFields visitFields) := by
    rw [visitFolder, Definition.fileDocument, show readText "at: datetime\n" = "at: datetime\n" from rfl,
      Definition.documentOf,
      read_visitFields]
    rfl
  have henvelope : Definition.envelope? visitFields.entries = none := by
    simp [visitFields, Definition.envelope?, Definition.envelopeKeys]
  have hname : Definition.nameInFile visitPath (.ofFields visitFields) none = some "visit" := by
    rw [Value.ofFields_eq, Definition.nameInFile, Definition.namesItself, henvelope]
    rfl
  have hdraft :
      Definition.draft (.ofFields visitFields) (some "visit") none = .ok ⟨"visit", .default, visitFields.entries⟩ := by
    rw [Value.ofFields_eq, Definition.draft, henvelope]
    rfl
  have hconfig : Declaration.ofConfig .builtin [] (.text "at") (.text "datetime") =
      .ok ⟨false, .text "at", .value (.text "datetime"), .none, []⟩ := by
    rw [ofConfig_eq]
    show declarationOf .builtin [] (.text "at") (Fields.entries [("type", .text "datetime")]) = _
    unfold declarationOf
    simp only [Parts.pop_entries]
    rfl
  have hdeclare : Builder.declare workshop 31 (.empty "visit" .default 0)
      ⟨false, .text "at", .value (.text "datetime"), .none, []⟩ = .ok ⟨"visit", .default, 0, visit.attributes⟩ := by
    have hprepare : Builder.prepare .builtin (.empty "visit" .default 0)
        ⟨false, .text "at", .value (.text "datetime"), .none, []⟩ =
        .ok ⟨"at", .value (.text "datetime"), some .moment, none, []⟩ := rfl
    rw [Builder.declare, show workshop.registry = .builtin from rfl, hprepare, ok_bind]
    unfold Builder.buildBlock
    rfl
  rw [Definition.ofFile, hdocument, ok_bind, hname, Definition.ofDocument, hdraft, ok_bind, visitFields,
    Fields.entries_cons,
    Fields.entries_nil, Builder.declareDocument]
  show ((Declaration.ofConfig .builtin [] (.text "at") (.text "datetime") >>= _) >>= _) = _
  rw [hconfig, ok_bind]
  show ((Builder.declare workshop 31 (.empty "visit" .default 0) _ >>= _) >>= _) = _
  rw [hdeclare, ok_bind, Builder.declareDocument]
  rfl

/-- what is printed of a visit is given to the run again -/
theorem visit_fixed_point : visit.parse .builtin 0 (.map false visitForm) = .ok visited ∧
    ∃ text, (execute visitFolder (.validate visitRun)).status = 0 ∧
    (execute visitFolder (.validate visitRun)).out = text ++ "\n" ∧
      ∀ look' input, look' visitPath = visitFolder visitPath → HoldsLine look' text input →
        (execute look' (.validate { visitRun with input := input })).status = 0 ∧
        (execute look' (.validate { visitRun with input := input })).out = text ++ "\n" ∧
        ∃ fs q, Holds look' input (.ok (.map false fs)) ∧ visit.parse .builtin 0 (.map false fs) = .ok q ∧
          (Value.parsed q).bare = (Value.parsed visited).bare := by
  have hform : (Value.map false visitForm).Read := by
    simp [visitForm, Value.Throughout.map_iff, Value.Throughout.text_iff, Value.IsRead]
  have hread : Json.read "\x7b\"at\": \"2024-05-01T10:00:00Z\"\x7d" = .ok (.map false visitForm) :=
    Json.read_again Json.Style.line_marked hform rfl
  have hheld : Holds visitFolder visitRun.input (.ok (.map false visitForm)) := hread ▸ .given rfl
  have hsimple : visit.Simple :=
    Definition.forall_within (List.forall_mem_singleton.2 ⟨by rintro t ⟨⟩ c ⟨⟩, rfl, by simp⟩)
      (by simp [visit, Shape.definition?])
  have hkept : visit.Kept visited := Definition.kept_of_parts (by simp [visit]) (by simp [visit]) (by simp [visit])
  have hparsed : visit.parse .builtin 0 (.map false visitForm) = .ok visited := rfl
  exact ⟨hparsed, validate_fixed_point visit_loaded rfl hsimple hheld hparsed hkept rfl rfl⟩

end CommandLine

end Intake
