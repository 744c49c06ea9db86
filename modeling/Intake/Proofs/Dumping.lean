/-
Definitions read back from their documents.

The document of a definition is its declarative form, written as YAML. For a declared definition with a name, whose
defaults and rules a document can hold, the document is written and read back as the definition itself, but for the stamp
that tells declarations apart (`Definition.ofText_dump`), if every text in it is legible (`Definition.Legible`). So the
definition that is loaded has the same form, and under the same stamp it parses every input alike
(`Definition.loaded_as_dumped`). A text is not legible, for one, if it stands between apostrophes and has a next line
character in it, nor a moment whose offset is a part of a second (`Definition.memo_loaded_otherwise`).
-/
import Intake.Definition.Load
import Intake.Parse
import Intake.CommandLine.Run
import Intake.Proofs.Reloading
import Intake.Proofs.Yaml.Printing

namespace Intake

open Outcome CommandLine

/-- the declarative form of an attribute, if no field is written twice -/
theorem Attribute.toValue_eq {r : Registry} {name : String} {shape : Shape} {required : Bool} {default : Option Value}
    {rules : List Rule} {fs ss ds os : Fields} (hs : shape.toFields r = .ok ss) (hd : defaultField default = .ok ds)
    (ho : describeRules rules = .ok os) (hf : ss ++ requiredField required ++ ds ++ os = fs) (hn : fs.names.Nodup) :
    (⟨name, shape, required, default, rules⟩ : Attribute).toValue r = .ok (.ofFields fs) := by
  subst hf
  simp only [toValue, hs, hd, ho, ok_bind]
  have hentries := Value.ofEntries_entries hn
  rw [Fields.entries] at hentries
  rw [hentries]
  rfl

namespace Definition

/-- a definition that is declared with blocks inside one another, or read from a document -/
inductive Given (w : Workshop) : Definition → Prop where
  | block {n : Nat} {name : Value} {block : Block} {s : Settings} {d : Definition} (hb : block.Inline)
    (h : define w n name block s = .ok d) : Given w d
  | document {n : Nat} {v : Value} {name : Option String} {s : Option Settings} {d : Definition} (hv : v.Keyed)
    (h : ofDocument w n v name s = .ok d) : Given w d

theorem Given.declared {w : Workshop} (hk : w.known = []) {d : Definition} (h : d.Given w) :
    d.Declared d.settings d.stamp (d.settings.maxDepth - 1) := by
  cases h with
  | block hb h => exact declared_of_define hk hb h
  | document hv h => exact declared_of_ofDocument hk hv h

/-- fields under distinct names have distinct texts as keys -/
theorem distinctTexts_entries {fs : Fields} (h : fs.names.Nodup) : DistinctTexts fs.entries := by
  have htexts : fs.entries.filterMap (·.1.text?) = fs.names := by
    rw [Fields.entries, List.filterMap_map]
    exact congrFun (List.filterMap_eq_map (f := fun f : String × Value => f.1)) fs
  rwa [DistinctTexts, htexts]

/-- plain data has distinct texts as keys at every level -/
theorem keyed_of_plain {v : Value} (h : v.Plain) : v.Keyed := by
  induction h with
  | map hn _ ih =>
    refine .map (distinctTexts_entries hn) fun e he => ?_
    obtain ⟨f, hf, rfl⟩ := List.mem_map.1 he
    exact ih f hf
  | _ => exact .other rfl

/-- every text in the document of a definition is legible where it stands, and no key that stands on a line with its value
is too long -/
def Legible (d : Definition) : Prop :=
  ∀ fs : Fields, d.toFields .builtin = .ok fs → Yaml.legibleEntries 0 fs.entries = true

theorem toFields_ne_nil {r : Registry} {d : Definition} {fs : Fields} (h : d.toFields r = .ok fs) : fs ≠ [] := by
  obtain ⟨fields, -, h⟩ := bind_eq_ok.1 h
  cases h
  exact List.cons_ne_nil _ _

/-- **A definition is loaded from its document**, but for its stamp. -/
theorem ofText_dump {w : Workshop} (hw : w.registry = .builtin) {d : Definition}
    (hd : d.Declared d.settings d.stamp (d.settings.maxDepth - 1)) (hp : d.Portable) (hname : d.name ≠ "")
    (hl : d.Legible) :
    ∃ text, d.dump .builtin = .ok text ∧ ∀ n, ofText w n text none = .ok (d.restamp n) := by
  obtain ⟨fs, hfields, hplain, hloads⟩ := ofDocument_toFields hw hd hp hname
  obtain ⟨text, hprint, hread⟩ := Yaml.read_of_print (toFields_ne_nil hfields) hplain (hl fs hfields)
  refine ⟨text, ?_, fun n => ?_⟩
  · simp only [dump, hfields, ok_bind]
    exact hprint
  · have hdocument : documentOf none text = .ok (.ofFields fs) := by
      rw [documentOf, hread]
      rfl
    simp only [ofText, hdocument, ok_bind, hloads n]

/-- a declared definition is given by the document of its own declarative form -/
theorem Declared.given {w : Workshop} (hw : w.registry = .builtin) {d : Definition}
    (hd : d.Declared d.settings d.stamp (d.settings.maxDepth - 1)) (hp : d.Portable) (hname : d.name ≠ "") :
    d.Given w := by
  obtain ⟨fs, -, hplain, hloads⟩ := ofDocument_toFields hw hd hp hname
  have hself := hloads d.stamp
  rw [hd.restamp_self] at hself
  exact .document (keyed_of_plain hplain) hself

/-- **Dump then load preserves a definition**: what is loaded has the same declarative form, whatever its stamp is, and
under the stamp of the definition it parses every input alike. -/
theorem loaded_as_dumped {w : Workshop} (hw : w.registry = .builtin) (hk : w.known = []) {d : Definition} (hd : d.Given w)
    (hp : d.Portable) (hname : d.name ≠ "") (hl : d.Legible) :
    ∃ text, d.dump .builtin = .ok text ∧
      (∀ n, ∃ e, ofText w n text none = .ok e ∧ e = d.restamp n ∧ e.toValue .builtin = d.toValue .builtin) ∧
      ∃ e, ofText w d.stamp text none = .ok e ∧ ∀ raw, e.parse .builtin raw = d.parse .builtin raw := by
  have hdeclared := hd.declared hk
  obtain ⟨text, hdump, hload⟩ := ofText_dump hw hdeclared hp hname hl
  refine ⟨text, hdump, fun n => ⟨_, hload n, rfl, ?_⟩, _, hload d.stamp, fun raw => ?_⟩
  · rw [toValue, toValue, toFields_restamp]
  · rw [hdeclared.restamp_self]

/-! ## An example -/

def invoiceLine : Definition :=
  ⟨0, "invoice.lines", [⟨"article", .scalar .text, true, none, []⟩,
    ⟨"count", .scalar .integer, false, some (.int 1),
      [.numericality ⟨[(.greaterThan, .int 0)], false, false, false, none⟩]⟩],
    Settings.default⟩

/-- an invoice of several lines, with a note that must be quoted -/
def invoice : Definition :=
  ⟨0, "invoice", [⟨"note", .scalar .text, false, some (.text "sent: no"), [.length ⟨none, some 20, none, none⟩]⟩,
    ⟨"lines", .arrayOf invoiceLine, true, none, []⟩], Settings.default⟩

theorem invoice_declared : invoice.Declared invoice.settings invoice.stamp (invoice.settings.maxDepth - 1) := by
  have hline : invoiceLine.Declared Settings.default 0 30 := by
    refine .mk (by decide) ?_ (by simp [Shape.definition?]) (by simp [Shape.definition?]) (by simp [Shape.definition?])
    have harticle : (⟨"article", .scalar .text, true, none, []⟩ : Attribute).Sound :=
      ⟨rfl, by decide, by decide, fun _ => rfl, by simp, by simp, by simp⟩
    refine List.forall_mem_cons.2 ⟨harticle,
      List.forall_mem_singleton.2 ⟨rfl, by decide, by decide, by simp, by simp, List.forall_mem_singleton.2 ?_, by simp⟩⟩
    exact .numericality (by decide) (by simp [asNumber]) (by simp [Worded])
  have hlines : (⟨"lines", .arrayOf invoiceLine, true, none, []⟩ : Attribute).Sound :=
    ⟨rfl, by decide, by decide, fun _ => rfl, by simp, by simp, by simp⟩
  refine .mk (by decide) ?_ (fun _ _ _ => by decide) (by simp [Shape.definition?, invoiceLine]) ?_
  · refine List.forall_mem_cons.2 ⟨⟨rfl, by decide, by decide, by simp, by simp, List.forall_mem_singleton.2 ?_, by simp⟩,
      List.forall_mem_singleton.2 hlines⟩
    exact .length (by simp) (by simp) (by simp) (by simp [Worded])
  · simp only [List.forall_mem_cons, Shape.definition?]
    exact ⟨by simp, by rintro _ ⟨⟩; exact hline, by simp⟩

theorem invoice_portable : invoice.Portable := by
  have hline : invoiceLine.Portable := by
    refine .mk ?_ (by simp [invoiceLine, Shape.definition?])
    refine List.forall_mem_cons.2 ⟨⟨by simp, by simp, by simp⟩,
      List.forall_mem_singleton.2 ⟨by simp, ?_, List.forall_mem_singleton.2 ?_⟩⟩
    · rintro v ⟨⟩
      exact .inr (.integer rfl)
    · exact .numericality (List.forall_mem_singleton.2 (.int rfl)) (by simp [PortableMessage])
  refine .mk ?_ (by simpa [invoice, Shape.definition?] using hline)
  refine List.forall_mem_cons.2 ⟨⟨by simp, ?_, List.forall_mem_singleton.2 ?_⟩,
    List.forall_mem_singleton.2 ⟨by simp, by simp, by simp⟩⟩
  · rintro v ⟨⟩
    exact .inr (.text _)
  · refine .length (by simp [PortableBound]) ?_ (by simp [PortableBound]) (by simp [PortableMessage])
    rintro n ⟨⟩
    rfl

def invoiceLineFields : Fields :=
  [("article", .ofFields [("type", .text "string"), ("required", .bool true)]),
    ("count", .ofFields [("type", .text "integer"), ("default", .int 1),
      ("numericality", .ofFields [("greater_than", .int 0)])])]

def invoiceFields : Fields :=
  [("name", .text "invoice"),
    ("attributes", .ofFields [
      ("note", .ofFields [("type", .text "string"), ("default", .text "sent: no"),
        ("length", .ofFields [("maximum", .int 20)])]),
      ("lines", .ofFields [("type", .text "array"), ("attributes", .ofFields invoiceLineFields),
        ("required", .bool true)])])]

theorem toFields_invoice : invoice.toFields .builtin = .ok invoiceFields := by
  have hline : invoiceLine.attributeFields .builtin = .ok invoiceLineFields := by
    simp only [invoiceLine, attributeFields, attributesFields]
    rw [Attribute.toValue_eq rfl rfl rfl rfl (by decide), Attribute.toValue_eq rfl rfl rfl rfl (by decide)]
    rfl
  have hshape : (Shape.arrayOf invoiceLine).toFields .builtin =
      .ok [("type", .text "array"), ("attributes", .ofFields invoiceLineFields)] := by
    simp only [Shape.toFields, hline, ok_bind]
  refine toFields_eq ?_
  simp only [invoice, attributeFields, attributesFields]
  rw [Attribute.toValue_eq rfl rfl rfl rfl (by decide), Attribute.toValue_eq hshape rfl rfl rfl (by decide)]
  rfl

theorem invoice_legible : invoice.Legible := by
  rintro fs h
  rw [toFields_invoice] at h
  cases h
  decide

theorem invoice_loaded_as_dumped : ∃ text, invoice.dump .builtin = .ok text ∧
    (∀ n, ∃ e, ofText workshop n text none = .ok e ∧ e = invoice.restamp n ∧
      e.toValue .builtin = invoice.toValue .builtin) ∧
    ∃ e, ofText workshop 0 text none = .ok e ∧ ∀ raw, e.parse .builtin raw = invoice.parse .builtin raw :=
  loaded_as_dumped rfl rfl (invoice_declared.given rfl invoice_portable (by decide)) invoice_portable
  (by decide) invoice_legible

/-! ## Documents that are read otherwise -/

def memo (note : String) : Definition :=
  ⟨0, "memo", [⟨"note", .untyped, false, some (.text note), []⟩], Settings.default⟩

def memoFields (note : String) : Fields :=
  [("name", .text "memo"), ("attributes", .ofFields [("note", .ofFields [("default", .text note)])])]

theorem toFields_memo (note : String) : (memo note).toFields .builtin = .ok (memoFields note) := rfl

theorem memo_portable (note : String) : (memo note).Portable := by
  refine .mk (List.forall_mem_singleton.2 ⟨by simp, ?_, by simp⟩) (by simp [memo, Shape.definition?])
  rintro v ⟨⟩
  exact .text note

theorem memo_declared (note : String) : (memo note).Declared Settings.default 0 31 := by
  have hid : Text.isIdentifier "note".toList = true := by decide
  have hvisible : "note".toList.head? ≠ some '_' := by decide
  have hfree : "note" ∉ reservedNames := by decide
  have hsound : (⟨"note", .untyped, false, some (.text note), []⟩ : Attribute).Sound :=
    ⟨hid, hvisible, hfree, by simp, by simp, by simp, by simp⟩
  exact .mk (by simp) (List.forall_mem_singleton.2 hsound) (by simp [Shape.definition?]) (by simp [Shape.definition?])
    (by simp [Shape.definition?])

/-- a document in which a text with a next line character stands between apostrophes -/
def memoText : String := "name: memo\nattributes:\n  note:\n    default: 'a\u0085      b'\n"

/-- the next line character is read as the end of a line -/
theorem read_memoText : Yaml.read memoText = .ok (.ofFields (memoFields "a b")) := by
  have htokens : Yaml.tokens memoText.toList =
      [.blockMapping, .key, .scalar "name".toList true, .value, .scalar "memo".toList true,
        .key, .scalar "attributes".toList true, .value, .blockMapping, .key, .scalar "note".toList true, .value,
        .blockMapping, .key, .scalar "default".toList true, .value, .scalar "a b".toList false,
        .blockEnd, .blockEnd, .blockEnd] := by rfl
  have hnode : Yaml.Node.ofText memoText.toList =
      .ok (some (.mapping .hash [(.scalar .text "name".toList, .scalar .text "memo".toList),
        (.scalar .text "attributes".toList, .mapping .hash [(.scalar .text "note".toList,
          .mapping .hash [(.scalar .text "default".toList, .scalar .text "a b".toList)])])])) := by
    rw [Yaml.Node.ofText, if_pos (by decide), htokens]
    rfl
  have htext (s : String) : Yaml.Makes (.scalar .text s.toList) (.text s) :=
    Yaml.makes_scalar rfl (by rw [Yaml.scalarValue, String.ofList_toList])
  have hfield {k : String} {n : Yaml.Node} {v : Value} (h : Yaml.Makes n v) :
      Yaml.Makes (.mapping .hash [(.scalar .text k.toList, n)]) (.ofFields [(k, v)]) :=
    Yaml.makes_mapping (.cons ⟨rfl, h⟩ .nil) (by simp)
  refine Yaml.read_of_makes hnode (Yaml.makes_mapping (.cons ⟨rfl, htext "memo"⟩ (.cons ⟨rfl, ?_⟩ .nil)) (by simp))
  exact hfield (k := "note") (hfield (k := "default") (htext "a b"))

def hasty : Value := .moment ⟨⟨2024, 1, 2⟩, ⟨3, 4, 5, 0, some 5⟩⟩

def hastyText : String := "2024-01-02T03:04:05+00:00:00.000005"

/-- **Not every definition is loaded as it was dumped**: a default with a next line character is read as another text,
although the definition is declared and its default is plain data. Nor does a moment that its type leaves unchanged stay
so, if it is written and cast again, and its offset is a part of a second. -/
theorem memo_loaded_otherwise :
    ((memo "a\u0085b").Given workshop ∧ (memo "a\u0085b").Portable ∧ (memo "a\u0085b").dump .builtin = .ok memoText ∧
      ofText workshop 0 memoText none = .ok (memo "a b") ∧
      (memo "a b").toValue .builtin ≠ (memo "a\u0085b").toValue .builtin) ∧
      Registry.builtin.cast .moment false hasty = .ok (.ok hasty) ∧ hasty.canonical = .ok (.text hastyText) ∧
      Registry.builtin.cast .moment false (.text hastyText) =
        .ok (.ok (.moment ⟨⟨2024, 1, 2⟩, ⟨3, 4, 5, 0, some 0⟩⟩)) := by
  have hload : ofText workshop 0 memoText none = .ok (memo "a b") := by
    obtain ⟨fs, hfields, -, hloads⟩ :=
      ofDocument_toFields (w := workshop) rfl (memo_declared "a b") (memo_portable "a b") (by decide)
    rw [toFields_memo] at hfields
    cases hfields
    have hdocument : documentOf none memoText = .ok (.ofFields (memoFields "a b")) := by
      rw [documentOf, read_memoText]
      rfl
    simp only [ofText, hdocument, ok_bind, hloads 0]
    rfl
  have hother : (memo "a b").toValue .builtin ≠ (memo "a\u0085b").toValue .builtin := by
    simp [toValue, toFields_memo, memoFields, Value.ofFields, Except.map]
  exact ⟨⟨(memo_declared _).given rfl (memo_portable _) (by simp [memo]), memo_portable _, rfl, hload, hother⟩,
    rfl, rfl, rfl⟩

end Definition

end Intake
