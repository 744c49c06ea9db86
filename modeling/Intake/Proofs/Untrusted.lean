/-
Untrusted input.

Input that comes as JSON holds nothing but booleans, numbers, texts, lists and mappings with texts as keys, the
integers short enough to be read (`Value.OfJson`). Whatever a definition declares, casting such a value gives one that
rules can ask (`Registry.fit_of_cast`), nested no deeper (`Registry.calls_of_cast`), and so do the instances inside
(`Definition.writable_of_read`), which are nested about as deep as the input that they are read from
(`Definition.calls_of_read`). If its types are built-in ones, its rules are built from plain data, and its defaults are
shallow and can be copied, and written where rules ask the instances that hold them (`Definition.Guarded`), nothing breaks
the parse of shallow input off (`Definition.calm_of_json`).

Defaults are needed so: the parse of `Definition.stamped`, whose default cannot be copied, is broken off by every input
that leaves it out, and that of a `Definition.ledger` whose default is too long a number by every input that leaves that
out. And so is input: a value that is no boolean is quoted, and the quoting of one that is nested too deep is broken off.
-/
import Intake.Proofs.Completion
import Intake.Proofs.Contents
import Intake.Proofs.Recasting
import Intake.Proofs.RuleAnswers

namespace Intake

open Outcome Number Text

/-! ## Numbers that are read -/

namespace Number

/-- a numeral that is not too long denotes a number that can be written -/
theorem short_of_ofDigits? {ds : List Char} (hn : ds ≠ []) {m : Nat} (h : ofDigits? ds = some m) (negative : Bool) :
    (intText? (signed negative m)).isSome := by
  obtain ⟨hlen, hm⟩ := Option.ite_none_right_eq_some.1 h
  cases hm
  have hcount : digitCount (signed negative (ofDigits ds)).natAbs ≤ maxDigits := by
    rw [natAbs_signed]
    exact Nat.le_trans (digitCount_le (List.length_pos_iff.2 hn) (ofDigits_lt ds)) hlen
  rw [intText?, if_pos hcount]
  rfl

end Number

namespace Cast

theorem short_of_integerText? {cs : List Char} {n : Int} (h : integerText? cs = some n) : (intText? n).isSome := by
  unfold integerText? at h
  dsimp only at h
  obtain ⟨hgrammar, h⟩ := Option.ite_none_right_eq_some.1 h
  obtain ⟨m, hm, rfl⟩ := Option.map_eq_some_iff.1 h
  rw [Bool.and_eq_true, Bool.not_eq_true', List.isEmpty_eq_false_iff] at hgrammar
  exact short_of_ofDigits? hgrammar.1 hm _

end Cast

/-! ## Input -/

namespace Value

/-- what input from JSON holds: integers are short enough to be read, and keys are texts -/
def IsOfJson : Value → Prop
  | .null | .bool _ | .text _ | .list _ => True
  | .int n => (intText? n).isSome
  | .float x => x.Canonical
  | .map _ es => ∀ e ∈ es, ∃ s, e.1 = .text s
  | _ => False

/-- input from JSON, at every depth -/
abbrev OfJson : Value → Prop := Throughout IsOfJson

theorem OfJson.writable {v : Value} (h : v.OfJson) : v.Writable :=
  h.imp fun x hx => by cases x <;> first | exact trivial | exact hx | exact absurd hx id

theorem OfJson.inBounds {v : Value} (h : v.OfJson) : v.InBounds := by
  have hv := h.here
  cases v with
  | float x => exact Binary64.Canonical.bounded hv
  | decimal d => exact absurd hv id
  | range a b s => exact absurd hv id
  | _ => trivial

end Value

theorem KeyView.ofEntries_of_texts {es : List (Value × Value)} (h : ∀ e ∈ es, ∃ s, e.1 = .text s) :
    ∃ view, ofEntries es = .ok view := by
  have from_acc (acc : List (String × Value)) : ∃ fs, ofEntriesFrom acc es = .ok fs := by
    induction es generalizing acc with
    | nil => exact ⟨acc, rfl⟩
    | cons e es ih =>
      obtain ⟨k, v⟩ := e
      obtain ⟨⟨s, rfl⟩, hes⟩ := List.forall_mem_cons.1 h
      exact ih hes _
  obtain ⟨fs, hfs⟩ := from_acc []
  exact ⟨⟨fs⟩, by rw [ofEntries, hfs]; rfl⟩

theorem Definition.viewOf_of_json {raw : Value} (h : raw.OfJson) : ∃ view, viewOf raw = .ok view := by
  refine KeyView.ofEntries_of_texts ?_
  cases raw with
  | map ro es => exact h.here
  | _ => rintro e ⟨⟩

/-! ## Casting -/

namespace Cast

theorem short_of_toInteger {v : Value} {n : Int} (hv : v.IsOfJson) (h : toInteger v = .ok (.int n)) :
    (intText? n).isSome := by
  cases v with
  | int m => cases h; exact hv
  | float x =>
    have hx := Binary64.Canonical.bounded hv
    cases x with
    | finite s m e =>
      simp only [toInteger] at h
      split at h
      · obtain ⟨i, hi, hn⟩ := orBad_map_eq_ok.1 h
        cases hn
        exact Binary64.truncate?_short hx hi
      · cases h
    | _ => cases h
  | text s =>
    obtain ⟨i, hi, hn⟩ := orBad_map_eq_ok.1 h
    cases hn
    exact short_of_integerText? hi
  | textMember s => exact absurd hv id
  | decimal d => exact absurd hv id
  | _ => cases h

theorem bounded_of_toFloat {v : Value} {x : Binary64} (hv : v.IsOfJson) (h : toFloat v = .ok (.float x)) : x.Bounded := by
  have of_bind {o : Outcome Binary64} (ho : ∀ y, o = .ok y → y.Bounded)
      (h : (o >>= fun y => if y.isFinite = true then .ok (Value.float y) else .error .badValue) = .ok (.float x)) :
      x.Bounded := by
    obtain ⟨y, hy, h⟩ := bind_eq_ok.1 h
    split at h
    · cases h; exact ho _ hy
    · cases h
  cases v with
  | int n =>
    refine of_bind (fun y hy => ?_) h
    have hb := Binary64.bounded_ofInt n
    unfold floatOfInt at hy
    split at hy
    · cases hy
    · cases hy; exact hb
  | float y => exact of_bind (fun z hz => Except.ok.inj hz ▸ Binary64.Canonical.bounded hv) h
  | text s =>
    refine of_bind (fun y hy => ?_) h
    cases ho : Binary64.ofText? (stripped s) with
    | none => rw [ho] at hy; cases hy
    | some z =>
      rw [ho] at hy
      cases hy
      exact Binary64.bounded_of_ofText? ho
  | decimal d => exact absurd hv id
  | textMember s => exact absurd hv id
  | _ => cases h

end Cast

namespace Registry

variable {t : ValueType} {strict : Bool} {v w : Value}

theorem fit_of_convert (ht : t.IsBuiltin) (hv : v.IsOfJson) (h : (builtin.casterOf t).convert v = .ok w) :
    w.Short ∧ w.InBounds := by
  cases t with
  | text =>
    obtain ⟨htext, -⟩ := Cast.text_of_toText h
    cases w <;> first | exact ⟨trivial, trivial⟩ | cases htext
  | integer => obtain ⟨n, rfl⟩ := Cast.integer_of_toInteger h; exact ⟨Cast.short_of_toInteger hv h, trivial⟩
  | float => obtain ⟨x, rfl, -⟩ := Cast.finite_of_toFloat h; exact ⟨trivial, Cast.bounded_of_toFloat hv h⟩
  | decimal => obtain ⟨d, rfl, hd⟩ := Cast.finite_of_toDecimal h; exact ⟨trivial, hd⟩
  | boolean => obtain ⟨b, rfl⟩ := Cast.boolean_of_toBoolean h; exact ⟨trivial, trivial⟩
  | date => obtain ⟨d, rfl⟩ := Cast.date_of_toDate h; exact ⟨trivial, trivial⟩
  | moment => obtain ⟨m, rfl⟩ := Cast.moment_of_toMoment h; exact ⟨trivial, trivial⟩
  | time => obtain ⟨t, rfl⟩ := Cast.time_of_toTime h; exact ⟨trivial, trivial⟩
  | uuid => obtain ⟨u, rfl⟩ := Cast.uuid_of_toUuid h; exact ⟨trivial, trivial⟩
  | array =>
    rcases Cast.list_of_toList h with rfl | ⟨xs, rfl, rfl⟩
    · cases w with
      | list xs => exact ⟨trivial, trivial⟩
      | tuple xs => exact absurd hv id
      | _ => cases h
    · exact absurd hv id
  | hash =>
    obtain ⟨ro, es, rfl, rfl⟩ := Cast.hash_of_toHash h
    exact ⟨trivial, trivial⟩
  | custom c => exact absurd rfl (ht c)

theorem fit_of_cast (ht : t.IsBuiltin) (hv : v.OfJson) (h : builtin.cast t strict v = .ok (.ok w)) :
    w.Writable ∧ w.InBounds := by
  have hfit : w.Short ∧ w.InBounds := by
    obtain ⟨-, hw⟩ := (cast_eq_ok ht).1 h
    split at hw
    · rw [hw]
      exact ⟨hv.writable.here, hv.inBounds⟩
    · exact fit_of_convert ht hv.here hw
  exact ⟨throughout_of_cast ht (fun _ => hfit.1) (fun _ => id) (fun _ _ => id) hv.writable h, hfit.2⟩

theorem calls_of_cast (ht : t.IsBuiltin) (h : builtin.cast t strict v = .ok (.ok w)) : w.calls ≤ v.calls := by
  cases recast_of_cast ht h with
  | atom ha =>
    have hzero : w.calls = 0 := by cases w <;> first | rfl | exact absurd ha id
    omega
  | self => exact Nat.le_refl _
  | list hv => simp [hv, Value.calls]
  | @hash readOnly es hv => cases readOnly <;> simp [hv, Value.calls]

end Registry

/-! ## Copies -/

namespace Value

theorem short_copiedAt (v : Value) (here : Place) (h : v.Short) : (v.copiedAt here).Short := by
  cases v <;> exact h

theorem callsOfEntries_congr {es : List (Value × Value)} {g : Value → Value}
    (h : ∀ e ∈ es, (g e.1).calls = e.1.calls ∧ (g e.2).calls = e.2.calls) :
    callsOfEntries (es.map fun e => (g e.1, g e.2)) = callsOfEntries es := by
  induction es with
  | nil => rfl
  | cons e es ih =>
    obtain ⟨hk, hv⟩ := h e List.mem_cons_self
    rw [List.map_cons, callsOfEntries, callsOfEntries, hk, hv, ih fun f hf => h f (List.mem_cons_of_mem e hf)]

theorem calls_copiedAt (v : Value) (here : Place) : (v.copiedAt here).calls = v.calls := by
  induction v using byChildren with
  | parts v ih =>
    cases v with
    | object c i xs =>
      rw [copiedAt, calls, calls, copiedAllAt_eq_map, callsOfAll_congr fun x hx => ih x (.content hx)]
    | list xs => rw [copiedAt, calls, calls, copiedAllAt_eq_map, callsOfAll_congr fun x hx => ih x (.item hx)]
    | tuple xs => rw [copiedAt, calls, calls, copiedAllAt_eq_map, callsOfAll_congr fun x hx => ih x (.place hx)]
    | set frozen xs => rw [copiedAt, calls, calls, copiedAllAt_eq_map, callsOfAll_congr fun x hx => ih x (.element hx)]
    | map readOnly es =>
      have hes := callsOfEntries_congr fun e (he : e ∈ es) => ⟨ih e.1 (.key he), ih e.2 (.entry he)⟩
      cases readOnly <;> rw [copiedAt, calls, calls, copiedEntriesAt_eq_map, hes]
    | _ => rfl

end Value

/-! ## Definitions -/

/-- every default inside a definition can be written -/
def Definition.WritesDefaults (d : Definition) : Prop :=
  ∀ c, Within c d → ∀ a ∈ c.attributes, a.DefaultsTo Value.Short

/-- an attribute that no input breaks: its type is a built-in one, its rules are built from plain data, ask neither a
function nor a schema, have texts as messages and bounds that can be written, and its default is shallow and can be
copied. Where rules ask instances, the defaults in those can be written -/
structure Attribute.Guarded (a : Attribute) : Prop where
  builtin : ∀ t, a.shape = .scalar t → t.IsBuiltin
  built : ∃ options, buildRules options = .ok a.rules ∧ ∀ o ∈ options, o.2.Data
  plainly : ∀ rule ∈ a.rules, rule.Plainly
  worded : ∀ rule ∈ a.rules, Worded rule.message?
  bounded : ∀ rule ∈ a.rules, rule.Bounded
  copied : ∀ v, a.default = some v → v.copyFault? = none
  shallow : ∀ v, a.default = some v → v.Shallow
  asked : a.rules ≠ [] → ∀ e, a.shape.definition? = some e → e.WritesDefaults

/-- without rules there is nothing to build and nothing to ask -/
theorem Attribute.guarded_of_no_rules {name : String} {shape : Shape} {required : Bool} {default : Option Value}
    (ht : ∀ t, shape = .scalar t → t.IsBuiltin) (hdefault : ∀ v, default = some v → v.copyFault? = none ∧ v.Shallow) :
    Attribute.Guarded ⟨name, shape, required, default, []⟩ :=
  ⟨ht, ⟨[], rfl, by simp⟩, by simp, by simp, by simp, fun v hv => (hdefault v hv).1, fun v hv => (hdefault v hv).2,
    fun h => absurd rfl h⟩

namespace Attribute.Guarded

variable {a : Attribute}

theorem steady (h : a.Guarded) : ∀ rule ∈ a.rules, rule.Steady := by
  obtain ⟨options, hbuild, hdata⟩ := h.built
  exact fun rule hr => steady_of_buildRules hbuild hdata hr (h.plainly rule hr) (h.worded rule hr) (h.bounded rule hr)

theorem carries (h : a.Guarded) (strict : Bool) : a.Carries .builtin strict Value.IsOfJson Value.Short where
  untyped _ _ hv := Value.OfJson.writable hv
  cast t ht v w hv hw here := by
    rw [(Registry.makesNone_of_builtin (h.builtin t ht)).placedAt_eq_self hw]
    exact (Registry.fit_of_cast (h.builtin t ht) hv hw).1

end Attribute.Guarded

namespace Definition

variable {d : Definition} {here : Place} {raw : Value}

/-- every attribute is guarded, at every depth -/
def Guarded (d : Definition) : Prop := ∀ c, Within c d → ∀ a ∈ c.attributes, a.Guarded

/-- a definition is guarded if its attributes are, and the definitions of them -/
theorem guarded_of_parts (ha : ∀ a ∈ d.attributes, a.Guarded)
    (hparts : ∀ a ∈ d.attributes, ∀ e, a.shape.definition? = some e → e.Guarded) : d.Guarded :=
  forall_within ha hparts

theorem Guarded.of_part (h : d.Guarded) {a : Attribute} (ha : a ∈ d.attributes) {e : Definition}
    (he : a.shape.definition? = some e) : e.Guarded := fun c hc => h c (.part ha he hc)

/-- an instance that input is read to can be written, if the defaults in it can -/
theorem writable_of_read (hd : d.Guarded) (hdefaults : d.WritesDefaults) (hraw : raw.OfJson) {p : Instance}
    (hp : d.read .builtin here raw = .ok (.ok p)) : (Value.parsed p).Writable :=
  throughout_of_read trivial trivial (fun _ => trivial) (fun c hc a ha => (hd c hc a ha).carries _)
    (fun c hc a ha => Attribute.DefaultsTo.copiesTo (hdefaults c hc a ha) Value.short_copiedAt)
    (fun _ _ _ _ _ _ => trivial) hraw hp

/-- the raw value of an attribute is nested less deep than the mapping that it stands in -/
theorem calls_rawValue {view : KeyView} {a : Attribute} (hview : viewOf raw = .ok view) (hn : a.rawValue view ≠ .null) :
    (a.rawValue view).calls < raw.calls := by
  have hget := Attribute.rawValue_of_given fun h => hn (Attribute.rawValue_eq_null.2 h)
  obtain ⟨e, he, hv⟩ := KeyView.entry_of_get? hview hget
  rw [← hv]
  cases raw with
  | map readOnly es => exact (Value.Child.entry he).calls_lt
  | _ => cases he

theorem shallow_rawValue {view : KeyView} {a : Attribute} (hview : viewOf raw = .ok view) (hshallow : raw.Shallow) :
    (a.rawValue view).Shallow := by
  by_cases hn : a.rawValue view = .null
  · rw [hn]
    exact Nat.zero_le _
  · exact Nat.le_trans (Nat.le_of_lt (calls_rawValue hview hn)) hshallow

/-- a value that an attribute holds is nested so deep as its raw value is, or as the instances in it are -/
theorem calls_of_resolves {n : Nat} {shape : Shape} {strict : Bool} {v w : Value}
    (ht : ∀ t, shape = .scalar t → t.IsBuiltin)
    (hr : Shape.Resolves .builtin here strict shape v w)
    (hinside : ∀ e there x q, shape.definition? = some e → e.read .builtin there x = .ok (.ok q) →
      (Value.parsed q).calls ≤ 4 * (x.calls + 1) + n) : w.calls ≤ 4 * (v.calls + 1) + n := by
  cases hr with
  | untyped => omega
  | @scalar t _ w hcast =>
    rw [(Registry.makesNone_of_builtin (ht t rfl)).placedAt_eq_self hcast]
    have := Registry.calls_of_cast (ht t rfl) hcast
    omega
  | nested _ hq => exact hinside _ _ _ _ rfl hq
  | @arrayOf e _ xs qs hxs hqs =>
    have hall : Value.callsOfAll (qs.map .parsed) ≤ 4 * v.calls + n := Value.callsOfAll_le fun w hw => by
      obtain ⟨q, hq, rfl⟩ := List.mem_map.1 hw
      obtain ⟨x, hx, -, hread⟩ := exists_of_mem_right hqs hq
      have := hinside e _ _ q rfl hread
      have := Value.calls_lt_of_items hxs (List.fst_mem_of_mem_zipIdx hx)
      omega
    rw [Value.calls]
    omega

/-- **An instance is nested about as deep as the mapping that it is read from**: its text takes four calls where that of
a mapping takes one, and those of a default. -/
theorem calls_of_read {n : Nat} (ht : ∀ c, Within c d → ∀ a ∈ c.attributes, ∀ t, a.shape = .scalar t → t.IsBuiltin)
    (hn : ∀ c, Within c d → ∀ a ∈ c.attributes, ∀ v, a.default = some v → v.calls ≤ n) {p : Instance}
    (hp : d.read .builtin here raw = .ok (.ok p)) : (Value.parsed p).calls ≤ 4 * (raw.calls + 1) + n := by
  induction d using byParts generalizing here raw p with
  | parts d ih =>
    obtain ⟨view, rs, hview, hrs, ho⟩ := read_eq_ok.1 hp
    obtain ⟨-, hinst⟩ := gather_eq_ok.1 ho.symm
    have hvalues : Value.callsOfFields p.values ≤ 4 * raw.calls + n := Value.callsOfFields_le fun f hf => by
      rw [hinst] at hf
      obtain ⟨x, hx, -, hxf⟩ := name_of_mem_picked (valuesOf_eq rs ▸ hf)
      obtain ⟨a, ha, hread⟩ := exists_of_mem_right hrs hx
      obtain ⟨-, -, hy⟩ := Attribute.read_eq_ok.1 hread
      rw [NamedReading.reading_of_value? hxf] at hy
      generalize f.2 = w at hy
      cases hy with
      | absent _ _ habs =>
        rcases Attribute.absent_eq_ok.1 habs with ⟨v, hv, -, ho⟩ | ⟨-, ho⟩
        · rw [Option.some.inj ho, Value.calls_copiedAt]
          have := hn d (.here d) a ha v hv
          omega
        · split at ho
          · rw [Option.some.inj ho]
            exact Nat.zero_le _
          · cases ho
      | accepted _ hn' hr _ =>
        have := calls_rawValue hview hn'
        have := calls_of_resolves (ht d (.here d) a ha) (Shape.resolve_eq_ok.1 hr) fun e there x q he hq =>
          ih a ha e he (fun c hc => ht c (.part ha he hc)) (fun c hc => hn c (.part ha he hc)) hq
        omega
    obtain ⟨heading, raw', values, supplied⟩ := p
    rw [Value.calls]
    exact Nat.le_trans (Nat.add_le_add_right hvalues 4) (by omega)

/-- the value that an attribute has from shallow input can be asked by its rules, if it has any -/
theorem askable_of_resolves (hd : d.Guarded) {a : Attribute} (ha : a ∈ d.attributes) (hrules : a.rules ≠ []) {v : Value}
    (hraw : raw.OfJson) (hshallow : raw.Shallow)
    (hr : Shape.Resolves .builtin here d.settings.strictTypes a.shape raw v) : v.Askable := by
  have hg := hd d (.here d) a ha
  have hcalls : v.calls ≤ 4 * (raw.calls + 1) + 100 := calls_of_resolves hg.builtin hr fun e there x q he hq =>
    calls_of_read (fun c hc a ha => (hd.of_part ‹_› he c hc a ha).builtin)
      (fun c hc a ha => (hd.of_part ‹_› he c hc a ha).shallow) hq
  refine ⟨Attribute.throughout_of_resolves (fun _ => trivial) (hg.carries _) hraw hr fun e there raw' q he hraw' hq =>
    writable_of_read (hd.of_part ha he) (hg.asked hrules e he) hraw' hq, ?_, ?_⟩
  · unfold Value.Shallow at hshallow
    unfold Value.callLimit
    omega
  · generalize hshape : a.shape = shape at hr
    cases hr with
    | untyped => exact hraw.inBounds
    | scalar hcast =>
      rw [(Registry.makesNone_of_builtin (hg.builtin _ hshape)).placedAt_eq_self hcast]
      exact (Registry.fit_of_cast (hg.builtin _ hshape) hraw hcast).2
    | nested _ _ => trivial
    | arrayOf _ _ => trivial

/-- the rules of an attribute reply to the value that it has from shallow input -/
theorem replies_of_resolves (hd : d.Guarded) {a : Attribute} (ha : a ∈ d.attributes) {v : Value} (hraw : raw.OfJson)
    (hshallow : raw.Shallow) (hr : Shape.Resolves .builtin here d.settings.strictTypes a.shape raw v) :
    Replies (runRules a.rules v) := by
  by_cases hrules : a.rules = []
  · rw [hrules]
    exact replies_nil
  · exact replies_runRules (hd d (.here d) a ha).steady (askable_of_resolves hd ha hrules hraw hshallow hr)

theorem calm_of_json (hd : d.Guarded) (hraw : raw.OfJson) (hshallow : raw.Shallow) : d.Calm .builtin raw := by
  induction d using byParts generalizing raw with
  | parts d ih =>
    obtain ⟨view, hview⟩ := viewOf_of_json hraw
    have hvalue (a : Attribute) : (a.rawValue view).OfJson := Attribute.throughout_rawValue trivial hraw hview
    have hcalls (a : Attribute) : (a.rawValue view).Shallow := shallow_rawValue hview hshallow
    refine calm_of_parts hview ?_ ?_ ?_ ?_ ?_
    · exact fun a ha v hv => (hd d (.here d) a ha).copied v hv
    · exact fun a ha t _ => Registry.builtin_cast_ok fun _ _ => Nat.lt_of_le_of_lt (hcalls a) (by decide)
    · exact fun a ha _ v hr => replies_of_resolves hd ha (hvalue a) (hcalls a) hr
    · intro a ha e hs _
      have he : a.shape.definition? = some e := by rw [hs]; rfl
      exact ih a ha e he (hd.of_part ha he) (hvalue a) (hcalls a)
    · intro a ha e ys hs hys y hy _
      have he : a.shape.definition? = some e := by rw [hs]; rfl
      exact ih a ha e he (hd.of_part ha he) ((hvalue a).items hys hy)
        (Nat.le_trans (Nat.le_of_lt (Value.calls_lt_of_items hys hy)) (hcalls a))

/-- **The parse of untrusted input that is shallow ends with an instance or is rejected with a report that is not
empty**; it is broken off by nothing else. -/
theorem parse_ok_or_rejected (hd : d.Guarded) {ro : Bool} {es : List (Value × Value)} (hraw : (Value.map ro es).OfJson)
    (hshallow : (Value.map ro es).Shallow) (run : Nat) :
    (∃ p, d.parse .builtin run (.map ro es) = .ok p) ∨
      ∃ rep, d.parse .builtin run (.map ro es) = .error (.rejected rep) ∧ rep.entries ≠ [] := by
  obtain ⟨o, ho, hwritten⟩ := (calm_of_json hd hraw hshallow).read_ok (.root run)
  cases o with
  | ok p => exact .inl ⟨p, parse_eq_ok.2 ho⟩
  | error rep =>
    refine .inr ⟨rep, parse_of_read_error ho (Report.renders_of_written (hwritten rep rfl)), ?_⟩
    obtain ⟨view, rs, -, -, hrep⟩ := read_eq_ok.1 ho
    obtain ⟨hne, rfl⟩ := gather_eq_error.1 hrep.symm
    exact hne

end Definition

/-! ## A letter -/

def sender : Definition :=
  ⟨2, "letter.sender", [⟨"name", .scalar .text, true, none, [.length ⟨none, some 40, none, none⟩]⟩], Settings.default⟩

def letter : Definition :=
  ⟨1, "letter", [⟨"sender", .nested sender, true, none, []⟩, ⟨"copies", .scalar .integer, false, some (.int 1), []⟩],
    Settings.default⟩

def letterForm : List (Value × Value) :=
  [(.text "sender", .map false [(.text "name", .text "Ada")]), (.text "copies", .list [.text "two"])]

/-- the rule about the length of a name is built from plain data -/
theorem shortName_built : buildRules (Fields.entries [("length", Value.ofFields [("maximum", .int 40)])]) =
    .ok [.length ⟨none, some 40, none, none⟩] := by
  have hmessage : popMessage "length" (Fields.entries [("maximum", .int 40)]) =
      .ok (none, Fields.entries [("maximum", .int 40)]) := by
    rw [popMessage, Parts.pop_of_absent (by decide)]
    rfl
  have hlength : lengthOf (Fields.entries [("maximum", .int 40)]) = .ok (.length ⟨none, some 40, none, none⟩) := by
    simp only [lengthOf, hmessage, ok_bind,
      Parts.pop_of_absent (show "minimum" ∉ Fields.names [("maximum", .int 40)] by decide),
      Parts.pop_first (show "maximum" ∉ Fields.names [] by decide)]
    rfl
  refine buildRules_cons (r := .length ⟨none, some 40, none, none⟩) rfl ?_ rfl
  show (buildLength (Value.ofFields [("maximum", .int 40)]) >>= fun x => .ok [x]) = _
  rw [buildLength_eq]
  exact congrArg (· >>= fun x => Except.ok [x]) hlength

theorem sender_guarded : sender.Guarded := by
  refine Definition.guarded_of_parts ?_ (by simp [sender, Shape.definition?])
  rw [sender, List.forall_mem_singleton]
  constructor
  case builtin => rintro t ⟨⟩ c ⟨⟩
  case built =>
    have hdata : (Value.ofFields [("maximum", .int 40)]).Data := by
      simp only [Value.ofFields, List.map_cons, List.map_nil, Value.Throughout.map_iff, List.forall_mem_singleton]
      exact ⟨trivial, Value.Throughout.text_iff.2 trivial, .of_leaf trivial fun x hx => by cases hx⟩
    exact ⟨_, shortName_built, List.forall_mem_singleton.2 hdata⟩
  case plainly => exact List.forall_mem_singleton.2 ⟨by decide, by decide⟩
  case worded => exact List.forall_mem_singleton.2 worded_none
  case bounded =>
    refine List.forall_mem_singleton.2 ?_
    rintro n (⟨⟨⟩⟩ | ⟨⟨⟩⟩ | ⟨⟨⟩⟩)
    rfl
  case copied => rintro v ⟨⟩
  case shallow => rintro v ⟨⟩
  case asked => rintro - e ⟨⟩

theorem letter_guarded : letter.Guarded := by
  refine Definition.guarded_of_parts ?_ (by simp [letter, Shape.definition?, sender_guarded])
  have hsender : Attribute.Guarded ⟨"sender", .nested sender, true, none, []⟩ :=
    Attribute.guarded_of_no_rules (by rintro t ⟨⟩) (by rintro v ⟨⟩)
  have hcopies : Attribute.Guarded ⟨"copies", .scalar .integer, false, some (.int 1), []⟩ :=
    Attribute.guarded_of_no_rules (by rintro t ⟨⟩ c ⟨⟩)
      (by rintro v ⟨⟩; exact ⟨rfl, by decide⟩)
  exact List.forall_mem_cons.2 ⟨hsender, List.forall_mem_singleton.2 hcopies⟩

/-- a letter whose copies are no number ends with an instance or with a report -/
theorem letterForm_ok_or_rejected : (Value.map false letterForm).OfJson ∧ (Value.map false letterForm).Shallow ∧
    ((∃ p, letter.parse .builtin 0 (.map false letterForm) = .ok p) ∨
      ∃ rep, letter.parse .builtin 0 (.map false letterForm) = .error (.rejected rep) ∧ rep.entries ≠ []) := by
  have hform : (Value.map false letterForm).OfJson := by
    simp [letterForm, Value.Throughout.map_iff, Value.Throughout.text_iff, Value.Throughout.list_iff, Value.IsOfJson]
  have hshallow : (Value.map false letterForm).Shallow := by decide
  exact ⟨hform, hshallow, Definition.parse_ok_or_rejected letter_guarded hform hshallow 0⟩

/-! ## Defaults that break a parse off -/

namespace Definition

/-- an attribute whose default is a read-only mapping -/
def stamped : Definition :=
  ⟨1, "stamped", [⟨"id", .untyped, true, none, []⟩, ⟨"stamp", .untyped, false, some (.map true []), []⟩],
    Settings.default⟩

/-- a nested definition with a number that nothing gives but the default -/
def entry (n : Int) : Definition :=
  ⟨3, "ledger.entry", [⟨"count", .untyped, false, some (.int n), []⟩], Settings.default⟩

/-- a definition with a rule about the length of its entry -/
def ledger (n : Int) : Definition :=
  ⟨2, "ledger", [⟨"entry", .nested (entry n), true, none, [.length ⟨some 1, none, none, none⟩]⟩], Settings.default⟩

def blankEntry : Value := .map false [(.text "count", .null)]

def defaultedEntry (n : Int) : Instance :=
  ⟨⟨3, "ledger.entry", ["count"]⟩, blankEntry, [("count", .int n)], ["count"]⟩

theorem entry_read (n : Int) : (entry n).read .builtin here blankEntry = .ok (.ok (defaultedEntry n)) := by
  simp only [entry, blankEntry, Definition.read]
  rfl

/-- a parse is broken off by what breaks off the reading of its one attribute -/
theorem parse_of_attribute_error {r : Registry} {stamp : Nat} {name : String} {a : Attribute} {settings : Settings}
    {run : Nat} {es : List (Value × Value)} {view : KeyView} {f : Fault} (hview : KeyView.ofEntries es = .ok view)
    (ha : Attribute.read r (.root run) settings.strictTypes view a = .error f) :
    (⟨stamp, name, [a], settings⟩ : Definition).parse r run (.map false es) = .error f := by
  have hread : (⟨stamp, name, [a], settings⟩ : Definition).read r (.root run) (.map false es) = .error f := by
    rw [Definition.read, Value.entries?, Option.getD_some, hview, ok_bind, readAttributes_eq_mapM, List.mapM_cons, ha]
    rfl
  rw [parse_map, hread, error_bind]

/-- an entry whose number is too long for a numeral cannot be asked for its length -/
theorem ledger_broken {run : Nat} {n : Int} (h : intText? n = none) :
    (ledger n).parse .builtin run (.map false [(.text "entry", blankEntry)]) = .error .badValue := by
  have hplain : Value.plain (.parsed (defaultedEntry n)) = .error .badValue := by
    simp [defaultedEntry, Value.plain, Value.plain?, Value.shown?, Value.shownFields?, h, Value.written, Value.calls,
      Value.callsOfFields, Value.callLimit]
  have hrun : runRules [.length ⟨some 1, none, none, none⟩] (.parsed (defaultedEntry n)) = .error .badValue := by
    simp only [runRules, List.mapM_cons, Rule.run, LengthBounds.run, LengthBounds.sizeOf, Value.size?, hplain]
    rfl
  have hresolve : Shape.resolve .builtin ((Place.root run).within "entry") false (.nested (entry n)) blankEntry =
      .ok (.ok (.parsed (defaultedEntry n))) :=
    parseNested_eq_ok.2 ⟨defaultedEntry n, rfl, entry_read n, rfl⟩
  have hattribute : Attribute.read .builtin (.root run) false ⟨[("entry", blankEntry)]⟩
      ⟨"entry", .nested (entry n), true, none, [.length ⟨some 1, none, none, none⟩]⟩ = .error .badValue := by
    rw [Attribute.read_of_not_null rfl (by rintro ⟨⟩)]
    show (Shape.resolve .builtin _ false (.nested (entry n)) blankEntry >>= _) = _
    rw [hresolve, ok_bind, checked, hrun]
    rfl
  exact parse_of_attribute_error rfl hattribute

/-- a question that is answered by yes or no -/
def question : Definition := ⟨4, "question", [⟨"answer", .scalar .boolean, true, none, []⟩], Settings.default⟩

/-- a list that is no answer is not refused where it is nested too deep to be quoted -/
theorem question_broken {run : Nat} {x : Value} {xs : List Value} (h : Value.callLimit ≤ (Value.list (x :: xs)).calls) :
    question.parse .builtin run (.map false [(.text "answer", .list (x :: xs))]) = .error .tooDeep := by
  have hresolve : Shape.resolve .builtin ((Place.root run).within "answer") false (.scalar .boolean) (.list (x :: xs)) =
      .error .tooDeep := by
    show (Registry.builtin.cast .boolean false _ >>= _) = _
    rw [Registry.boolean_too_deep h, error_bind]
  have hattribute : Attribute.read .builtin (.root run) false ⟨[("answer", .list (x :: xs))]⟩
      ⟨"answer", .scalar .boolean, true, none, []⟩ = .error .tooDeep := by
    rw [Attribute.read_of_not_null rfl (by rintro ⟨⟩)]
    show (Shape.resolve .builtin _ false (.scalar .boolean) (.list (x :: xs)) >>= _) = _
    rw [hresolve, error_bind]
  exact parse_of_attribute_error rfl hattribute

/-- a default that cannot be copied, one that cannot be written, and input that is nested too deep break a parse off, with
neither an instance nor a report -/
theorem parse_breaks_off :
    (¬ ((∃ p, stamped.parse .builtin 0 (.map false []) = .ok p) ∨
      ∃ rep, stamped.parse .builtin 0 (.map false []) = .error (.rejected rep) ∧ rep.entries ≠ [])) ∧
    (¬ ((∃ p, (ledger (Nat.pow 10 maxDigits)).parse .builtin 0 (.map false [(.text "entry", blankEntry)]) = .ok p) ∨
      ∃ rep, (ledger (Nat.pow 10 maxDigits)).parse .builtin 0 (.map false [(.text "entry", blankEntry)]) =
      .error (.rejected rep) ∧
        rep.entries ≠ [])) ∧
    ¬ ((∃ p, question.parse .builtin 0 (.map false [(.text "answer", .nested 1100)]) = .ok p) ∨
      ∃ rep, question.parse .builtin 0 (.map false [(.text "answer", .nested 1100)]) = .error (.rejected rep) ∧
        rep.entries ≠ []) := by
  have not_ended {o : Outcome Instance} {f : Fault} (h : o = .error f) (hf : ∀ rep, f ≠ .rejected rep) :
      ¬ ((∃ p, o = .ok p) ∨ ∃ rep, o = .error (.rejected rep) ∧ rep.entries ≠ []) := by
    rintro (⟨p, hp⟩ | ⟨rep, hrep, -⟩)
    · rw [h] at hp
      cases hp
    · rw [h] at hrep
      exact hf rep (Except.error.inj hrep)
  have hdeep : Value.callLimit ≤ (Value.nested 1100).calls := by
    rw [Value.calls_nested]
    decide
  exact ⟨not_ended (f := .illTyped) rfl (by rintro rep ⟨⟩),
    not_ended (ledger_broken (intText?_of_long (Nat.le_refl _))) (by rintro rep ⟨⟩),
    not_ended (question_broken hdeep) (by rintro rep ⟨⟩)⟩

end Definition

end Intake
