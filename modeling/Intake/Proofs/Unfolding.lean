/-
A recursive projection unfolds an instance to its end.

An instance holds instances in two ways only: as the value of an attribute with a definition of its own, and in the
list of an attribute that is an array of them. A projection unfolds both, and goes into lists, but into no other
collection. That no instance is left therefore rests on where instances come from. A parse makes them where a
definition says so, and there are none in what is given from outside: raw input, defaults
(`Definition.DefaultsPlainly`), and what converters make of raw input (`Definition.CastsPlainly`; the built-in ones
make none, and neither does the constructor of a class).

The projection with written keys goes the same way and comes to the same (`Parsed.stringifyKeys_eq`).

Results:
- `Value.withoutInstances_projected`: what is left after unfolding;
- `Attribute.unfolds_of_yields`: what becomes of the value of an attribute;
- `Definition.unfolds_of_parse`: what becomes of an instance.
-/
import Intake.Proofs.Casting
import Intake.Proofs.Json.Reading
import Intake.Proofs.KeyLookup

namespace Intake

open Outcome

/-! ## Names and unfolded values -/

namespace Parsed

variable {p : Instance}

/-- the entries of an unfolded instance are its names, each with the value of its attribute unfolded -/
theorem toHash_eq (hn : (p.values.map (·.1)).Nodup) :
    p.toHash true = .map false (p.keys.map fun name => (.text name, (p.valueOf name).projected)) := by
  have hpairs : (p.values.filter fun e => p.supplied.contains e.1) = p.keys.map fun name => (name, p.valueOf name) :=
    pairs_eq hn
  rw [toHash, if_pos rfl]
  obtain ⟨heading, raw, values, supplied⟩ := p
  rw [Value.projected, Value.projectedFields_eq, hpairs, Fields.entries, List.map_map, List.map_map]
  rfl

end Parsed

/-! ## What is left -/

namespace Value

/-- a value that is unfolded, or one in which there is nothing to unfold -/
def Opens (v : Value) : Prop := v.IsParsed ∨ (∃ xs, v = .list xs) ∨ v.WithoutInstances

theorem WithoutInstances.opens {v : Value} (h : v.WithoutInstances) : v.Throughout Opens := by
  induction h with
  | intro here inside ih => exact .intro (.inr (.inr (.intro here inside))) ih

/-- **Unfolding leaves no instance** in a value that holds instances only in instances and in lists. -/
theorem withoutInstances_projected {v : Value} (h : v.Throughout Opens) : v.projected.WithoutInstances := by
  induction v using byInstances with
  | parsed p ih =>
    obtain ⟨heading, raw, values, supplied⟩ := p
    rw [projected]
    refine Throughout.map_iff.2 ⟨id, fun e he => ?_⟩
    obtain ⟨f, hf, rfl⟩ := mem_projectedFields he
    exact ⟨Throughout.text_iff.2 id, ih f hf (h.child (.field hf))⟩
  | list xs ih =>
    rw [projected, projectedAll_eq_map]
    refine Throughout.list_iff.2 ⟨id, fun y hy => ?_⟩
    obtain ⟨x, hx, rfl⟩ := List.mem_map.1 hy
    exact ih x hx (h.child (.item hx))
  | other v hv =>
    rcases h.here with hparsed | ⟨xs, rfl⟩ | hplain
    · cases v with
      | parsed p => exact absurd rfl (hv.1 p)
      | _ => exact absurd hparsed id
    · exact absurd rfl (hv.2 xs)
    · rwa [projected_eq_self hplain]

end Value

/-! ## What is copied, and what converters make -/

theorem Value.isParsed_copiedAt {v : Value} {here : Place} : (v.copiedAt here).IsParsed ↔ v.IsParsed := by
  cases v <;> rfl

theorem Value.WithoutInstances.copiedAt {v : Value} (h : v.WithoutInstances) (here : Place) :
    (v.copiedAt here).WithoutInstances :=
  Throughout.copiedAt (fun _ hx hcopy => hx (isParsed_copiedAt.1 hcopy)) h

theorem Value.WithoutInstances.placedAt {v : Value} (h : v.WithoutInstances) (here : Place) (strict : Bool) :
    (v.placedAt here strict).WithoutInstances := by
  unfold Value.placedAt
  split
  · refine .intro id fun x hx => ?_
    cases hx with
    | content hx => exact h.child (.content hx)
  · exact h

/-- a converter makes no instance out of a value that has none -/
def Caster.KeepsPlain (k : Caster) : Prop := ∀ v w, v.WithoutInstances → k.convert v = .ok w → w.WithoutInstances

namespace Registry

variable {r : Registry} {t : ValueType} {v w : Value} {strict : Bool}

theorem withoutInstances_of_construct {c : HostClass} (hv : v.WithoutInstances) (h : Cast.construct c v = .ok w) :
    w.WithoutInstances := by
  have object : (Value.object c .new [v]).WithoutInstances := .intro id fun x hx => by
    cases hx with
    | content hx => rwa [List.mem_singleton.1 hx]
  unfold Cast.construct at h
  split at h
  · cases h
    exact object
  · split at h
    · cases h
      exact object
    · cases h
  · cases h

/-- the constructor of an unregistered class makes no instance either -/
theorem keepsPlain_casterOf (hk : ∀ k, r.casterOf? t = some k → k.KeepsPlain) : (r.casterOf t).KeepsPlain := by
  unfold casterOf
  split
  · next k h => exact hk k h
  · intro v w hv h
    cases t with
    | custom c => exact withoutInstances_of_construct hv h
    | _ => cases h

/-- a cast makes no instance if the converter of its type makes none -/
theorem withoutInstances_of_keepsPlain (hk : ∀ k, r.casterOf? t = some k → k.KeepsPlain) (hv : v.WithoutInstances)
    (h : r.cast t strict v = .ok (.ok w)) : w.WithoutInstances := by
  have convert (h : convertWith (r.casterOf t) v = .ok (.ok w)) : w.WithoutInstances :=
    keepsPlain_casterOf hk v w hv (convertWith_eq_ok.1 h)
  unfold cast at h
  simp only at h
  split_ifs at h
  · cases h
  · exact convert h
  · cases h
    exact hv
  · cases h
    exact hv
  · exact convert h

theorem keepsPlain_builtin {k : Caster} (h : builtin.casterOf? t = some k) : k.KeepsPlain := by
  intro v w hv hw
  have ht : t.IsBuiltin := by
    rintro c rfl
    cases h
  have hcast : builtin.cast t false v = .ok (.ok w) := by
    refine (cast_eq_ok ht).2 ⟨nofun, ?_⟩
    rw [if_neg (fun hc => Bool.false_ne_true hc.1), casterOf, h]
    exact hw
  exact withoutInstances_of_cast ht hv hcast

/-- registering a type adds its converter to those that make no instances -/
theorem keepsPlain_register {r' : Registry} {u : ValueType} {convert : Value → Outcome Value}
    {name message : Option String}
    (hr : ∀ t k, r.casterOf? t = some k → k.KeepsPlain)
    (hconvert : ∀ v w, v.WithoutInstances → convert v = .ok w → w.WithoutInstances)
    (h : r.register (.type u) convert name message = .ok r') {k : Caster} (hk : r'.casterOf? t = some k) :
    k.KeepsPlain := by
  by_cases ht : t = u
  · subst ht
    cases h
    rw [casterOf?, find_put_self] at hk
    cases hk
    exact hconvert
  · rw [casterOf?_register_ne h ht] at hk
    exact hr t k hk

end Registry

/-- the types of an attribute make no instances -/
def Attribute.CastsPlainly (r : Registry) (a : Attribute) : Prop :=
  ∀ t k, a.shape = .scalar t → r.casterOf? t = some k → k.KeepsPlain

/-- the types of a definition make no instances, at any depth -/
def Definition.CastsPlainly (r : Registry) (d : Definition) : Prop :=
  ∀ c, Within c d → ∀ a ∈ c.attributes, a.CastsPlainly r

/-- there are no instances in the defaults of a definition, at any depth -/
def Definition.DefaultsPlainly (d : Definition) : Prop :=
  ∀ c, Within c d → ∀ a ∈ c.attributes, ∀ v, a.default = some v → v.WithoutInstances

theorem Definition.castsPlainly_of_registry {r : Registry} (hr : ∀ t k, r.casterOf? t = some k → k.KeepsPlain)
    (d : Definition) : d.CastsPlainly r := fun _ _ _ _ t k _ => hr t k

theorem Definition.defaultsPlainly_of_parts {d : Definition}
    (hd : ∀ a ∈ d.attributes, ∀ v, a.default = some v → v.WithoutInstances)
    (hparts : ∀ a ∈ d.attributes, ∀ e, a.shape.definition? = some e → e.DefaultsPlainly) : d.DefaultsPlainly :=
  forall_within hd hparts

/-! ## What becomes of an attribute -/

namespace Attribute

variable {r : Registry} {here : Place} {strict : Bool} {view : KeyView} {a : Attribute} {v : Value}

/-- what becomes of the value of an attribute, which has been made of a raw one in a place -/
inductive Unfolds (r : Registry) (here : Place) (a : Attribute) (raw : Value) : Value → Value → Prop where
  /-- an instance that was parsed is its own hash -/
  | nested {e : Definition} {q : Instance} : a.shape = .nested e → raw.entries?.isSome → e.read r here raw = .ok (.ok q) →
      Unfolds r here a raw (.parsed q) (q.toHash true)
  /-- an array that was parsed is the list of the hashes of its elements -/
  | array {e : Definition} {xs : List Value} {qs : List Instance} : a.shape = .arrayOf e → raw.items? = some xs →
      List.Forall₂ (fun x q => x.1.entries?.isSome ∧
        e.read r (here.within (numeral x.2)) x.1 = .ok (.ok q)) xs.zipIdx qs →
      Unfolds r here a raw (.list (qs.map .parsed)) (.list (qs.map fun q => q.toHash true))
  /-- a value without a definition, or one that was not parsed, is itself, and there are no instances in it -/
  | other {v : Value} : a.shape.definition? = none ∨ raw = .null → v.WithoutInstances → Unfolds r here a raw v v

theorem Unfolds.of_plain {raw : Value} (hraw : a.shape.definition? = none ∨ raw = .null) (hv : v.WithoutInstances) :
    a.Unfolds r here raw v v.projected := by
  rw [Value.projected_eq_self hv]
  exact .other hraw hv

/-- the projection of what an attribute has made of a raw value without instances -/
theorem unfolds_of_yields (hcasts : a.CastsPlainly r) (hdefault : ∀ w, a.default = some w → w.WithoutInstances)
    (hraw : (a.rawValue view).WithoutInstances) (hy : a.Yields r here strict view (.ok (some v))) :
    a.Unfolds r (here.within a.name) (a.rawValue view) v v.projected := by
  cases hy with
  | absent _ hnull habsent =>
    refine .of_plain (.inr hnull) ?_
    rcases absent_eq_ok.1 habsent with ⟨w, hw, -, ho⟩ | ⟨-, ho⟩
    · cases ho
      exact Value.WithoutInstances.copiedAt (hdefault w hw) _
    · split at ho
      · cases ho
        rwa [hnull] at hraw
      · cases ho
  | accepted _ _ hresolve _ =>
    have hres := Shape.resolve_eq_ok.1 hresolve
    generalize hshape : a.shape = shape at hres
    cases hres with
    | untyped => exact .of_plain (.inl (by rw [hshape]; rfl)) hraw
    | scalar hcast =>
      have hplain := Registry.withoutInstances_of_keepsPlain (fun k => hcasts _ k hshape) hraw hcast
      exact .of_plain (.inl (by rw [hshape]; rfl)) (hplain.placedAt _ _)
    | nested hmap hq => exact .nested hshape hmap hq
    | arrayOf hxs hqs =>
      rw [Value.projected, Value.projectedAll_eq_map, List.map_map]
      exact .array hshape hxs hqs

end Attribute

/-! ## What becomes of an instance -/

/-- what a recursive projection makes of an instance that a definition has made of a raw value -/
structure Parsed.Unfolds (r : Registry) (here : Place) (d : Definition) (raw : Value) (p : Instance) : Prop where
  /-- with written keys it is the same -/
  stringified : p.stringifyKeys true = p.toHash true
  /-- no instance is left, at any depth -/
  plain : (p.toHash true).WithoutInstances
  /-- the names of the instance are declared, in this order and once -/
  declared : p.keys.Sublist d.names ∧ p.keys.Nodup
  /-- they are the keys of the projection, and each attribute has become what its kind becomes -/
  entries : ∃ view es, Definition.viewOf raw = .ok view ∧ p.toHash true = .map false es ∧
    es.map (·.1) = p.keys.map .text ∧
    ∀ a ∈ d.attributes, a.name ∈ p.keys → ∃ w, (.text a.name, w) ∈ es ∧
    a.Unfolds r (here.within a.name) (a.rawValue view) (p.valueOf a.name) w

namespace Definition

variable {r : Registry} {here : Place} {d : Definition} {raw : Value} {p : Instance}

/-- what stands in an instance is unfolded, or has nothing to unfold -/
theorem opens_of_read (hc : d.CastsPlainly r) (hdefaults : d.DefaultsPlainly) (hraw : raw.WithoutInstances)
    (h : d.read r here raw = .ok (.ok p)) : (Value.parsed p).Throughout Value.Opens := by
  have hnull : Value.WithoutInstances .null := .of_leaf id fun x hx => by cases hx
  refine throughout_of_read (Q := fun v => ¬ v.IsParsed) id hnull.opens.here (fun xs => .inr (.inl ⟨xs, rfl⟩))
    (fun c hcd a ha => ?_) (fun c hcd a ha v hv here => ((hdefaults c hcd a ha v hv).copiedAt here).opens)
    (fun _ _ _ _ _ _ => .inl trivial) hraw h
  exact ⟨fun _ _ => Value.WithoutInstances.opens, fun t ht v w hv hw here =>
    ((Registry.withoutInstances_of_keepsPlain (fun k => hc c hcd a ha t k ht) hv hw).placedAt here _).opens⟩

/-- the names of an instance are the declared ones whose keys are there -/
theorem keys_of_read (hn : d.names.Nodup) {view : KeyView} (hview : viewOf raw = .ok view)
    (h : d.read r here raw = .ok (.ok p)) :
    p.keys = d.names.filter fun name => (view.get? name).isSome := by
  obtain ⟨view', rs, hview', hrs, hnodup, hp, hall⟩ := gathers_of_read hn h
  cases hview.symm.trans hview'
  rw [hp, Parsed.keys_of_gathered hnodup fun x hx => hrs.value_of_supplied hx (hall x hx).1, hrs.suppliedOf_eq]
  rfl

/-- the recursive projection of an instance that is read unfolds everything -/
theorem unfolds_of_read (hn : d.names.Nodup) (hc : d.CastsPlainly r) (hdefaults : d.DefaultsPlainly)
    (hraw : raw.WithoutInstances) (h : d.read r here raw = .ok (.ok p)) : p.Unfolds r here d raw := by
  obtain ⟨view, -, hview, -⟩ := read_eq_ok.1 h
  have hkeys := keys_of_read hn hview h
  have hvalues : (p.values.map (·.1)).Nodup := nodup_of_read hn h
  have hdeclared : p.keys.Sublist d.names := hkeys ▸ List.filter_sublist
  constructor
  case stringified => exact Parsed.stringifyKeys_eq p true
  case plain => exact Value.withoutInstances_projected (opens_of_read hc hdefaults hraw h)
  case declared => exact ⟨hdeclared, hdeclared.nodup hn⟩
  case entries =>
    refine ⟨view, _, hview, Parsed.toHash_eq hvalues, ?_, fun a ha hname => ⟨_, List.mem_map_of_mem hname, ?_⟩⟩
    · rw [List.map_map]
      rfl
    · obtain ⟨o, hy, hmem⟩ := yields_of_read hview h ha
      -- the key of the attribute is there, so it has a value
      rw [hkeys] at hname
      have hsupplied : a.suppliedIn view = true := (List.mem_filter.1 hname).2
      obtain ⟨v, rfl⟩ := Option.isSome_iff_exists.1 (hy.isSome_of_supplied hsupplied)
      have hvalue : p.valueOf a.name = v := Parsed.valueOf_eq hvalues (hmem v rfl)
      rw [hvalue]
      exact Attribute.unfolds_of_yields (hc d (.here d) a ha) (hdefaults d (.here d) a ha)
        (Attribute.throughout_rawValue id hraw hview) hy

/-- **A recursive projection unfolds everything**: no instance is left in it at any depth, with written keys it is the
same, and every attribute whose key was there is under its name, as the hash, the list of hashes or the value that it
holds. -/
theorem unfolds_of_parse {run : Nat} {ro : Bool} {es : List (Value × Value)} (hn : d.names.Nodup) (hc : d.CastsPlainly r)
    (hdefaults : d.DefaultsPlainly) (hraw : (Value.map ro es).WithoutInstances) (h : d.parse r run (.map ro es) = .ok p) :
    p.Unfolds r (.root run) d (.map ro es) :=
  unfolds_of_read hn hc hdefaults hraw (parse_eq_ok.1 h)

end Definition

/-! ## A booking and a coupon -/

/-- a booking that is paid for, maybe with a coupon -/
def checkout : Definition :=
  ⟨4, "checkout", [⟨"booking", .nested booking, true, none, []⟩,
    ⟨"coupon", .scalar (.custom Registry.coupon), false, some (.text "none"), []⟩], Settings.default⟩

def checkoutForm : List (Value × Value) := [(.text "coupon", .text "SPRING"), (.text "booking", .map false bookingForm)]

def checkedOut : Instance :=
  ⟨checkout.heading, .map false checkoutForm,
    [("booking", .parsed booked), ("coupon", .object Registry.coupon .new [.text "SPRING"])], ["booking", "coupon"]⟩

theorem checkout_castsPlainly : checkout.CastsPlainly .withCoupons := by
  have hregister :
    Registry.builtin.register (.type (.custom Registry.coupon)) (Cast.construct Registry.coupon) none none =
      .ok .withCoupons := rfl
  exact Definition.castsPlainly_of_registry
    (fun _ _ => Registry.keepsPlain_register (fun _ _ => Registry.keepsPlain_builtin)
    (fun _ _ => Registry.withoutInstances_of_construct) hregister) checkout

theorem checkout_defaultsPlainly : checkout.DefaultsPlainly := by
  have hguest : guest.DefaultsPlainly := by
    refine Definition.defaultsPlainly_of_parts ?_ (by simp [guest, Shape.definition?])
    simpa [guest] using Value.Throughout.of_leaf id fun x hx => by cases hx
  have hroom : room.DefaultsPlainly :=
    Definition.defaultsPlainly_of_parts (by simp [room]) (by simp [room, Shape.definition?])
  have hbooking : booking.DefaultsPlainly :=
    Definition.defaultsPlainly_of_parts (by simp [booking]) (by simp [booking, Shape.definition?, hguest, hroom])
  exact Definition.defaultsPlainly_of_parts (by simp [checkout, Value.Throughout.text_iff, Value.IsParsed])
    (by simp [checkout, Shape.definition?, hbooking])

/-- a booking inside is unfolded with its guest and its rooms, and the coupon is kept -/
theorem checkedOut_unfolds : checkout.parse .withCoupons 0 (.map false checkoutForm) = .ok checkedOut ∧
    checkedOut.Unfolds .withCoupons (.root 0) checkout (.map false checkoutForm) ∧
    checkedOut.toHash true = .map false [
      (.text "booking", .map false [
        (.text "guest", .map false [(.text "name", .text "Ada"), (.text "age", .int 18)]),
        (.text "rooms", .list [.map false [(.text "price", .decimal (.finite false 1250 (-2)))]])]),
      (.text "coupon", .object Registry.coupon .new [.text "SPRING"])] := by
  have hp : checkout.parse .withCoupons 0 (.map false checkoutForm) = .ok checkedOut := rfl
  have hform : (Value.map false checkoutForm).WithoutInstances := by
    simp [checkoutForm, bookingForm, Value.Throughout.map_iff, Value.Throughout.list_iff, Value.Throughout.text_iff,
      Value.IsParsed]
  exact ⟨hp, Definition.unfolds_of_parse (by decide) checkout_castsPlainly checkout_defaultsPlainly hform hp, rfl⟩

end Intake
