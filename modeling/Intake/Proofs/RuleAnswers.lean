/-
Rules that answer with texts.

A rule asks a value for its text, its size, or the number that it denotes, and shows its own bounds in messages. It
has an answer to every value that has these (`Value.Askable`) if its bounds are numbers that can be compared and
written and its messages are texts (`Rule.Steady`). The rules that are built from plain data are so, except that a
bound may be too long to be written and that the message of a presence rule may be anything.

Results:
- `Rule.Steady.run`: a steady rule answers every askable value, with texts;
- `steady_of_buildRules`: rules built from plain data are steady.
-/
import Intake.Proofs.BinaryText
import Intake.Proofs.RuleSight
import Intake.Proofs.ShownValues

namespace Intake

open Outcome Number

/-! ## Values -/

namespace Value

/-- a finite number whose text is within the bounds -/
def Comparable : Value → Prop
  | .int n => (intText? n).isSome
  | .float x => x.Bounded ∧ x.isFinite = true
  | .decimal d => d.isFinite = true
  | _ => False

/-- no range, and no number that is out of bounds -/
def InBounds : Value → Prop
  | .float x => x.Bounded
  | .decimal d => d.isFinite = true
  | .range .. => False
  | _ => True

/-- a value that has a text and can be counted -/
structure Askable (v : Value) : Prop where
  writable : v.Writable
  calls : v.calls < callLimit
  inBounds : v.InBounds

theorem Askable.plain_ok {v : Value} (h : v.Askable) : ∃ s, v.plain = .ok s :=
  Value.plain_ok (shown?_isSome h.writable) h.calls

theorem plain_int {n : Int} (h : (intText? n).isSome) : ∃ s, (Value.int n).plain = .ok s :=
  Value.plain_ok h (calls_int_lt n)

end Value

theorem comparable_of_asNumber {v n : Value} (hint : ∀ i, v = .int i → (intText? i).isSome)
    (hfloat : ∀ x, v = .float x → x.Bounded) (h : asNumber v = some n) : n.Comparable := by
  unfold asNumber at h
  split at h
  · next i =>
    cases h
    exact hint i rfl
  · next x =>
    obtain ⟨hx, h⟩ := Option.ite_none_right_eq_some.1 h
    cases h
    exact ⟨hfloat x rfl, hx⟩
  · obtain ⟨hd, h⟩ := Option.ite_none_right_eq_some.1 h
    cases h
    exact hd
  · split at h
    · obtain ⟨hd, h⟩ := Option.ite_none_right_eq_some.1 h
      cases h
      exact hd
    · cases h
  · split at h
    · obtain ⟨hd, h⟩ := Option.ite_none_right_eq_some.1 h
      cases h
      exact hd
    · cases h
  · cases h

/-! ## Answers -/

/-- a step gives messages, all of them texts -/
def Replies (x : Outcome (List Value)) : Prop := ∃ ms, x = .ok ms ∧ ∀ m ∈ ms, m.text?.isSome

theorem replies_nil : Replies (.ok []) := ⟨[], rfl, by rintro m ⟨⟩⟩

theorem replies_bind {α : Type} {x : Outcome α} {f : α → Outcome (List Value)} (hx : ∃ a, x = .ok a)
    (hf : ∀ a, Replies (f a)) : Replies (x >>= f) := by
  obtain ⟨a, rfl⟩ := hx
  exact hf a

/-- messages of three steps in a row, of which the first gives what the messages are taken from -/
theorem replies_three {α : Type} {x : Outcome α} {f : α → List Value} {y z : Outcome (List Value)}
    (hx : ∃ a, x = .ok a ∧ ∀ m ∈ f a, m.text?.isSome) (hy : Replies y) (hz : Replies z) :
    Replies (do
      let a ← x
      let ms ← y
      let ns ← z
      .ok (f a ++ ms ++ ns)) := by
  obtain ⟨a, rfl, ha⟩ := hx
  obtain ⟨ms, rfl, hms⟩ := hy
  obtain ⟨ns, rfl, hns⟩ := hz
  refine ⟨f a ++ ms ++ ns, rfl, fun m hm => ?_⟩
  rcases List.mem_append.1 hm with hm | hm
  · exact (List.mem_append.1 hm).elim (ha m) (hms m)
  · exact hns m hm

theorem replies_mapM {α : Type} {f : α → Outcome (List Value)} {xs : List α} (h : ∀ x ∈ xs, Replies (f x)) :
    ∃ mss, xs.mapM f = .ok mss ∧ ∀ m ∈ mss.flatten, m.text?.isSome := by
  obtain ⟨mss, hmss⟩ := mapM_ok_of_forall fun x hx => (h x hx).imp fun ms hms => hms.1
  refine ⟨mss, hmss, fun m hm => ?_⟩
  obtain ⟨ms, hms, hm⟩ := List.mem_flatten.1 hm
  obtain ⟨x, hx, hxm⟩ := exists_of_mem_right (mapM_eq_ok.1 hmss) hms
  obtain ⟨ms', hms', htexts⟩ := h x hx
  rw [hms'] at hxm
  cases hxm
  exact htexts m hm

/-- a rule's message is a text if its own one is and the usual one can be written -/
theorem replies_messageIf {message : Option Value} {usual : Outcome String} (broken : Bool) (hm : Worded message)
    (hu : ∃ s, usual = .ok s) : Replies (messageIf broken message usual) := by
  obtain ⟨s, rfl⟩ := hu
  unfold messageIf
  split
  · unfold messageOr
    split
    · next m hown =>
      refine ⟨[m], rfl, List.forall_mem_singleton.2 (hm m ?_)⟩
      exact (Option.filter_eq_some_iff.1 hown).1
    · exact ⟨[.text s], rfl, List.forall_mem_singleton.2 rfl⟩
  · exact replies_nil

/-! ## Numbers -/

namespace Numericality

theorem finite_ofBinary64 {x : Binary64} (h : x.isFinite = true) : (Decimal.ofBinary64 x).isFinite = true := by
  cases x with
  | finite s m e =>
    unfold Decimal.ofBinary64
    dsimp only
    split <;> rfl
  | nan p => cases h
  | infinite s => cases h

theorem compare?_of_finite {a b : Decimal} (ha : a.isFinite = true) (hb : b.isFinite = true) :
    ∃ o, Cast.orBad (a.compare? b) = .ok o := by
  cases a with
  | finite s c e =>
    cases b with
    | finite t d f => exact ⟨_, rfl⟩
    | _ => cases hb
  | _ => cases ha

/-- a number that can be compared is widened to a finite decimal -/
theorem widened_ok {v : Value} (h : v.Comparable) : ∃ d, widened v = .ok d ∧ d.isFinite = true := by
  cases v with
  | int n => exact ⟨_, if_pos h, rfl⟩
  | float x =>
    obtain ⟨d, hd, hfinite⟩ := Binary64.decimal_of_text h.1 h.2
    exact ⟨d, by rw [widened, hd]; rfl, hfinite⟩
  | decimal d => exact ⟨d, rfl, h⟩
  | _ => exact absurd h id

theorem numeric?_of_comparable {v : Value} (h : v.Comparable) : ∃ d, v.numeric? = some d ∧ d.isFinite = true := by
  cases v with
  | int n => exact ⟨_, rfl, rfl⟩
  | float x => exact ⟨_, rfl, finite_ofBinary64 h.2⟩
  | decimal d => exact ⟨d, rfl, h⟩
  | _ => exact absurd h id

/-- two such numbers have an order, of whatever kinds they are -/
theorem compare_ok {number bound : Value} (hn : number.Comparable) (hb : bound.Comparable) :
    ∃ o, compare number bound = .ok o := by
  unfold compare
  split
  · obtain ⟨a, ha, hfa⟩ := widened_ok hn
    obtain ⟨b, hb, hfb⟩ := widened_ok hb
    rw [ha, ok_bind, hb, ok_bind]
    exact compare?_of_finite hfa hfb
  · obtain ⟨a, ha, hfa⟩ := numeric?_of_comparable hn
    obtain ⟨b, hb, hfb⟩ := numeric?_of_comparable hb
    rw [ha, hb]
    exact compare?_of_finite hfa hfb

theorem boundText_ok {v : Value} (h : v.Comparable) : ∃ s, boundText v = .ok s := by
  cases v with
  | int n => exact Value.plain_int h
  | float x =>
    unfold boundText
    dsimp only
    split
    · cases ht : x.truncate? with
      | none => exact ⟨_, rfl⟩
      | some n => exact Value.plain_int (Binary64.truncate?_short h.1 ht)
    · exact ⟨_, rfl⟩
  | decimal d => exact ⟨_, rfl⟩
  | _ => exact absurd h id

theorem replies_run {r : Numericality} (hb : ∀ b ∈ r.bounds, b.2.Comparable) (hm : Worded r.message) {v : Value}
    (hv : v.Askable) : Replies (r.run v) := by
  have hnumber {n : Value} (hn : asNumber v = some n) : n.Comparable :=
    comparable_of_asNumber (fun i hi => by subst hi; exact hv.writable.here)
    (fun x hx => by subst hx; exact hv.inBounds) hn
  unfold run
  split
  · exact replies_messageIf true hm ⟨_, rfl⟩
  · next number hn =>
    dsimp only
    split
    · exact replies_messageIf true hm ⟨_, rfl⟩
    · refine replies_three (replies_mapM fun b hmem => ?_) (replies_messageIf _ hm ⟨_, rfl⟩)
        (replies_messageIf _ hm ⟨_, rfl⟩)
      refine replies_bind (compare_ok (hnumber hn) (hb b hmem)) fun o => replies_messageIf _ hm ?_
      obtain ⟨s, hs⟩ := boundText_ok (hb b hmem)
      exact ⟨_, by rw [hs]; rfl⟩

end Numericality

/-! ## Sizes and texts -/

namespace LengthBounds

theorem sizeOf_ok {v : Value} (h : v.Askable) : ∃ n, sizeOf v = .ok n := by
  have of_plain : ∃ n, v.plain.map String.length = .ok n := by
    obtain ⟨s, hs⟩ := h.plain_ok
    exact ⟨s.length, by rw [hs]; rfl⟩
  unfold sizeOf
  split
  · exact absurd h.inBounds id
  · split
    · exact ⟨_, rfl⟩
    · exact of_plain

theorem replies_checkBound {message : Option Value} {bound : Option Int} (hm : Worded message)
    (hb : ∀ n, bound = some n → (intText? n).isSome) (broken : Int → Bool) (before after : String) :
    Replies (checkBound message bound broken before after) := by
  unfold checkBound
  split
  · exact replies_nil
  · next b =>
    obtain ⟨s, hs⟩ := Value.plain_int (hb b rfl)
    exact replies_messageIf _ hm ⟨before ++ s ++ after, by rw [words, hs]; rfl⟩

/-- the bounds of a rule about length -/
def Has (r : LengthBounds) (n : Int) : Prop := r.minimum = some n ∨ r.maximum = some n ∨ r.exactly = some n

theorem replies_run {r : LengthBounds} (hb : ∀ n, r.Has n → (intText? n).isSome) (hm : Worded r.message) {v : Value}
    (hv : v.Askable) : Replies (r.run v) := by
  obtain ⟨size, hsize⟩ := sizeOf_ok hv
  refine replies_bind ⟨(size : Int), by rw [hsize]; rfl⟩ fun n => ?_
  have hexact : Replies (checkBound r.message r.exactly (n != ·) "is the wrong length (should be " " characters)") :=
    replies_checkBound hm (fun n hn => hb n (.inr (.inr hn))) _ _ _
  have hshort : Replies (checkBound r.message r.minimum (n < ·) "is too short (minimum is " " characters)") :=
    replies_checkBound hm (fun n hn => hb n (.inl hn)) _ _ _
  have hlong : Replies (checkBound r.message r.maximum (· < n) "is too long (maximum is " " characters)") :=
    replies_checkBound hm (fun n hn => hb n (.inr (.inl hn))) _ _ _
  exact replies_three hexact hshort hlong

end LengthBounds

/-! ## Values among others -/

namespace Membership

/-- what stands in a rule is no decimal, so that no comparison with it signals -/
def Silent (r : Membership) : Prop := ∀ xs, r.values.items? = some xs → ∀ x ∈ xs, ∀ d, x ≠ .decimal d

theorem signalsWith_eq_false {v x : Value} (hv : v.InBounds) (hx : ∀ d, x ≠ .decimal d) : v.signalsWith x = false := by
  unfold Value.signalsWith
  dsimp only
  split
  · cases hv
  · split
    · exact absurd rfl (hx _)
    · rfl

theorem among_ok {v : Value} (hv : v.InBounds) {xs : List Value} (hxs : ∀ x ∈ xs, ∀ d, x ≠ .decimal d) :
    ∃ b, among v xs = .ok b := by
  induction xs with
  | nil => exact ⟨_, rfl⟩
  | cons x xs ih =>
    rw [among, signalsWith_eq_false hv (hxs x List.mem_cons_self)]
    simp only [Bool.false_and, Bool.false_eq_true, if_false]
    split
    · exact ⟨_, rfl⟩
    · exact ih fun y hy => hxs y (List.mem_cons_of_mem x hy)

theorem holds_ok {r : Membership} (hr : r.Silent) {v : Value} (hv : v.InBounds) : ∃ b, r.holds v = .ok b := by
  unfold holds
  split
  · rw [signalsWith_eq_false hv (fun d => Value.noConfusion)]
    exact ⟨_, by rw [Bool.and_false, if_neg Bool.false_ne_true]⟩
  · cases hxs : r.values.items? with
    | none => exact ⟨_, rfl⟩
    | some xs => exact among_ok hv (hr xs hxs)

end Membership

/-! ## Rules -/

namespace Rule

def message? : Rule → Option Value
  | .numericality r => r.message
  | .length r => r.message
  | .format r => r.message
  | .inclusion r => r.message
  | .exclusion r => r.message
  | .presence m => m
  | .jsonSchema r => r.message
  | .callback _ => none

/-- the bounds that a rule shows in messages can be written -/
def Bounded : Rule → Prop
  | .numericality r => ∀ b ∈ r.bounds, b.2.Short
  | .length r => ∀ n, r.Has n → (intText? n).isSome
  | _ => True

/-- a rule that has an answer to every value with a text -/
inductive Steady : Rule → Prop where
  | numericality {r : Numericality} (hb : ∀ b ∈ r.bounds, b.2.Comparable) (hm : Worded r.message) :
    Steady (.numericality r)
  | length {r : LengthBounds} (hb : ∀ n, r.Has n → (intText? n).isSome) (hm : Worded r.message) : Steady (.length r)
  | format {r : Format} (hm : Worded r.message) : Steady (.format r)
  | inclusion {r : Membership} (hr : r.Silent) (hm : Worded r.message) : Steady (.inclusion r)
  | exclusion {r : Membership} (hr : r.Silent) (hm : Worded r.message) : Steady (.exclusion r)
  | presence {m : Option Value} (hm : Worded m) : Steady (.presence m)

/-- **A steady rule replies to every value that has a text.** -/
theorem Steady.run {rule : Rule} (h : rule.Steady) {v : Value} (hv : v.Askable) : Replies (rule.run v) := by
  cases h with
  | numericality hb hm => exact Numericality.replies_run hb hm hv
  | length hb hm => exact LengthBounds.replies_run hb hm hv
  | format hm => exact replies_bind hv.plain_ok fun s => replies_messageIf _ hm ⟨_, rfl⟩
  | inclusion hr hm => exact replies_bind (Membership.holds_ok hr hv.inBounds) fun b => replies_messageIf _ hm ⟨_, rfl⟩
  | exclusion hr hm => exact replies_bind (Membership.holds_ok hr hv.inBounds) fun b => replies_messageIf _ hm ⟨_, rfl⟩
  | presence hm => exact replies_messageIf _ hm ⟨_, rfl⟩

end Rule

theorem replies_runRules {rules : List Rule} (h : ∀ rule ∈ rules, rule.Steady) {v : Value} (hv : v.Askable) :
    Replies (runRules rules v) := by
  obtain ⟨mss, hmss, htexts⟩ := replies_mapM fun rule hr => (h rule hr).run hv
  exact ⟨mss.flatten, by rw [runRules, hmss]; rfl, htexts⟩

/-! ## Rules from plain data -/

namespace Value

/-- nothing but booleans, numbers, texts and dates, or a list or mapping of what stands in it -/
def IsDatum : Value → Prop
  | .null | .bool _ | .int _ | .text _ | .date _ | .moment _ | .list _ | .tuple _ | .map _ _ => True
  | .float x => x.Canonical
  | _ => False

/-- data without anything of the program in it, at any depth -/
abbrev Data : Value → Prop := Throughout IsDatum

end Value

/-- parts throughout which something holds -/
def Parts.Throughout (P : Value → Prop) (parts : Parts) : Prop := ∀ e ∈ parts, e.2.Throughout P

namespace Parts

variable {P : Value → Prop} {parts : Parts}

theorem Throughout.without (h : Parts.Throughout P parts) (name : String) :
    Parts.Throughout P (Value.removeKey name parts) :=
  fun e he => h e (List.mem_of_mem_filter he)

theorem Throughout.field (h : Parts.Throughout P parts) {name : String} {v : Value}
    (hv : Value.field? name parts = some v) :
    v.Throughout P := of_field? h hv

end Parts

section Throughout

variable {P : Value → Prop} {option : String} {config : Value} {parts : Parts}

theorem throughout_of_optionParts {short : Option String} (hc : config.Throughout P)
    (h : optionParts option config short = .ok parts) : Parts.Throughout P parts := by
  unfold optionParts at h
  split at h
  · next es hes =>
    cases h
    obtain rfl := hash?_eq_some hes
    exact fun e he => hc.child (.entry he)
  · cases h
    exact List.forall_mem_singleton.2 hc
  · obtain ⟨s, -, h⟩ := bind_eq_ok.1 h
    cases h

theorem throughout_of_popMessage {rest : Parts} {message : Option Value} (hp : Parts.Throughout P parts)
    (h : popMessage option parts = .ok (message, rest)) : Parts.Throughout P rest := by
  obtain ⟨-, rfl⟩ := of_popMessage h
  exact hp.without _

/-- what holds throughout a configuration holds throughout the values that a membership rule lists -/
theorem throughout_of_buildMembership {r : Membership} (hc : config.Throughout P)
    (h : buildMembership option config = .ok r) :
    ∀ xs, r.values.items? = some xs → ∀ x ∈ xs, x.Throughout P := by
  unfold buildMembership at h
  obtain ⟨parts, hp, h⟩ := bind_eq_ok.1 h
  obtain ⟨⟨message, rest⟩, hm, h⟩ := bind_eq_ok.1 h
  obtain ⟨-, -, h⟩ := bind_eq_ok.1 h
  have hrest := throughout_of_popMessage (throughout_of_optionParts hc hp) hm
  have hvalues {v : Value}
      (hv : ((Value.field? "in" (Value.removeKey "within" rest)).or (Value.field? "within" rest)).getD .null = v)
      (hne : v ≠ .null) : v.Throughout P := by
    subst hv
    cases ho : (Value.field? "in" (Value.removeKey "within" rest)).or (Value.field? "within" rest) with
    | none => rw [ho] at hne; exact absurd rfl hne
    | some w =>
      rcases Option.or_eq_some_iff.1 ho with ho | ⟨-, ho⟩
      · exact (hrest.without _).field ho
      · exact hrest.field ho
  split at h
  · cases h
    nofun
  · next hv =>
    cases h
    rintro ys ⟨⟩ x hx
    exact (hvalues hv nofun).child (.item hx)
  · next hv =>
    cases h
    rintro ys ⟨⟩ x hx
    exact (hvalues hv nofun).child (.place hx)
  · next hv =>
    cases h
    rintro ys ⟨⟩ x hx
    exact (hvalues hv nofun).child (.element hx)
  · obtain ⟨s, -, h⟩ := bind_eq_ok.1 h
    cases h

end Throughout

theorem data_of_popBounds {cs : List Comparison} {parts rest : Parts} {bounds : List (Comparison × Value)}
    (hp : Parts.Throughout Value.IsDatum parts) (h : popBounds cs parts = .ok (bounds, rest)) :
    ∀ b ∈ bounds, ∃ v, v.Data ∧ asNumber v = some b.2 := by
  induction cs generalizing parts rest bounds with
  | nil =>
    cases h
    rintro b ⟨⟩
  | cons c cs ih =>
    unfold popBounds at h
    dsimp only [Parts.pop] at h
    split at h
    · exact ih hp h
    · next v rest' hpop =>
      obtain ⟨hv, rfl⟩ := Prod.mk.inj hpop
      split at h
      · obtain ⟨s, -, h⟩ := bind_eq_ok.1 h
        cases h
      · next n hn =>
        obtain ⟨⟨bounds', rest'⟩, h', h⟩ := bind_eq_ok.1 h
        cases h
        exact List.forall_mem_cons.2 ⟨⟨v, hp.field hv, hn⟩, ih (hp.without _) h'⟩

theorem comparable_of_data {v n : Value} (hv : v.Data) (h : asNumber v = some n) (hn : n.Short) : n.Comparable := by
  refine comparable_of_asNumber (fun i hi => ?_) (fun x hx => ?_) h
  · subst hi
    cases h
    exact hn
  · subst hx
    exact Binary64.Canonical.bounded hv.here

theorem comparable_of_buildNumericality {config : Value} {r : Numericality} (hc : config.Data)
    (h : buildNumericality config = .ok (.numericality r)) (hb : ∀ b ∈ r.bounds, b.2.Short) :
    ∀ b ∈ r.bounds, b.2.Comparable := by
  have hparts {parts : Parts} (h : numericalityParts config = .ok parts) : Parts.Throughout Value.IsDatum parts := by
    unfold numericalityParts at h
    split at h
    · cases h
      rintro e ⟨⟩
    · exact throughout_of_optionParts hc h
  rw [buildNumericality_eq] at h
  obtain ⟨parts, hp, h⟩ := bind_eq_ok.1 h
  obtain ⟨⟨message, rest⟩, hm, h⟩ := bind_eq_ok.1 h
  obtain ⟨⟨bounds, rest'⟩, hbounds, h⟩ := bind_eq_ok.1 h
  obtain ⟨-, -, h⟩ := bind_eq_ok.1 h
  cases h
  intro b hmem
  obtain ⟨v, hv, hn⟩ := data_of_popBounds (throughout_of_popMessage (hparts hp) hm) hbounds b hmem
  exact comparable_of_data hv hn (hb b hmem)

theorem silent_of_buildMembership {option : String} {config : Value} {r : Membership} (hc : config.Data)
    (h : buildMembership option config = .ok r) : r.Silent := by
  rintro xs hxs x hx d rfl
  exact (throughout_of_buildMembership hc h xs hxs _ hx).here

namespace Rule

/-- a rule is steady if those parts of it are that its declaration does not check -/
theorem steady_of_buildOption {key config : Value} {rs : List Rule} (hc : config.Data)
    (h : buildOption key config = .ok rs)
    {rule : Rule} (hr : rule ∈ rs) (hp : rule.Plainly) (hm : Worded rule.message?) (hb : rule.Bounded) : rule.Steady := by
  cases gives_of_buildOption h with
  | numericality _ hr' =>
    obtain rfl := List.mem_singleton.1 hr
    cases rule with
    | numericality r => exact .numericality (comparable_of_buildNumericality hc hr' hb) hm
    | _ => exact absurd (built_of_numericality hr').2 (by simp [option])
  | length _ hr' =>
    obtain rfl := List.mem_singleton.1 hr
    cases rule with
    | length r => exact .length hb hm
    | _ => exact absurd (built_of_length hr').2 (by simp [option])
  | format _ hr' =>
    obtain rfl := List.mem_singleton.1 hr
    cases rule with
    | format r => exact .format hm
    | _ => exact absurd (built_of_format hr').2 (by simp [option])
  | inclusion _ hr' =>
    obtain rfl := List.mem_singleton.1 hr
    exact .inclusion (silent_of_buildMembership hc hr') hm
  | exclusion _ hr' =>
    obtain rfl := List.mem_singleton.1 hr
    exact .exclusion (silent_of_buildMembership hc hr') hm
  | presence _ =>
    obtain rfl := List.mem_singleton.1 hr
    exact .presence hm
  | schema _ hr' =>
    obtain rfl := List.mem_singleton.1 hr
    exact absurd (built_of_schema hr').2 hp.2
  | callbacks _ hrs => exact absurd (built_of_callbacks hrs rule hr).2 hp.1

end Rule

/-- **Rules that are built from plain data are steady**, if they ask neither a function nor a schema, their messages
are texts and their bounds can be written. -/
theorem steady_of_buildRules {options : List (Value × Value)} {rules : List Rule} (h : buildRules options = .ok rules)
    (hc : ∀ o ∈ options, o.2.Data) {rule : Rule} (hr : rule ∈ rules) (hp : rule.Plainly) (hm : Worded rule.message?)
    (hb : rule.Bounded) : rule.Steady := by
  obtain ⟨o, ho, rs, hbuild, hmem⟩ := option_of_mem_rules h hr
  exact Rule.steady_of_buildOption (hc o ho) hbuild hmem hp hm hb

end Intake
