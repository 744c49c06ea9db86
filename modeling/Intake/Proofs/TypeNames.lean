/-
Names and types of a registry, over any run of registrations.

A registration writes to two tables: the entry of its type, which has the type's name, and the entry of that name,
which has the type. The first is read when a declaration is written out, the second when one is read in. A name may be
an alias of another type, and a type may get another name, so nothing holds the tables together but what each call
keeps: the name that a type goes by leads to that type (`Registry.Wired`). A call keeps it if the name it gives has no
blanks around it and is not the name that another registered type goes by (`Registry.Admits`); either would part a type
from its name.

Names are looked up without regard to blanks around them and to letter case, and are kept in lower case. So a
registered type is found under every text that is its name after lower case and stripping.

Results:
- `Registry.Wired.after`: the step, and `Registry.Wired.consistent`: what it buys;
- `Registry.run_consistent`: from the built-in types on, after every call of a run.
-/
import Intake.Proofs.Casting
import Intake.Proofs.LetterCase

namespace Intake

open Intake.Text

/-- one call of `register` -/
structure Registration where
  declared : Value
  convert : Value → Outcome Value
  name : Option String
  message : Option String

/-- the name that a call gives to a type: its own or else the class name, in lower case -/
def Registration.nameFor (c : Registration) (t : ValueType) : String :=
  Registry.lowered (if c.name.getD "" = "" then t.className else c.name.getD "")

/-- the failure message that a call gives to a type -/
def Registration.messageFor (c : Registration) (t : ValueType) : String :=
  if c.message.getD "" = "" then Registry.defaultMessage (c.nameFor t) else c.message.getD ""

namespace Registry

variable {r : Registry} {c : Registration} {t u : ValueType} {calls : List Registration}

/-! ## Runs of registrations -/

def answer (r : Registry) (c : Registration) : Outcome Registry := r.register c.declared c.convert c.name c.message

/-- the tables after a call; a call that is refused gives none -/
def after (r : Registry) (c : Registration) : Registry := (r.answer c).toOption.getD r

def afterAll (r : Registry) (calls : List Registration) : Registry := calls.foldl after r

def Registered (r : Registry) (t : ValueType) : Prop := (r.casterOf? t).isSome

/-- the name that a call gives has no blanks around it, and no other registered type goes by it -/
structure Admits (r : Registry) (c : Registration) : Prop where
  stripped : ∀ t, c.declared = .type t → strip (c.nameFor t).toList = (c.nameFor t).toList
  free : ∀ t u, c.declared = .type t → r.Registered u → u ≠ t → r.typeName u ≠ c.nameFor t

/-- each call of a run finds tables that admit it -/
def AdmitsAll : Registry → List Registration → Prop
  | _, [] => True
  | r, c :: calls => r.Admits c ∧ AdmitsAll (r.after c) calls

theorem answer_type (h : c.declared = .type t) :
    r.answer c = .ok ⟨put t ⟨c.nameFor t, c.convert, c.messageFor t⟩ r.casters, put (c.nameFor t) t r.names⟩ := by
  rw [answer, h]
  rfl

theorem after_type (h : c.declared = .type t) :
    r.after c = ⟨put t ⟨c.nameFor t, c.convert, c.messageFor t⟩ r.casters, put (c.nameFor t) t r.names⟩ := by
  rw [after, answer_type h]
  rfl

theorem answer_refused (h : ∀ t, c.declared ≠ .type t) : ∃ f, r.answer c = .error f := by
  unfold answer register
  split
  · exact absurd ‹_› (h _)
  · cases hshown : c.declared.shown with
    | ok text => exact ⟨_, rfl⟩
    | error f => exact ⟨f, rfl⟩

theorem after_refused {f : Fault} (h : r.answer c = .error f) : r.after c = r := by
  rw [after, h]
  rfl

theorem casterOf?_after_self (h : c.declared = .type t) :
    (r.after c).casterOf? t = some ⟨c.nameFor t, c.convert, c.messageFor t⟩ := by
  rw [after_type h]
  exact find_put_self _ _ _

/-- a call leaves the entries of all types but the one it declares -/
theorem casterOf?_after_ne (h : c.declared ≠ .type u) : (r.after c).casterOf? u = r.casterOf? u := by
  by_cases hc : ∃ t, c.declared = .type t
  · obtain ⟨t, ht⟩ := hc
    have hne : u ≠ t := by
      rintro rfl
      exact h ht
    rw [after_type ht]
    exact find_put_ne hne _ _
  · obtain ⟨f, hf⟩ := answer_refused (r := r) fun t ht => hc ⟨t, ht⟩
    rw [after_refused hf]

/-- a run leaves the entries of all types that it does not declare -/
theorem casterOf?_afterAll (h : ∀ c ∈ calls, c.declared ≠ .type u) : (r.afterAll calls).casterOf? u = r.casterOf? u := by
  induction calls generalizing r with
  | nil => rfl
  | cons c calls ih =>
    rw [afterAll, List.foldl_cons, ← afterAll, ih fun c hc => h c (.tail _ hc)]
    exact casterOf?_after_ne (h c (.head _))

/-! ## What each call keeps -/

/-- the name that a registered type goes by is in lower case, has no blanks around it and leads to the type -/
def Wired (r : Registry) : Prop :=
  ∀ t c, r.casterOf? t = some c → lowered c.name = c.name ∧ strip c.name.toList = c.name.toList ∧
  find c.name r.names = some t

theorem wired_builtin : builtin.Wired := by
  intro t c h
  cases t with
  | custom k => cases h
  | _ =>
    cases h
    decide +kernel

theorem lowered_lowered (s : String) : lowered (lowered s) = lowered s := by
  simp only [lowered, String.toList_ofList, lower_lower]

/-- **A call that is admitted keeps names and types together**: the type it declares leads from its new name to itself,
and the name of any other type is not the one that is written. -/
theorem Wired.after (hr : r.Wired) (hc : r.Admits c) : (r.after c).Wired := by
  intro u k hu
  by_cases hself : c.declared = .type u
  · rw [casterOf?_after_self hself, Option.some.injEq] at hu
    subst hu
    refine ⟨lowered_lowered _, hc.stripped u hself, ?_⟩
    rw [after_type hself]
    exact find_put_self _ _ _
  · rw [casterOf?_after_ne hself] at hu
    obtain ⟨hlow, hstrip, hfind⟩ := hr u k hu
    refine ⟨hlow, hstrip, ?_⟩
    by_cases htype : ∃ t, c.declared = .type t
    · obtain ⟨t, ht⟩ := htype
      have hne : u ≠ t := by
        rintro rfl
        exact hself ht
      have hname : k.name ≠ c.nameFor t := by
        have := hc.free t u ht (by rw [Registered, hu]; rfl) hne
        rwa [typeName, hu] at this
      rw [after_type ht]
      exact (find_put_ne hname _ _).trans hfind
    · obtain ⟨f, hf⟩ := answer_refused (r := r) fun t ht => htype ⟨t, ht⟩
      rw [after_refused hf]
      exact hfind

theorem Wired.afterAll (hr : r.Wired) (h : r.AdmitsAll calls) : (r.afterAll calls).Wired := by
  induction calls generalizing r with
  | nil => exact hr
  | cons c calls ih => exact ih (hr.after h.1) h.2

/-- a run that is admitted is admitted up to each of its calls -/
theorem AdmitsAll.front {more : List Registration} (h : r.AdmitsAll (calls ++ more)) : r.AdmitsAll calls := by
  induction calls generalizing r with
  | nil => trivial
  | cons c calls ih => exact ⟨h.1, ih h.2⟩

/-! ## What it buys -/

/-- names and types agree: a registered type is found under every text that is its name after lower case and stripping, in
either order, its name is such a text, and no two go by one name -/
structure Consistent (r : Registry) : Prop where
  resolves : ∀ t, r.Registered t → ∀ v s, v.text? = some s → strip (lower s.toList) = (r.typeName t).toList →
    r.resolve v = .ok t
  resolves_stripped : ∀ t, r.Registered t → ∀ v s, v.text? = some s → lower (strip s.toList) = (r.typeName t).toList →
    r.resolve v = .ok t
  written : ∀ t, r.Registered t → strip (lower (r.typeName t).toList) = (r.typeName t).toList
  distinct : ∀ t u, r.Registered t → r.Registered u → r.typeName t = r.typeName u → t = u

/-- a text is looked up under its lower case without blanks around it -/
theorem resolve_text {v : Value} {s : String} (hv : v.text? = some s) (h : find (nameKey s) r.names = some t) :
    r.resolve v = .ok t := by
  cases v with
  | text | textMember => simp_all [resolve]
  | _ => cases hv

theorem Wired.consistent (hr : r.Wired) : r.Consistent := by
  have name_of {t : ValueType} (ht : r.Registered t) : lowered (r.typeName t) = r.typeName t ∧
      strip (r.typeName t).toList = (r.typeName t).toList ∧ find (r.typeName t) r.names = some t := by
    obtain ⟨k, hk⟩ := Option.isSome_iff_exists.1 ht
    have := hr t k hk
    rwa [typeName, hk]
  have resolves_stripped (t : ValueType) (ht : r.Registered t) (v : Value) (s : String) (hv : v.text? = some s)
      (hs : lower (strip s.toList) = (r.typeName t).toList) : r.resolve v = .ok t := by
    have hkey : nameKey s = r.typeName t := by
      rw [nameKey, lowered, String.toList_ofList, hs, String.ofList_toList]
    exact resolve_text hv (hkey ▸ (name_of ht).2.2)
  exact {
    resolves := fun t ht v s hv hs => resolves_stripped t ht v s hv (by rw [lower_strip, hs])
    resolves_stripped := resolves_stripped
    written := fun t ht => by
      obtain ⟨hlow, hstrip, -⟩ := name_of ht
      have hlist : lower (r.typeName t).toList = (r.typeName t).toList := by
        rw [← hlow, lowered, String.toList_ofList, lower_lower]
      rw [hlist, hstrip]
    distinct := fun t u ht hu heq => by
      have := (name_of ht).2.2
      rw [heq, (name_of hu).2.2] at this
      exact (Option.some.inj this).symm }

/-! ## Over a run -/

/-- what holds after every call of a run -/
structure StaysConsistent (start : Registry) (calls : List Registration) : Prop where
  /-- names and types agree after each of the calls -/
  consistent : ∀ done rest, calls = done ++ rest → (start.afterAll done).Consistent
  /-- a call is refused only when what it declares is no type -/
  refused_iff : ∀ done c rest, calls = done ++ c :: rest →
    ((∃ f, (start.afterAll done).answer c = .error f) ↔ ∀ t, c.declared ≠ .type t)
  /-- a call that is refused leaves both tables as they are -/
  refused : ∀ done c rest f, calls = done ++ c :: rest → (start.afterAll done).answer c = .error f →
    start.afterAll (done ++ [c]) = start.afterAll done
  /-- any other gives its type the converter, the name and the message it has -/
  taken : ∀ done c rest t, calls = done ++ c :: rest → c.declared = .type t →
    (start.afterAll (done ++ [c])).casterOf? t = some ⟨c.nameFor t, c.convert, c.messageFor t⟩
  /-- a type is cast as before as long as no call declares it -/
  casts : ∀ done more rest t, calls = done ++ (more ++ rest) → (∀ c ∈ more, c.declared ≠ .type t) → ∀ strict v,
    (start.afterAll (done ++ more)).cast t strict v = (start.afterAll done).cast t strict v

theorem afterAll_append (done more : List Registration) : r.afterAll (done ++ more) = (r.afterAll done).afterAll more :=
  List.foldl_append

/-- **Names and types stay consistent**: from the built-in types on, whatever is registered, as long as each call is
admitted by the tables it finds. -/
theorem run_consistent (calls : List Registration) (h : builtin.AdmitsAll calls) : StaysConsistent builtin calls where
  consistent done rest hsplit := by
    rw [hsplit] at h
    exact (wired_builtin.afterAll h.front).consistent
  refused_iff done c rest _ := by
    refine ⟨fun ⟨f, hf⟩ t ht => ?_, answer_refused⟩
    rw [answer_type ht] at hf
    cases hf
  refused done c rest f _ hf := by
    rw [afterAll_append]
    exact after_refused hf
  taken done c rest t _ ht := by
    rw [afterAll_append]
    exact casterOf?_after_self ht
  casts done more rest t _ ht strict v := by
    rw [afterAll_append]
    exact cast_congr (casterOf?_afterAll ht)

theorem mem_of_find {α β : Type} [DecidableEq α] {k : α} {v : β} {es : List (α × β)} (h : find k es = some v) :
    (k, v) ∈ es := by
  induction es with
  | nil => cases h
  | cons e es ih =>
    rw [find] at h
    split at h
    · rename_i heq
      cases h
      exact heq ▸ .head _
    · exact .tail _ (ih h)

theorem admits_of_refused (h : ∀ t, c.declared ≠ .type t) : r.Admits c :=
  ⟨fun t ht => absurd ht (h t), fun t _ ht => absurd ht (h t)⟩

/-- whether a call is admitted is seen in the table of entries -/
theorem admits_of_casters (hd : c.declared = .type t) (hs : strip (c.nameFor t).toList = (c.nameFor t).toList)
    (h : ∀ e ∈ r.casters, e.1 ≠ t → e.2.name ≠ c.nameFor t) : r.Admits c := by
  refine ⟨fun u hu => ?_, fun u w hu hw hne => ?_⟩
  · cases hd.symm.trans hu
    exact hs
  · cases hd.symm.trans hu
    obtain ⟨k, hk⟩ := Option.isSome_iff_exists.1 hw
    rw [typeName, hk]
    exact h (w, k) (mem_of_find hk) hne

/-- a class registered under an alias of texts, a call that is refused, integers under another name, and the class once
more under its own name -/
def shopCalls : List Registration := [
  ⟨.type (.custom coupon), Cast.construct coupon, some "TEXT", none⟩,
  ⟨.int 5, Cast.toText, some "five", none⟩,
  ⟨.type .integer, Cast.toInteger, some "Number", some "is no number"⟩,
  ⟨.type (.custom coupon), Cast.construct coupon, none, none⟩]

theorem shopCalls_admitted : builtin.AdmitsAll shopCalls :=
  ⟨admits_of_casters rfl (by decide +kernel) (by decide +kernel), admits_of_refused nofun,
    admits_of_casters rfl (by decide +kernel) (by decide +kernel),
    admits_of_casters rfl (by decide +kernel) (by decide +kernel), trivial⟩

/-- after the first of these calls a text with blanks leads to the class, and after the last the class name does -/
theorem shopCalls_consistent : builtin.AdmitsAll shopCalls ∧
    (builtin.afterAll (shopCalls.take 1)).resolve (.text " Text") = .ok (.custom coupon) ∧
    (builtin.afterAll shopCalls).resolve (.text "COUPON ") = .ok (.custom coupon) ∧
    (builtin.afterAll shopCalls).resolve (.text "String") = .ok .text := by
  have h := run_consistent shopCalls shopCalls_admitted
  have first := h.consistent (shopCalls.take 1) (shopCalls.drop 1) rfl
  have last := h.consistent shopCalls [] rfl
  exact ⟨shopCalls_admitted, first.resolves (.custom coupon) rfl (.text " Text") _ rfl (by decide +kernel),
    last.resolves (.custom coupon) rfl (.text "COUPON ") _ rfl (by decide +kernel),
    last.resolves .text rfl (.text "String") _ rfl (by decide +kernel)⟩

end Registry

end Intake
