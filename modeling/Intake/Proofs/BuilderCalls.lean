/-
What calls on a builder leave behind.

A definition is declared by calls on its builder, one for each attribute. A call may be refused, and whoever makes the
calls may catch the refusal and go on. The function that is given as a block makes calls too, on the builder inside,
and chooses each in view of the answers so far: so what is done with a builder is a tree (`Script`). A call is a
sequence of steps on the builder, and what is written before a step fails stays written (`Doing`).

A call that fails has written nothing, and one that succeeds has put its attribute at the end (`Call.make_eq`). So
after any calls a builder holds what the successful ones declared, as each asked for it, and its definition can be
built; and so does every builder that a function was given inside, down to the last level (`Script.keeps_declared`).

The calls of a declaration that catch nothing are what declares it (`Builder.declare_eq_make`).
-/
import Intake.Proofs.Declared

namespace Intake

open Intake.Outcome

/-! ## Calls -/

mutual

/-- what is done with a builder: calls, each in view of the answers before it, and then an end or a fault -/
inductive Script where
  | done
  | raise (f : Fault)
  | call (c : Call) (next : Outcome Attribute → Script)

/-- what a call gives as a block -/
inductive Inside where
  | none
  | definition (d : Definition)
  /-- a function, which is given the builder inside -/
  | function (s : Script)
  /-- anything else -/
  | other

/-- a call that declares an attribute -/
structure Call where
  required : Bool
  name : Value
  type : DeclaredType
  inside : Inside
  options : List (Value × Value)

end

/-- calls that were made, with the answers -/
abbrev Log := List (Call × Outcome Attribute)

/-- the attributes that calls have declared, in order -/
def Log.declared (log : Log) : List Attribute := log.filterMap fun e => e.2.toOption

/-- steps on a builder. What they have written stays written if one of them fails -/
abbrev Doing := ExceptT Fault (StateM Builder)

namespace Builder

/-- writes an attribute under its name: in place if the name is there, else at the end -/
def put (b : Builder) (a : Attribute) : Builder :=
  if b.attributes.any (·.name == a.name) then
    { b with attributes := b.attributes.map fun old => if old.name == a.name then a else old }
  else { b with attributes := b.attributes ++ [a] }

/-- the definition of the attributes declared so far, whose constructor refuses a name that comes twice -/
def finish (b : Builder) : Outcome Definition := do
  Definition.combine.check b.name [] b.attributes
  .ok b.build

end Builder

/-- a block of the same kind, without what is inside -/
def Inside.outline : Inside → Block
  | .none => .none
  | .definition d => .definition d
  | .function _ => .declarations []
  | .other => .value .null

/-- the declaration of a call, without what is inside -/
def Call.outline (c : Call) : Declaration := ⟨c.required, c.name, c.type, c.inside.outline, c.options⟩

mutual

/-- makes a call, with `left` levels of nesting allowed below: all is checked and built before the attribute is written -/
def Call.make (r : Registry) : Call → Nat → Doing Attribute
  | ⟨required, name, type, inside, options⟩, left => do
    let b ← get
    let p ← Builder.prepare r b ⟨required, name, type, inside.outline, options⟩
    let block ← inside.build r left b p.name
    let rules ← buildRules p.options
    let a : Attribute := ⟨p.name, Builder.shapeOf p block, required, p.default, rules⟩
    modify (·.put a)
    return a

/-- the definition that a block stands for. A function is given a builder of its own -/
def Inside.build (r : Registry) : Inside → Nat → Builder → String → Outcome (Option Definition)
  | .none, _, _, _ => .ok none
  | .definition d, _, _, _ => .ok (some d)
  | .other, _, _, name => refuse (.blockNotCallable name)
  | .function _, 0, b, name => refuse (.tooDeep (b.name ++ "." ++ name) (b.depthAt 0 + 1) b.settings.maxDepth)
  | .function s, left + 1, b, name => do
    let (answer, inner) := s.run r left (b.inner name)
    answer
    inner.finish.map some

def Script.run (r : Registry) : Script → Nat → Doing Unit
  | .done, _ => return ()
  | .raise f, _ => throw f
  | .call c next, left => fun b =>
    let (answer, b) := c.make r left b
    (next answer).run r left b

end

variable {r : Registry} {left : Nat} {b b' : Builder} {c : Call} {a : Attribute}

/-! ## One call -/

theorem Doing.lift_bind {α β : Type} (x : Outcome α) (f : α → Doing β) (b : Builder) :
    ((liftM x : Doing α) >>= f) b =
      match x with
      | .ok a => f a b
      | .error e => (.error e, b) := by
  cases x <;> rfl

namespace Call

def result (r : Registry) (left : Nat) (b : Builder) (c : Call) : Outcome Attribute := do
  let p ← Builder.prepare r b c.outline
  let block ← c.inside.build r left b p.name
  let rules ← buildRules p.options
  .ok ⟨p.name, Builder.shapeOf p block, c.required, p.default, rules⟩

/-- **A call that fails has written nothing**, and one that succeeds has written its attribute. -/
theorem make_eq (r : Registry) (left : Nat) (b : Builder) (c : Call) :
    c.make r left b =
      match c.result r left b with
      | .ok a => (.ok a, b.put a)
      | .error f => (.error f, b) := by
  obtain ⟨required, name, type, inside, options⟩ := c
  unfold make result outline
  dsimp only
  show (liftM (Builder.prepare r b _) >>= _ : Doing Attribute) b = _
  rw [Doing.lift_bind]
  cases Builder.prepare r b ⟨required, name, type, inside.outline, options⟩ with
  | error f => rfl
  | ok p =>
    rw [ok_bind]
    dsimp only
    rw [Doing.lift_bind]
    cases inside.build r left b p.name with
    | error f => rfl
    | ok block =>
      rw [ok_bind]
      dsimp only
      rw [Doing.lift_bind]
      cases buildRules p.options <;> rfl

theorem make_of_error {f : Fault} (h : c.make r left b = (.error f, b')) : b' = b := by
  rw [make_eq] at h
  cases hresult : c.result r left b with
  | error f => rw [hresult] at h; exact (congrArg Prod.snd h).symm
  | ok a => rw [hresult] at h; cases congrArg Prod.fst h

theorem make_of_ok (h : c.make r left b = (.ok a, b')) : c.result r left b = .ok a ∧ b' = b.put a := by
  rw [make_eq] at h
  cases hresult : c.result r left b with
  | error f => rw [hresult] at h; cases congrArg Prod.fst h
  | ok a' => rw [hresult] at h; cases h; exact ⟨rfl, rfl⟩

end Call

/-! ## What a call declares -/

/-- the shape that a type and a block give together -/
inductive Shape.Joins (r : Registry) : DeclaredType → Option Definition → Shape → Prop where
  | untyped : Joins r .none none .untyped
  | scalar {v : Value} {t : ValueType} (h : r.resolve v = .ok t) : Joins r (.value v) none (.scalar t)
  | typed (d : Definition) : Joins r (.definition d) none (.nested d)
  | nested (d : Definition) : Joins r .none (some d) (.nested d)
  | array {v : Value} (h : r.resolve v = .ok .array) (d : Definition) : Joins r (.value v) (some d) (.arrayOf d)

theorem Builder.joins_of_prepare {d : Declaration} {p : Prepared} (h : prepare r b d = .ok p) {block : Option Definition}
    (hblock : block.isSome = hasBlock d.block) : (shapeOf p block).Joins r d.type block := by
  rw [prepare_eq] at h
  obtain ⟨u, -, h⟩ := bind_eq_ok.1 h
  split at h
  · obtain ⟨s, -, h⟩ := bind_eq_ok.1 h
    cases h
  · obtain ⟨name, -, h⟩ := bind_eq_ok.1 h
    obtain ⟨scalar, hscalar, h⟩ := bind_eq_ok.1 h
    unfold fitted at h
    rw [← hblock] at h
    unfold declaredScalar at hscalar
    rw [← hblock] at hscalar
    cases htype : d.type with
    | none =>
      rw [htype] at h hscalar
      cases hscalar
      cases h
      cases block with
      | none => exact .untyped
      | some e => exact .nested e
    | definition e =>
      rw [htype] at h hscalar
      cases block with
      | some e => cases hscalar
      | none =>
        cases hscalar
        cases h
        exact .typed e
    | value v =>
      rw [htype] at h hscalar
      obtain ⟨t, ht, rfl⟩ := map_eq_ok.1 hscalar
      cases block with
      | none =>
        cases h
        exact .scalar ht
      | some e =>
        split at h
        · cases h
        · rename_i harray
          cases h
          obtain rfl : t = .array := by simpa using harray
          exact .array ht e

/-- a script has made the calls of a log, with their answers, and has come to another -/
inductive Script.Passes (r : Registry) : Nat → Script → Builder → Log → Script → Builder → Prop where
  | here {left : Nat} {s : Script} {b : Builder} : Passes r left s b [] s b
  | call {left : Nat} {c : Call} {answer : Outcome Attribute} {next : Outcome Attribute → Script} {b b' b'' : Builder}
    {log : Log} {s : Script} (hc : c.make r left b = (answer, b')) (h : (next answer).Passes r left b' log s b'') :
    Passes r left (.call c next) b ((c, answer) :: log) s b''

/-- the definition that a block stands for, when a function is given this builder. A function must come to its end -/
inductive Inside.Gives (r : Registry) : Nat → Builder → Inside → Option Definition → Prop where
  | none {left : Nat} {inner : Builder} : Gives r left inner .none Option.none
  | definition {left : Nat} {inner : Builder} (d : Definition) : Gives r left inner (.definition d) (some d)
  | function {left : Nat} {inner inner' : Builder} {s : Script} {log : Log} (h : s.Passes r left inner log .done inner') :
    Gives r (left + 1) inner (.function s) (some inner'.build)

/-- an attribute is what a call asks for -/
structure Call.Declares (r : Registry) (left : Nat) (b : Builder) (c : Call) (a : Attribute) : Prop where
  named : normalizeKey c.name = .ok a.name
  identifier : Text.isIdentifier a.name.toList = true
  visible : a.name.toList.head? ≠ some '_'
  free : a.name ∉ reservedNames
  required : a.required = c.required
  optional : a.required = true → a.default = none
  default : a.default = (Builder.popDefault c.options).1
  rules : buildRules (Builder.popDefault c.options).2 = .ok a.rules
  shape : ∃ block, c.inside.Gives r left (b.inner a.name) block ∧ a.shape.Joins r c.type block

theorem Script.passes_of_run {r : Registry} {left : Nat} : ∀ (s : Script) {b b' : Builder},
    s.run r left b = (.ok (), b') → ∃ log, s.Passes r left b log .done b'
  | .done, b, b', h => by
    unfold Script.run at h
    obtain rfl : b = b' := congrArg Prod.snd h
    exact ⟨[], .here⟩
  | .raise f, b, b', h => by
    unfold Script.run at h
    cases congrArg Prod.fst h
  | .call c next, b, b', h => by
    unfold Script.run at h
    obtain ⟨log, hlog⟩ := passes_of_run (next (c.make r left b).1) h
    exact ⟨_, .call rfl hlog⟩

namespace Inside

theorem isSome_of_build {inside : Inside} {name : String} {block : Option Definition}
    (h : inside.build r left b name = .ok block) : block.isSome = Builder.hasBlock inside.outline := by
  cases inside with
  | none => unfold build at h; cases h; rfl
  | definition d => unfold build at h; cases h; rfl
  | other => unfold build at h; cases h
  | function s =>
    cases left with
    | zero => unfold build at h; cases h
    | succ left =>
      unfold build at h
      obtain ⟨u, -, h⟩ := bind_eq_ok.1 h
      obtain ⟨d, -, rfl⟩ := map_eq_ok.1 h
      rfl

theorem gives_of_build {inside : Inside} {name : String} {block : Option Definition}
    (h : inside.build r left b name = .ok block) : inside.Gives r left (b.inner name) block := by
  cases inside with
  | none => unfold build at h; cases h; exact .none
  | definition d => unfold build at h; cases h; exact .definition d
  | other => unfold build at h; cases h
  | function s =>
    cases left with
    | zero => unfold build at h; cases h
    | succ left =>
      unfold build at h
      obtain ⟨u, hrun, h⟩ := bind_eq_ok.1 h
      obtain ⟨d, hd, rfl⟩ := map_eq_ok.1 h
      obtain ⟨v, -, hd⟩ := bind_eq_ok.1 hd
      cases hd
      obtain ⟨log, hlog⟩ := s.passes_of_run (Prod.ext hrun rfl)
      exact .function hlog

end Inside

/-- a call that succeeds declares what it asks for, under a name that is new -/
theorem Call.declares_of_result (h : c.result r left b = .ok a) :
    c.Declares r left b a ∧ b.attributes.any (·.name == a.name) = false := by
  obtain ⟨p, hp, h⟩ := bind_eq_ok.1 h
  obtain ⟨block, hblock, h⟩ := bind_eq_ok.1 h
  obtain ⟨rules, hrules, h⟩ := bind_eq_ok.1 h
  cases h
  have prep := Builder.of_prepare hp
  obtain ⟨hnamed, hid, hvisible, hfree, hnew⟩ := Builder.of_checkName prep.named
  have hjoins := Builder.joins_of_prepare hp (Inside.isSome_of_build hblock)
  refine ⟨?_, hnew⟩
  exact
    { named := hnamed, identifier := hid, visible := hvisible, free := hfree, required := rfl
      optional := prep.optional, default := prep.default
      rules := by rw [prep.options] at hrules; exact hrules
      shape := ⟨block, Inside.gives_of_build hblock, hjoins⟩ }

/-! ## Calls one after another -/

namespace Builder

theorem put_of_new (h : b.attributes.any (·.name == a.name) = false) :
    b.put a = { b with attributes := b.attributes ++ [a] } := by
  unfold put
  rw [h]
  rfl

/-- the constructor of a definition accepts names that are distinct -/
theorem check_of_nodup {name : String} {seen : List String} {as : List Attribute} (hn : (as.map (·.name)).Nodup)
    (hseen : ∀ a ∈ as, a.name ∉ seen) : Definition.combine.check name seen as = .ok () := by
  induction as generalizing seen with
  | nil => rfl
  | cons a as ih =>
    obtain ⟨hfresh, hn⟩ := List.nodup_cons.1 hn
    obtain ⟨ha, has⟩ := List.forall_mem_cons.1 hseen
    unfold Definition.combine.check
    rw [if_neg (by simpa using ha)]
    refine ih hn fun x hx hmem => ?_
    rcases List.mem_cons.1 hmem with he | hmem
    · exact hfresh (List.mem_map.2 ⟨x, hx, he⟩)
    · exact has x hx hmem

theorem finish_of_nodup (h : (b.attributes.map (·.name)).Nodup) : b.finish = .ok b.build := by
  unfold finish
  rw [check_of_nodup h (by simp)]
  rfl

/-- a builder holds what the successful calls of a log have declared -/
structure Holds (r : Registry) (left : Nat) (b : Builder) (log : Log) : Prop where
  attributes : b.attributes = log.declared
  distinct : (b.attributes.map (·.name)).Nodup
  each : ∀ c a, (c, .ok a) ∈ log → c.Declares r left b a

variable {log : Log}

theorem holds_empty (name : String) (settings : Settings) (stamp : Nat) : (empty name settings stamp).Holds r left [] :=
  ⟨rfl, List.nodup_nil, by simp⟩

theorem Holds.failed {f : Fault} (h : b.Holds r left log) (hc : c.make r left b = (.error f, b')) :
    b'.Holds r left (log ++ [(c, .error f)]) := by
  obtain rfl := Call.make_of_error hc
  refine ⟨?_, h.distinct, fun d a hd => ?_⟩
  · rw [h.attributes, Log.declared, Log.declared, List.filterMap_append]
    exact (List.append_nil _).symm
  · rcases List.mem_append.1 hd with hd | hd
    · exact h.each d a hd
    · cases List.mem_singleton.1 hd

/-- a call that succeeds adds its attribute to a builder -/
theorem Holds.succeeded (h : b.Holds r left log) (hc : c.make r left b = (.ok a, b')) :
    b'.Holds r left (log ++ [(c, .ok a)]) := by
  obtain ⟨hresult, rfl⟩ := Call.make_of_ok hc
  obtain ⟨hdeclares, hnew⟩ := Call.declares_of_result hresult
  rw [put_of_new hnew]
  refine ⟨?_, ?_, fun d x hd => ?_⟩
  · show b.attributes ++ [a] = _
    rw [h.attributes, Log.declared, Log.declared, List.filterMap_append]
    rfl
  · show ((b.attributes ++ [a]).map (·.name)).Nodup
    rw [List.map_append, List.map_singleton, ← List.concat_eq_append]
    refine h.distinct.concat fun hmem => ?_
    obtain ⟨x, hx, he⟩ := List.mem_map.1 hmem
    exact absurd (beq_iff_eq.2 he) (List.any_eq_false.1 hnew x hx)
  · rcases List.mem_append.1 hd with hd | hd
    · have hold := h.each d x hd
      exact { hold with }
    · cases List.mem_singleton.1 hd
      exact { hdeclares with }

/-- what a builder holds after a script has gone on with it -/
theorem Holds.passes {s s' : Script} {before : Log} (h : b.Holds r left before) (hp : s.Passes r left b log s' b') :
    b'.Holds r left (before ++ log) := by
  induction hp generalizing before with
  | here => rwa [List.append_nil]
  | @call c answer next b b' b'' log s hc _ ih =>
    rw [List.append_cons]
    cases answer with
    | error f => exact ih (h.failed hc)
    | ok a => exact ih (h.succeeded hc)

/-- every attribute of a builder is what a call has asked for -/
theorem Holds.exists_call (h : b.Holds r left log) (ha : a ∈ b.attributes) : ∃ c : Call, c.Declares r left b a := by
  rw [h.attributes] at ha
  obtain ⟨⟨c, answer⟩, hc, hanswer⟩ := List.mem_filterMap.1 ha
  cases answer with
  | error f => cases hanswer
  | ok a' =>
    obtain rfl : a' = a := Option.some.inj hanswer
    exact ⟨c, h.each c a' hc⟩

/-- a builder holds what a log declares and its definition can be built, and so it is with every builder inside -/
inductive Keeps (r : Registry) : Nat → Builder → Log → Prop where
  | intro {left : Nat} {b : Builder} {log : Log} (holds : b.Holds r left log)
    (finished : b.finish = .ok ⟨b.stamp, b.name, log.declared, b.settings⟩)
    (inside : ∀ c a s lower log' inner, (c, .ok a) ∈ log → c.inside = .function s → left = lower + 1 →
      s.Passes r lower (b.inner a.name) log' .done inner → Keeps r lower inner log') : Keeps r left b log

/-- by induction on the levels that are left: what is inside a builder is one level below it -/
theorem keeps_of_passes {name : String} {settings : Settings} {stamp : Nat} {s s' : Script}
    (h : s.Passes r left (empty name settings stamp) log s' b) : b.Keeps r left log := by
  induction left generalizing name settings stamp s s' log b with
  | zero =>
    have holds : b.Holds r 0 log := (holds_empty name settings stamp).passes h
    refine .intro holds ?_ (by simp)
    rw [finish_of_nodup holds.distinct, build, holds.attributes]
  | succ left ih =>
    have holds : b.Holds r (left + 1) log := (holds_empty name settings stamp).passes h
    refine .intro holds ?_ fun c a s lower log' inner _ _ hlower hinner => ?_
    · rw [finish_of_nodup holds.distinct, build, holds.attributes]
    · cases hlower
      exact ih hinner

end Builder

/-! ## Calls that are tried -/

namespace Script

/-- makes calls in order, and goes on when one is refused -/
def trying : List Call → Script
  | [] => .done
  | c :: cs => .call c fun
    | .ok _ => trying cs
    | .error (.definition _) => trying cs
    | .error f => .raise f

end Script

/-! ## The whole run -/

/-- **Whatever calls are made on a builder, it holds what the successful ones declared, and a call that fails leaves it
as it was**; and so it is inside, at every level. -/
theorem Script.keeps_declared {name : String} {settings : Settings} {stamp : Nat} {s s' : Script} {log : Log}
    (h : s.Passes r left (.empty name settings stamp) log s' b) :
    b.Keeps r left log ∧ ∀ (c : Call) (f : Fault) (b' : Builder), c.make r left b = (.error f, b') → b' = b :=
  ⟨Builder.keeps_of_passes h, fun _ _ _ => Call.make_of_error⟩

def priceCall : Call := ⟨true, .text "price", .value (.text "decimal"), .none, []⟩

/-- lines with a price each. That it is declared again, by a byte string, is refused and caught -/
def linesCall : Call :=
  ⟨false, .text "lines", .value (.text "list"),
    .function (.trying [priceCall, ⟨false, .bytes false [112, 114, 105, 99, 101], .none, .none, []⟩]), []⟩

def orderLines : Attribute :=
  ⟨"lines", .arrayOf ⟨0, "order.lines", [⟨"price", .scalar .decimal, true, none, []⟩], .default⟩, false, none, []⟩

def linesAgain : Call := ⟨true, .text "lines", .none, .none, []⟩

/-- a note whose block declares a price, and then a name that is reserved, which nothing catches -/
def noteCall : Call :=
  ⟨false, .text "note", .none,
    .function (.call priceCall fun _ => .call ⟨false, .text "get", .none, .none, []⟩ fun
      | .ok _ => .done
      | .error f => .raise f), []⟩

def orderBuilder : Builder := ⟨"order", .default, 0, [orderLines]⟩

def orderLog : Log := [
  (linesCall, .ok orderLines),
  (linesAgain, .error (.definition (.declaredTwice "lines" "order"))),
  (noteCall, .error (.definition (.reservedName "get")))]

theorem order_keeps_lines :
    (Script.trying [linesCall, linesAgain, noteCall]).Passes .builtin 31
    (.empty "order" .default 0) orderLog .done orderBuilder ∧
      orderBuilder.Keeps .builtin 31 orderLog := by
  have hlines : linesCall.make .builtin 31 (.empty "order" .default 0) = (.ok orderLines, orderBuilder) := rfl
  have hagain : linesAgain.make .builtin 31 orderBuilder =
      (.error (.definition (.declaredTwice "lines" "order")), orderBuilder) := rfl
  have hnote : noteCall.make .builtin 31 orderBuilder = (.error (.definition (.reservedName "get")), orderBuilder) := rfl
  have passes :
    (Script.trying [linesCall, linesAgain, noteCall]).Passes .builtin 31 (.empty "order" .default 0) orderLog .done
      orderBuilder := .call hlines (.call hagain (.call hnote .here))
  exact ⟨passes, (Script.keeps_declared passes).1⟩

/-! ## Declarations that catch nothing -/

namespace Script

def insist (c : Call) (rest : Script) : Script :=
  .call c fun
    | .ok _ => rest
    | .error f => .raise f

variable (inside : Block → Inside)

def ofDeclarations : List Declaration → Script
  | [] => .done
  | d :: ds => insist ⟨d.required, d.name, d.type, inside d.block, d.options⟩ (ofDeclarations ds)

/-- makes the calls of the configurations of a document in order -/
def ofDocument (w : Workshop) : List (Value × Value) → Script
  | [] => .done
  | (name, config) :: es =>
    match Declaration.ofConfig w.registry w.known name config with
    | .error f => .raise f
    | .ok d => insist ⟨d.required, d.name, d.type, inside d.block, d.options⟩ (ofDocument w es)

end Script

/-- what a block is to a call, with `left` levels of nesting allowed below -/
def Block.inside (w : Workshop) : Nat → Block → Inside
  | _, .none => .none
  | _, .definition d => .definition d
  | _, .value v =>
    if v.callable then
      .function (match w.call v builderObject with
        | .ok _ => .done
        | .error f => .raise f)
    else .other
  | 0, .declarations _ => .function .done
  | 0, .document _ => .function .done
  | left + 1, .declarations ds => .function (.ofDeclarations (Block.inside w left) ds)
  | left + 1, .document es => .function (.ofDocument (Block.inside w left) w es)

def Declaration.call (w : Workshop) (left : Nat) (d : Declaration) : Call :=
  ⟨d.required, d.name, d.type, d.block.inside w left, d.options⟩

/-- the builder that steps leave behind, if they succeed -/
def Doing.outcome {α : Type} (x : Doing α) (b : Builder) : Outcome Builder :=
  let (answer, b') := x b
  answer.map fun _ => b'

theorem Script.outcome_insist (c : Call) (rest : Script) :
    ((insist c rest).run r left).outcome b = (c.make r left).outcome b >>= (rest.run r left).outcome := by
  unfold insist Doing.outcome
  rw [run]
  dsimp only
  rw [Call.make_eq]
  cases c.result r left b with
  | ok a => rfl
  | error f =>
    show (let (answer, b') := (raise f).run r left b; answer.map fun _ => b' : Outcome Builder) = _
    rw [run]
    rfl

namespace Builder

variable {w : Workshop}

theorem hasBlock_outline (w : Workshop) (left : Nat) (block : Block) :
    hasBlock (block.inside w left).outline = hasBlock block := by
  cases block with
  | none => cases left <;> rfl
  | definition d => cases left <;> rfl
  | value v => cases left <;> (unfold Block.inside; split <;> rfl)
  | declarations ds => cases left <;> rfl
  | document es => cases left <;> rfl

theorem prepare_outline (w : Workshop) (left : Nat) (b : Builder) (d : Declaration) :
    prepare w.registry b (d.call w left).outline = prepare w.registry b d := by
  have hblock := hasBlock_outline w left d.block
  unfold prepare Declaration.call Call.outline
  dsimp only
  rw [hblock]

/-- a function that comes to its end leaves a builder that can be built -/
theorem build_function {s : Script} {name : String} :
    (Inside.function s).build r (left + 1) b name = ((s.run r left).outcome (b.inner name)).map fun inner =>
    some inner.build := by
  unfold Inside.build Doing.outcome
  cases hrun : s.run r left (b.inner name) with
  | mk answer inner =>
    cases answer with
    | error f => rfl
    | ok u =>
      obtain ⟨log, hlog⟩ := s.passes_of_run hrun
      have holds : inner.Holds r left log := (holds_empty _ _ _).passes hlog
      dsimp only
      rw [finish_of_nodup holds.distinct]
      rfl

/-- a block builds what a declaration builds of it, if it does so one level below -/
theorem outcome_make {d : Declaration}
    (hblock : ∀ b name, (d.block.inside w left).build w.registry left b name = buildBlock w left b name d.block)
    (b : Builder) :
    ((d.call w left).make w.registry left).outcome b = declare w left b d := by
  have hresult :
      ((d.call w left).make w.registry left).outcome b = ((d.call w left).result w.registry left b).map b.put := by
    unfold Doing.outcome
    rw [Call.make_eq]
    cases (d.call w left).result w.registry left b <;> rfl
  rw [hresult]
  unfold Call.result declare append
  rw [prepare_outline]
  cases hp : prepare w.registry b d with
  | error f => rfl
  | ok p =>
    obtain ⟨-, -, -, -, hnew⟩ := of_checkName (of_prepare hp).named
    rw [ok_bind, ok_bind]
    show Except.map b.put ((d.block.inside w left).build w.registry left b p.name >>= _) = _
    rw [hblock]
    cases buildBlock w left b p.name d.block with
    | error f => rfl
    | ok block =>
      rw [ok_bind, ok_bind]
      cases buildRules p.options with
      | error f => rfl
      | ok rules => exact congrArg Except.ok (put_of_new hnew)

theorem outcome_ofDeclarations {ds : List Declaration}
    (hblock : ∀ block b name, (Block.inside w left block).build w.registry left b name = buildBlock w left b name block)
    (b : Builder) :
    ((Script.ofDeclarations (Block.inside w left) ds).run w.registry left).outcome b = declareAll w left b ds := by
  induction ds generalizing b with
  | nil => rw [Script.ofDeclarations, Script.run, declareAll]; rfl
  | cons d ds ih =>
    rw [Script.ofDeclarations, Script.outcome_insist, declareAll]
    show ((d.call w left).make w.registry left).outcome b >>= _ = _
    rw [outcome_make (hblock d.block)]
    exact bind_congr ih

theorem outcome_ofDocument {es : List (Value × Value)}
    (hblock : ∀ block b name, (Block.inside w left block).build w.registry left b name = buildBlock w left b name block)
    (b : Builder) :
    ((Script.ofDocument (Block.inside w left) w es).run w.registry left).outcome b = declareDocument w left b es := by
  induction es generalizing b with
  | nil => rw [Script.ofDocument, Script.run, declareDocument]; rfl
  | cons e es ih =>
    obtain ⟨name, config⟩ := e
    rw [Script.ofDocument, declareDocument]
    cases Declaration.ofConfig w.registry w.known name config with
    | error f => dsimp only; rw [Script.run]; rfl
    | ok d =>
      rw [ok_bind, Script.outcome_insist]
      show ((d.call w left).make w.registry left).outcome b >>= _ = _
      rw [outcome_make (hblock d.block)]
      exact bind_congr ih

/-- a function of the caller, which declares nothing, builds the same -/
theorem build_value (w : Workshop) (left : Nat) (v : Value) (b : Builder) (name : String) :
    ((Block.value v).inside w left).build w.registry left b name = buildBlock w left b name (.value v) := by
  rw [Block.inside]
  unfold buildBlock
  dsimp only
  by_cases hcall : v.callable = true
  · rw [if_pos hcall, if_neg (by simp [hcall])]
    cases left with
    | zero => rw [Inside.build]
    | succ left =>
      rw [build_function]
      unfold callBlock
      rw [if_pos hcall]
      cases w.call v builderObject with
      | error f => dsimp only; rw [Script.run]; rfl
      | ok u => dsimp only; rw [Script.run]; rfl
  · rw [if_neg hcall, if_pos (by simpa using hcall), Inside.build]

/-- a block builds the same for a call as for a declaration, by induction on the levels that are left -/
theorem build_inside (w : Workshop) (left : Nat) (block : Block) (b : Builder) (name : String) :
    (block.inside w left).build w.registry left b name = buildBlock w left b name block := by
  induction left generalizing block b name with
  | zero =>
    cases block with
    | none => rw [Block.inside, Inside.build, buildBlock]
    | definition d => rw [Block.inside, Inside.build, buildBlock]
    | value v => exact build_value w 0 v b name
    | declarations ds => rw [Block.inside, Inside.build, buildBlock]
    | document es => rw [Block.inside, Inside.build, buildBlock]
  | succ left ih =>
    cases block with
    | none => rw [Block.inside, Inside.build, buildBlock]
    | definition d => rw [Block.inside, Inside.build, buildBlock]
    | value v => exact build_value w (left + 1) v b name
    | declarations ds =>
      rw [Block.inside, build_function, outcome_ofDeclarations ih, buildBlock]
      cases declareAll w left (b.inner name) ds <;> rfl
    | document es =>
      rw [Block.inside, build_function, outcome_ofDocument ih, buildBlock]
      cases declareDocument w left (b.inner name) es <;> rfl

/-- **A declaration is its call**, where nothing is caught -/
theorem declare_eq_make (w : Workshop) (left : Nat) (b : Builder) (d : Declaration) :
    declare w left b d = ((d.call w left).make w.registry left).outcome b :=
  (outcome_make (fun b name => build_inside w left d.block b name) b).symm

end Builder

end Intake
