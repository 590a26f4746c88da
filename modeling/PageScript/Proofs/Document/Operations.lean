import PageScript.Proofs.Evaluation.Provenance
import PageScript.Proofs.Grammar.Shape

/-!
# The operations of a script

The grammar has no tree for an operation that evaluation does not know, and it leaves few ways to
assign to what cannot be assigned to. That carries over to whole runs, since all that a run ever
evaluates is part of the script: the bodies of functions are, wherever the functions have been, so
long as the embedding application has none of its own.

* `Host.Borrows` — a host whose callables bring in no functions of the script but those that they
  come upon;
* `Misassigns` — an assignment that is invalid, and why;
* `Provenance.ofScript` — what is part of a script leads to nothing but parts of it;
* `layer_brings` — the failures that a part of a script brings in by itself;
* `Warranted` — the failures for which a script can give cause;
* `Astray` — the moments of a run that would be out of the ordinary;
* `script_operations` — no run of a script comes to such a moment, nor to a failure without a cause.
-/

namespace PageScript

/-! ### Parts that are evaluated -/

/-- The operands of a tree are inside of it. -/
theorem Tree.operand_mem_inside {tree part : Tree} (h : part ∈ tree.operands) :
    part ∈ tree.inside := by
  have hparts : ∀ {trees : List Tree}, part ∈ trees → part ∈ partsAll trees :=
    fun hpart => mem_partsAll.2 ⟨part, hpart, .inl rfl⟩
  have hboth : ∀ {left right : Tree}, part ∈ [left, right] →
      part ∈ (left :: left.inside) ++ (right :: right.inside) := by
    intro left right hpart
    rcases List.mem_cons.1 hpart with rfl | hpart
    · exact List.mem_append_left _ (List.mem_cons_self ..)
    · obtain rfl := List.mem_singleton.1 hpart
      exact List.mem_append_right _ (List.mem_cons_self ..)
  cases tree with
  | declaration trees | block trees => exact hparts h
  | call callee arguments =>
    rcases List.mem_cons.1 h with rfl | h
    · exact List.mem_append_left _ (List.mem_cons_self ..)
    · exact List.mem_append_right _ (hparts h)
  | additive operator left right => exact hboth h
  | assignment operator left right =>
    cases left with
    | member object property =>
      rcases List.mem_cons.1 h with rfl | h
      · exact List.mem_append_left _ (List.mem_cons_of_mem _ (hboth (List.mem_cons_self ..)))
      · exact hboth (List.mem_cons_of_mem _ h)
    | _ => exact hboth (List.mem_cons_of_mem _ h)
  | member object property =>
    obtain rfl := List.mem_singleton.1 h
    exact hboth (List.mem_cons_self ..)
  | declarator target init => exact hboth (List.mem_cons_of_mem _ h)
  | expressionStatement inner | returnStatement inner =>
    obtain rfl := List.mem_singleton.1 h
    exact List.mem_cons_self ..
  | _ => exact absurd h List.not_mem_nil

/-- A literal or a call. -/
def Tree.isFixed : Tree → Bool
  | .number _ | .string _ | .call .. => true
  | _ => false

/-- A term that is no place is a literal or a call. -/
theorem Tree.isFixed_of_isTerm {tree : Tree} (h : tree.isTerm = true)
    (hplace : tree.isPlace = false) : tree.isFixed = true := by
  cases tree with
  | number | string | call => rfl
  | hole | identifier | member => cases hplace
  | _ => cases h

/-! ### Hosts -/

/-- A value that is no function but one of those that are known. -/
def Value.Knows (known : Closure → Prop) : Value → Prop
  | .function closure => known closure
  | _ => True

theorem Value.knows_of_isPlain {known : Closure → Prop} {value : Value} (h : value.IsPlain) :
    value.Knows known := by
  cases value with
  | function closure => exact absurd rfl (h.function closure)
  | _ => trivial

/-- A host whose callables bring in no functions of the script but those that they come upon. -/
def Host.Borrows (host : Host) : Prop :=
  ∀ (known : Closure → Prop) callable values, (∀ value ∈ values, value.Knows known) →
    (host callable values).Honours (Value.Knows known) fun _ => True

/-- An act that raises no failures of the script but those that it is handed raises those only that
the functions fail with that it calls, whatever faults it is free to raise. -/
theorem Act.Relays.honours {p : Value → Prop} {free raised : Fault → Prop} {act : Act}
    {handed : Failure → Prop} (hrelays : act.Relays handed) (h : act.Honours p free)
    (hfree : ∀ fault, raised fault → free fault)
    (hhanded : ∀ failure, handed failure → raised (.script failure))
    (hhost : ∀ fault, free (.host fault) → raised (.host fault)) : act.Honours p raised := by
  -- behind every call, the act may also hand on what the call has failed with
  induction act generalizing handed with
  | done value => exact h
  | fail fault =>
    cases fault with
    | script failure => exact hhanded failure (hrelays failure rfl)
    | host fault => exact hhost fault h
  | look next ih => exact fun world hworld => ih world (hrelays world) (h world hworld) hhanded
  | print text next ih => exact ih hrelays h hhanded
  | record name values next ih => exact ⟨h.1, ih hrelays h.2 hhanded⟩
  | build blueprint next ih =>
    exact ⟨h.1, fun value hvalue => ih value (hrelays value) (h.2 value hvalue) hhanded⟩
  | put id name value next ih => exact ⟨h.1, ih hrelays h.2 hhanded⟩
  | invoke closure values next ih =>
    obtain ⟨hclosure, hvalues, hnext⟩ := h
    refine ⟨hclosure, hvalues, fun answer hanswer => ?_⟩
    refine ih answer (hrelays answer) (hnext answer ?_) fun failure hfailure => ?_
    · cases answer with
      | ok value => exact hanswer
      | error fault => exact hfree fault hanswer
    · rcases hfailure with hfailure | rfl
      · exact hhanded failure hfailure
      · exact hanswer

/-- Ready-made functions bring in no functions, but for those that they build. -/
theorem Host.ofStock_borrows {table : Array Stock}
    (h : ∀ known, ∀ entry ∈ table, entry.Honours (Value.Knows known) fun _ => True) :
    (Host.ofStock table).Borrows :=
  fun known callable _ hvalues =>
    Host.ofStock_honours trivial (fun _ => trivial) (h known) callable hvalues

theorem Stock.act_relays {entry : Stock} (h : ∀ failure, entry ≠ .raise (.script failure))
    (values : List Value) : (entry.act values).Relays fun _ => False := by
  have htype : ∀ message, (Act.fail (typeFault message)).Relays fun _ => False :=
    fun message failure hfailure => Fault.noConfusion hfailure
  cases entry with
  | record name => trivial
  | const blueprint => exact fun _ => trivial
  | identity =>
    rcases identity_act values with ⟨value, rfl⟩ | ⟨message, hact⟩
    · trivial
    · rw [hact]
      exact htype message
  | last => trivial
  | raise fault => exact fun failure hfailure => h failure (congrArg Stock.raise hfailure)
  | invoke =>
    rcases invoke_act values with ⟨closure, arguments, rfl⟩ | ⟨message, hact⟩
    · intro answer
      cases answer with
      | ok value => trivial
      | error fault => exact fun failure hfailure => .inr (congrArg Except.error hfailure)
    · rw [hact]
      exact htype message

/-- Ready-made functions raise no failures of the script, but for those made to do so. -/
theorem Host.ofStock_honest {table : Array Stock}
    (h : ∀ entry ∈ table, ∀ failure, entry ≠ .raise (.script failure)) :
    (Host.ofStock table).Honest := by
  intro callable values
  unfold Host.ofStock
  split
  · next entry hentry =>
    exact Stock.act_relays (h entry (Array.mem_of_getElem? hentry)) values
  · trivial

/-- A failure for which an operation needs no other cause than what it comes upon. -/
def Failure.isOrdinary : Failure → Bool
  | .execution cause _ => cause.isOrdinary
  | _ => true

/-- A fault of the host, or a failure that is allowed. -/
def Fault.Allowed (allowed : Failure → Prop) : Fault → Prop
  | .script failure => allowed failure
  | .host _ => True

theorem Fault.Allowed.mono {allowed allowed' : Failure → Prop}
    (h : ∀ failure, allowed failure → allowed' failure) (fault : Fault) :
    fault.Allowed allowed → fault.Allowed allowed' := by
  cases fault with
  | script failure => exact h failure
  | host fault => exact id

namespace Evaluation

open Eval

/-! ### What a script leads to -/

/-- An assignment that is invalid where it is evaluated: both its sides have a value, and its left
side is a literal or a call, or a property of what is no object. -/
inductive Misassigns (eval : Tree → Eval Value) : Tree → State → String → Prop
  | fixed {operator : Operator} {left right : Tree} {value : Value} {state after : State}
      {text : String} :
      left.isFixed = true → eval right state = .ok value after → value ≠ .nothing →
      left.describe? = some text →
      Misassigns eval (.assignment operator left right) state text
  | disowned {operator : Operator} {object right : Tree} {name : String} {target value : Value}
      {state middle after : State} {text : String} :
      eval object state = .ok target middle → eval right middle = .ok value after →
      target ≠ .nothing → value ≠ .nothing → target.isObject = false →
      after.world.store.text? target = some text →
      Misassigns eval (.assignment operator (.member object (.identifier name)) right) state
        (text ++ "." ++ name)

/-- A value that is no function but one whose body is part of the script. -/
abbrev Homegrown (script : List Tree) : Value → Prop :=
  Value.Knows fun closure => closure.body ∈ Tree.partsAll script

section

variable {engine : Engine} {script : List Tree}
  (hshape : ∀ part ∈ Tree.partsAll script, part.WellShaped) (hhonest : engine.host.Honest)
  (hborrows : engine.host.Borrows)

section

variable (evaluator : (Tree → Eval Value) → Prop) (allowed : Failure → Prop)
  (hordinary : ∀ failure : Failure, failure.isOrdinary = true → allowed failure)
  (hmisassigns : ∀ eval tree state text, evaluator eval → tree ∈ Tree.partsAll script →
    Misassigns eval tree state text → allowed (.execution (.invalidAssignment text) engine.file))
include hshape hhonest hborrows hordinary hmisassigns

/-- **What is part of a script leads to nothing but parts of it.** The bodies of all functions are
parts of the script, whoever holds the functions. -/
def Provenance.ofScript : Provenance engine where
  tree tree := tree ∈ Tree.partsAll script
  value := Homegrown script
  fault := Fault.Allowed allowed
  raised := Fault.Allowed allowed
  evaluator := evaluator
  operand h hpart := Tree.partsAll_closed script _ h _ (Tree.operand_mem_inside hpart)
  function h := Tree.partsAll_closed script _ h _ (List.mem_append_right _ (List.mem_cons_self ..))
  body h := h
  word _ := trivial
  plain _ := Value.knows_of_isPlain
  ordinary h := hordinary (.execution _ _) h
  foreign h _ := hordinary (.execution _ _) h
  unknown h hadd hsub := absurd (hshape _ h).1 (not_or.2 ⟨hadd, hsub⟩)
  program h := (hshape _ h).elim
  misplaced heval h hplace hright hvalue htext :=
    hmisassigns _ _ _ _ heval h
      (.fixed (Tree.isFixed_of_isTerm (hshape _ h).2.1 hplace) hright hvalue htext)
  disowned heval h hobject hright htarget hvalue hno htext :=
    hmisassigns _ _ _ _ heval h (.disowned hobject hright htarget hvalue hno htext)
  overlong _ _ := trivial
  overlongCallee _ _ := trivial
  overlongTarget _ _ := trivial
  handed h := h
  relayed h := h
  fatal _ _ := trivial
  tooLong := trivial
  host callable values hvalues :=
    (hhonest callable values).honours (hborrows _ callable values hvalues) (fun _ _ => trivial)
      (fun _ => False.elim) fun _ _ => trivial

end

/-! ### Where failures come from -/

variable {eval : Tree → Eval Value} {state after : State} {text : String} {file : Option String}

/-- A write to a property is an invalid assignment only if there is no object to write to. -/
theorem writeProperty_invalid {target value : Value} {name : String}
    (h : writeProperty engine target name value state =
      .error (.failed (.script (.execution (.invalidAssignment text) file))) after) :
    target.isObject = false ∧
      ∃ shown, state.world.store.text? target = some shown ∧ text = shown ++ "." ++ name := by
  have hstore : peek (·.world.store) state = .ok state.world.store state := rfl
  rw [writeProperty_eq, bind_of_ok hstore] at h
  cases hwrite : state.world.store.write name value target with
  | some written =>
    rw [hwrite] at h
    cases written with
    | ok store => cases h
    | error refusal =>
      have hordinary := Store.write_refusal_isOrdinary hwrite
      have hcause : refusal.cause = .invalidAssignment text :=
        (Failure.execution.inj (failure_of_throw h)).1
      rw [hcause] at hordinary
      cases hordinary
  | none =>
    refine ⟨Store.isObject_of_write_eq_none hwrite, ?_⟩
    rw [hwrite] at h
    cases htext : state.world.store.text? target with
    | some shown =>
      dsimp only at h
      rw [bind_of_ok (textOf_of_some htext)] at h
      have hcause := (Failure.execution.inj (failure_of_throw h)).1
      exact ⟨shown, rfl, (ExecutionCause.invalidAssignment.inj hcause).symm⟩
    | none =>
      dsimp only at h
      rw [bind_of_error (textOf_of_none htext)] at h
      cases h

/-- An assignment to a literal or to a call fails once there is something to assign. -/
theorem evalAssignment_fixed {left : Tree} (h : left.isFixed = true) (engine : Engine)
    (eval : Tree → Eval Value) (right : Tree) :
    evalAssignment engine eval left right = (eval right >>= fun value =>
      if value = .nothing then pure .nothing
      else describe left >>= fun text => fail engine (.invalidAssignment text)) := by
  cases left with
  | number | string | call => rfl
  | _ => cases h

theorem misassigns_of_fixed {operator : Operator} {left right : Tree} {value : Value}
    {middle : State} (hfixed : left.isFixed = true) (hright : eval right state = .ok value middle)
    (hinvalid : evalAssignment engine eval left right state =
      .error (.failed (.script (.execution (.invalidAssignment text) file))) after) :
    Misassigns eval (.assignment operator left right) state text := by
  rw [evalAssignment_fixed hfixed, bind_of_ok hright] at hinvalid
  split at hinvalid
  · cases hinvalid
  · next hvalue =>
    unfold describe at hinvalid
    split at hinvalid
    · next shown htext =>
      have hcause := (Failure.execution.inj (failure_of_throw hinvalid)).1
      obtain rfl := ExecutionCause.invalidAssignment.inj hcause
      exact .fixed hfixed hright hvalue htext
    · cases hinvalid

/-- **An assignment that is invalid by itself** is so for one of two reasons. -/
theorem misassigns_of_invalid {operator : Operator} {left right : Tree} {middle : State}
    (hshape : (Tree.assignment operator left right).WellShaped)
    (hoperands : evalSequence eval (Tree.assignment operator left right).operands state =
      .ok () middle)
    (hinvalid : evalAssignment engine eval left right state =
      .error (.failed (.script (.execution (.invalidAssignment text) file))) after) :
    Misassigns eval (.assignment operator left right) state text := by
  -- the operands have come to their values, so the assignment itself is what fails
  cases left with
  | member object property =>
    obtain ⟨target, between, hobject, hrest⟩ := exists_of_bind hoperands
    obtain ⟨value, last, hright, -⟩ := exists_of_bind hrest
    unfold evalAssignment at hinvalid
    dsimp only at hinvalid
    rw [bind_of_ok hobject, bind_of_ok hright] at hinvalid
    split at hinvalid
    · cases hinvalid
    · next hboth =>
      obtain ⟨htarget, hvalue⟩ := not_or.1 hboth
      cases property with
      | identifier name =>
        dsimp only at hinvalid
        cases hwrite : writeProperty engine target name value last with
        | ok _ _ =>
          rw [bind_of_ok hwrite] at hinvalid
          cases hinvalid
        | error exit state =>
          rw [bind_of_error hwrite] at hinvalid
          obtain ⟨rfl, rfl⟩ := EStateM.Result.error.inj hinvalid
          obtain ⟨hno, shown, htext, rfl⟩ := writeProperty_invalid hwrite
          exact .disowned hobject hright htarget hvalue hno htext
      | _ => cases hinvalid
  | hole | identifier name =>
    obtain ⟨value, last, hright, -⟩ := exists_of_bind hoperands
    unfold evalAssignment at hinvalid
    dsimp only at hinvalid
    rw [bind_of_ok hright] at hinvalid
    split at hinvalid <;> cases hinvalid
  | _ =>
    obtain ⟨value, last, hright, -⟩ := exists_of_bind hoperands
    exact misassigns_of_fixed (Tree.isFixed_of_isTerm hshape.2.1 rfl) hright hinvalid

/-- An assignment ends where one of its operands does. -/
theorem evalAssignment_of_error {operator : Operator} {left right : Tree} {exit : Exit}
    (h : evalSequence eval (Tree.assignment operator left right).operands state =
      .error exit after) :
    evalAssignment engine eval left right state = .error exit after := by
  have hlast : ∀ {tree : Tree} {state : State},
      evalSequence eval [tree] state = .error exit after → eval tree state = .error exit after := by
    intro tree state h
    cases htree : eval tree state with
    | ok value middle =>
      rw [evalSequence, bind_of_ok htree] at h
      cases h
    | error exit' middle =>
      rw [evalSequence, bind_of_error htree] at h
      obtain ⟨rfl, rfl⟩ := EStateM.Result.error.inj h
      rfl
  cases left with
  | member object property =>
    unfold evalAssignment
    cases hobject : eval object state with
    | ok target between =>
      have hrest : evalSequence eval [right] between = .error exit after := by
        rw [← h]
        exact (bind_of_ok hobject fun _ => evalSequence eval [right]).symm
      exact (bind_of_ok hobject _).trans (bind_of_error (hlast hrest) _)
    | error exit' between =>
      have hfirst := (bind_of_error hobject fun _ => evalSequence eval [right]).symm.trans h
      obtain ⟨rfl, rfl⟩ := EStateM.Result.error.inj hfirst
      exact bind_of_error hobject _
  | _ =>
    unfold evalAssignment
    exact bind_of_error (hlast h) _

/-- An evaluation of the parts of a script by which, so long as all functions within reach are the
script's own, no other functions come up and no failures but ordinary ones. -/
def Innocent (script : List Tree) (eval : Tree → Eval Value) : Prop :=
  ∀ part ∈ Tree.partsAll script,
    Upholds (State.Holds (Homegrown script)) (Homegrown script)
      (Fault.Allowed fun failure => failure.isOrdinary = true) (Homegrown script) (eval part)

include hshape hhonest hborrows

/-- The parts of a script with ordinary failures only. No assignment is evaluated. -/
def Provenance.innocent : Provenance engine :=
  .ofScript hshape hhonest hborrows (fun _ => False) (fun failure => failure.isOrdinary = true)
    (fun _ h => h) fun _ _ _ _ => False.elim

theorem operands_ordinary (heval : Innocent script eval) {tree : Tree}
    (htree : tree ∈ Tree.partsAll script) {failure : Failure}
    (hstate : state.Holds (Homegrown script))
    (hend : evalSequence eval tree.operands state = .error (.failed (.script failure)) after) :
    failure.isOrdinary = true := by
  let P := Provenance.innocent hshape hhonest hborrows
  have hoperands := Provenance.Follows.evalSequence (P := P) heval fun _ => P.operand htree
  exact hoperands.fault hstate hend

/-- **What a part of a script brings in.** Over an innocent evaluation, it fails with nothing but
what is ordinary, unless it is an assignment that is invalid where it is evaluated. -/
theorem layer_brings {tree : Tree} (heval : Innocent script eval)
    (htree : tree ∈ Tree.partsAll script) (hstate : state.Holds (Homegrown script))
    {failure : Failure}
    (hend : layer engine eval tree state = .error (.failed (.script failure)) after) :
    failure.isOrdinary = true ∨
      ∃ text, failure = .execution (.invalidAssignment text) engine.file ∧
        Misassigns eval tree state text := by
  cases tree with
  | assignment operator left right =>
    let attempted : Failure → Prop := fun failure => failure.isOrdinary = true ∨
      ∃ text, failure = .execution (.invalidAssignment text) engine.file
    let P := Provenance.ofScript hshape hhonest hborrows (fun _ => True) attempted (fun _ => .inl)
      fun _ _ _ text _ _ _ => .inr ⟨text, rfl⟩
    have hlayer := Provenance.Follows.layer (P := P)
      (fun part hpart => (heval part hpart).allow (Fault.Allowed.mono fun _ => .inl)) htree
      fun _ _ _ _ => trivial
    rcases hlayer.fault hstate hend with h | ⟨text, rfl⟩
    · exact .inl h
    cases hoperands : evalSequence eval (Tree.assignment operator left right).operands state with
    | ok _ middle =>
      exact .inr ⟨text, rfl, misassigns_of_invalid (hshape _ htree) hoperands hend⟩
    | error exit last =>
      have hsame := (evalAssignment_of_error hoperands).symm.trans hend
      obtain ⟨rfl, rfl⟩ := EStateM.Result.error.inj hsame
      exact .inl (operands_ordinary hshape hhonest hborrows heval htree hstate hoperands)
  | _ =>
    -- no other tree can assign
    have hlayer := Provenance.Follows.layer (P := Provenance.innocent hshape hhonest hborrows) heval
      htree fun _ _ _ => Tree.noConfusion
    exact .inl (hlayer.fault hstate hend)

end

/-! ### Moments of a run -/

/-- A failure for which a script can give cause: it comes upon no operation that is unknown, and
upon no assignment that is invalid but those that its text attempts. -/
def Warranted (engine : Engine) (script : List Tree) : Failure → Prop
  | .execution (.unknownOperation _) _ => False
  | .execution (.invalidAssignment text) _ =>
    ∃ tree ∈ Tree.partsAll script, ∃ levels state, Misassigns (evalAt engine levels) tree state text
  | _ => True

theorem warranted_of_isOrdinary {engine : Engine} {script : List Tree} {failure : Failure}
    (h : failure.isOrdinary = true) : Warranted engine script failure := by
  cases failure with
  | execution cause file =>
    cases cause with
    | unknownOperation | invalidAssignment => cases h
    | _ => trivial
  | _ => trivial

/-- What is left to do for a tree that has been counted, with some levels left for it. -/
def resumed (engine : Engine) : (levels : Nat) → Tree → Eval Value
  | 0, _ => fail engine (.evaluationDepth maxDepth)
  | levels + 1, tree => deeper (layer engine (evalAt engine levels) tree)

/-- A state with one level more taken. -/
def deepened (state : State) : State :=
  { state with depth := state.depth + 1 }

/-- A moment out of the ordinary: a tree that has been counted in a state, and is no part of the
script; or it is an operation that is unknown; or it would end in a failure for which the script
gives no cause; or it is an assignment that would be invalid by itself, but neither for what it
assigns to nor for the object of it. What would happen is asked for with however many levels left. -/
inductive Astray (engine : Engine) (script : List Tree) : Tree → State → Prop
  | foreign {tree : Tree} {state : State} : tree ∉ Tree.partsAll script →
      Astray engine script tree state
  | unknown {operator : Operator} {left right : Tree} {state : State} : operator ≠ .add →
      operator ≠ .sub → Astray engine script (.additive operator left right) state
  | program {trees : List Tree} {state : State} : Astray engine script (.program trees) state
  | unwarranted {levels : Nat} {tree : Tree} {state after : State} {failure : Failure} :
      resumed engine levels tree state = .error (.failed (.script failure)) after →
      ¬ Warranted engine script failure → Astray engine script tree state
  | unfounded {levels : Nat} {operator : Operator} {left right : Tree} {state middle after : State}
      {text : String} {file : Option String} :
      evalSequence (evalAt engine levels) (Tree.assignment operator left right).operands
        (deepened state) = .ok () middle →
      resumed engine (levels + 1) (.assignment operator left right) state =
        .error (.failed (.script (.execution (.invalidAssignment text) file))) after →
      ¬ Misassigns (evalAt engine levels) (.assignment operator left right) (deepened state) text →
      Astray engine script (.assignment operator left right) state

section

variable {engine : Engine} {script : List Tree}
  (hshape : ∀ part ∈ Tree.partsAll script, part.WellShaped) (hhonest : engine.host.Honest)
  (hborrows : engine.host.Borrows)
include hshape hhonest hborrows

/-- The parts of a script, evaluated with any levels left, and the failures it can give cause for. -/
def Provenance.warranted : Provenance engine :=
  .ofScript hshape hhonest hborrows (fun eval => ∃ levels, eval = evalAt engine levels)
    (Warranted engine script) (fun _ => warranted_of_isOrdinary)
    fun _ tree state _ ⟨levels, heval⟩ htree h => ⟨tree, htree, levels, state, heval ▸ h⟩

theorem evaluator_evalAt (levels : Nat) :
    (Provenance.warranted hshape hhonest hborrows).evaluator (evalAt engine levels) :=
  ⟨levels, rfl⟩

theorem resumed_follows (levels : Nat) {tree : Tree} (htree : tree ∈ Tree.partsAll script) :
    (Provenance.warranted hshape hhonest hborrows).Follows (Fault.Allowed (Warranted engine script))
      (Homegrown script) (resumed engine levels tree) (resumed engine levels tree) := by
  cases levels with
  | zero => exact .fail trivial
  | succ levels =>
    have hevaluator := evaluator_evalAt hshape hhonest hborrows
    exact (Provenance.Follows.layer (Provenance.Follows.evalAt hevaluator levels) htree
      fun _ _ _ _ => hevaluator levels).deeper (Provenance.blind _)

/-- No moment at which a part of the script is evaluated is out of the ordinary, so long as all
functions within reach are the script's own. -/
theorem not_astray {tree : Tree} {state : State} (htree : tree ∈ Tree.partsAll script)
    (hstate : state.Holds (Homegrown script)) : ¬ Astray engine script tree state := by
  intro h
  cases h with
  | foreign hforeign => exact hforeign htree
  | unknown hadd hsub => exact (hshape _ htree).1.elim hadd hsub
  | program => exact hshape _ htree
  | @unwarranted levels _ _ after failure hend hno =>
    exact hno ((resumed_follows hshape hhonest hborrows levels htree).fault hstate hend)
  | unfounded hoperands hend hno =>
    rw [resumed, deeper_apply] at hend
    obtain ⟨last, hlast⟩ := exists_of_mapFinal hend
    exact hno (misassigns_of_invalid (hshape _ htree) hoperands hlast)

end

/-- **A script does nothing out of the ordinary.** Take any script, and any host whose callables
raise no failures of the script and bring in no functions of the script, unless they have been
handed them, and start from any state that holds no function. Then whoever speaks at moments out of
the ordinary only, to put another ending in place of what would happen, is never heard: no operation
that is evaluated is unknown, and every assignment that fails as invalid assigns to a literal or to
a call, or to a property of what is no object. If the program itself ends with a failure, the script
gives cause for that as well. Nor does an invalid assignment come from anywhere else: over any
innocent evaluation of what is inside of it, a part of the script brings in no failure but ordinary
ones, unless it is such an assignment. -/
theorem script_operations {source : String} {file : Option String} {engine : Engine}
    {script : List Tree} (hread : Grammar.readScript source file = .ok script)
    (hhonest : engine.host.Honest) (hborrows : engine.host.Borrows) {start : State}
    (hstart : start.Holds (Value.Knows fun _ => False)) :
    (∀ observer : Observer,
      (∀ tree state, observer tree state ≠ none → Astray engine script tree state) →
      observedExecute engine observer script start = execute engine script start) ∧
    (∀ failure, outcome (execute engine script start) = .error (.failed (.script failure)) →
      Warranted engine script failure) ∧
    ∀ eval : Tree → Eval Value, Innocent script eval → ∀ tree ∈ Tree.partsAll script,
      ∀ state : State, state.Holds (Homegrown script) →
      ∀ failure after, layer engine eval tree state = .error (.failed (.script failure)) after →
        failure.isOrdinary = true ∨
          ∃ text, failure = .execution (.invalidAssignment text) engine.file ∧
            Misassigns eval tree state text := by
  have hshape : ∀ part ∈ Tree.partsAll script, part.WellShaped :=
    Tree.shaped_all fun tree htree => (Grammar.readScript_elements hread tree htree).2
  have hevaluator := evaluator_evalAt hshape hhonest hborrows
  have hscript : ∀ tree ∈ script, tree ∈ Tree.partsAll script :=
    fun tree htree => Tree.mem_partsAll.2 ⟨tree, htree, .inl rfl⟩
  have hknown : start.Holds (Homegrown script) := by
    refine hstart.mono fun value hvalue => ?_
    cases value with
    | function closure => exact hvalue.elim
    | _ => trivial
  refine ⟨fun observer hspeaks => ?_, fun failure hend => ?_, ?_⟩
  · have hsilent : ∀ tree state, tree ∈ Tree.partsAll script →
        state.Holds (Homegrown script) → observer tree state = none := by
      intro tree state htree hstate
      by_contra hne
      exact not_astray hshape hhonest hborrows htree hstate (hspeaks tree state hne)
    exact (Provenance.Follows.observedExecute hevaluator hsilent hscript start hknown).same
  · obtain ⟨after, hafter⟩ := exists_of_outcome hend
    exact (Provenance.Follows.execute hevaluator hscript).fault hknown hafter
  · intro eval heval tree htree state hstate failure after hend
    exact layer_brings hshape hhonest hborrows heval htree hstate hend

/-- An assignment to a call. -/
def toCall : Tree :=
  .assignment .assign (.call (.identifier "g") [.number 1]) (.number 4)

/-- A function that the host is handed and hands back, and an assignment to a call of it. -/
def borrowed : List Tree :=
  [.function (.identifier "f") [.identifier "x"]
    (.block [.expressionStatement (.assignment .assign (.identifier "g")
        (.call (.identifier "same") [.identifier "f"])),
      .returnStatement (.additive .sub (.number 2) (.identifier "x"))]),
    .expressionStatement (.call (.identifier "call") [.identifier "f", .number 3]),
    .expressionStatement toCall]

theorem script_operations_borrowed :
    let engine : Engine := ⟨none, .standard, .ofStock #[.invoke, .identity]⟩
    let strict : Observer := fun tree state =>
      if tree ∈ Tree.partsAll borrowed then none else some (.ok .undefined state)
    let start := State.initial
      [("call", .callable ⟨"invoke", 0⟩), ("same", .callable ⟨"identity", 1⟩)] (.ofStore .empty)
    observedExecute engine strict borrowed start = execute engine borrowed start ∧
    outcome (execute engine borrowed start) =
      .error (.failed (.script (.execution (.invalidAssignment "g(1)") none))) ∧
    (∃ tree ∈ Tree.partsAll borrowed, ∃ levels state,
      Misassigns (evalAt engine levels) tree state "g(1)") ∧
    Misassigns (fun _ => pure (.number 4)) toCall start "g(1)" := by
  intro engine strict start
  have hread : Grammar.readScript
      "function f(x) \x7b g = same(f); return 2 - x; \x7d call(f, 3); g(1) = 4;" none =
        .ok borrowed := by
    cbv
  have hend : outcome (execute engine borrowed start) =
      .error (.failed (.script (.execution (.invalidAssignment "g(1)") none))) := by
    decide +kernel
  have htable : ∀ entry ∈ #[Stock.invoke, .identity], entry = .invoke ∨ entry = .identity := by
    simp
  have hhonest : engine.host.Honest :=
    Host.ofStock_honest fun entry hentry failure => by
      rcases htable entry hentry with rfl | rfl <;> exact Stock.noConfusion
  have hborrows : engine.host.Borrows :=
    Host.ofStock_borrows fun known entry hentry => by
      rcases htable entry hentry with rfl | rfl <;> trivial
  have hholds : ∀ known, start.Holds (Value.Knows known) := by
    refine fun known => .initial (fun entry hentry => ?_) .empty
    simp only [List.mem_cons, List.not_mem_nil, or_false] at hentry
    rcases hentry with rfl | rfl <;> trivial
  obtain ⟨hunheard, hwarranted, hbrings⟩ := script_operations hread hhonest hborrows (hholds _)
  refine ⟨hunheard strict fun tree state hne => ?_, hend, hwarranted _ hend, ?_⟩
  · by_cases hpart : tree ∈ Tree.partsAll borrowed
    · exact absurd (if_pos hpart) hne
    · exact .foreign hpart
  · have hinnocent : Innocent borrowed fun _ => pure (.number 4) := fun _ _ => .pure trivial
    have hpart : toCall ∈ Tree.partsAll borrowed := by decide
    have hfails : outcome (layer engine (fun _ => pure (.number 4)) toCall start) =
        .error (.failed (.script (.execution (.invalidAssignment "g(1)") none))) := by
      decide +kernel
    obtain ⟨after, hlayer⟩ := exists_of_outcome hfails
    rcases hbrings _ hinnocent toCall hpart start (hholds _) _ _ hlayer with h | ⟨text, htext, h⟩
    · cases h
    · obtain rfl := ExecutionCause.invalidAssignment.inj (Failure.execution.inj htext).1
      exact h

end Evaluation

end PageScript
