import PageScript.Proofs.Evaluation.Congruence

/-!
# Relations that evaluation respects

A relation that holds between the evaluations of any two trees as soon as it holds beneath them,
without regard to the trees or to the levels that are left.

* `Correspondence` — a relation between evaluations under two engines that the single steps, the
  sequencing of evaluations and the two kinds of call respect;
* `Correspondence.congruence` — such a relation is respected by one layer of evaluation;
* `Correspondence.evalAt` — hence it holds between the evaluations of every tree, at every level;
* `Uniform` — a relation that makes no difference between one exit and another, and that an attempt
  respects: it is enough to look at what a host can do step by step.

The two engines may have different limits.
-/

namespace PageScript

/-- Two engines that differ in their limits at most. -/
structure Engine.Agrees (engine engine' : Engine) : Prop where
  file : engine'.file = engine.file
  host : engine'.host = engine.host

theorem Engine.Agrees.refl (engine : Engine) : engine.Agrees engine :=
  ⟨rfl, rfl⟩

namespace Evaluation

open Eval

/-- A relation between evaluations under two engines that nothing a layer does can break. -/
structure Correspondence (engine engine' : Engine) where
  /-- The relation. -/
  Rel : {α : Type} → Eval α → Eval α → Prop
  agree : engine.Agrees engine'
  pure : ∀ {α : Type} (value : α), Rel (pure value) (pure value)
  bind : ∀ {α β : Type} {x y : Eval α} {f g : α → Eval β},
    Rel x y → (∀ value, Rel (f value) (g value)) → Rel (x >>= f) (y >>= g)
  throw : ∀ {α : Type} (exit : Exit), Rel (throw exit : Eval α) (throw exit)
  note : ∀ text, Rel (note text) (note text)
  resolve : ∀ name, Rel (peek (·.scope.lookup? name)) (peek (·.scope.lookup? name))
  declared : ∀ name, Rel (peek (·.scope.active.functions.contains name))
    (peek (·.scope.active.functions.contains name))
  world : Rel (peek (·.world)) (peek (·.world))
  declare : ∀ name value,
    Rel (modifyScope (·.declare name value)) (modifyScope (·.declare name value))
  assign : ∀ name value,
    Rel (modifyScope (·.assign name value)) (modifyScope (·.assign name value))
  declareFunction : ∀ closure,
    Rel (modifyScope (·.declareFunction closure)) (modifyScope (·.declareFunction closure))
  write : ∀ target name value,
    Rel (writeProperty engine target name value) (writeProperty engine' target name value)
  count : Rel (countStep engine) (countStep engine')
  deeper : ∀ {α : Type} {x y : Eval α}, Rel x y → Rel (deeper x) (deeper y)
  call : ∀ {eval eval' : Tree → Eval Value}, (∀ tree, Rel (eval tree) (eval' tree)) →
    ∀ closure values, Rel (callFunction engine eval closure values)
      (callFunction engine' eval' closure values)
  /-- Calls of host callables respect the relation if the calls do that they make in turn. -/
  callHost : ∀ {eval eval' : Tree → Eval Value},
    (∀ closure values, Rel (callFunction engine eval closure values)
      (callFunction engine' eval' closure values)) →
    ∀ callee function values act, actOf? engine function values = some act →
      Rel (callHost engine eval callee act) (callHost engine' eval' callee act)

namespace Correspondence

variable {engine engine' : Engine} (C : Correspondence engine engine')

theorem fail {α : Type} (cause : ExecutionCause) :
    C.Rel (fail engine cause : Eval α) (fail engine' cause) := by
  simp only [Eval.fail, C.agree.file]
  exact C.throw _

/-- What is respected by all of evaluation is respected by one layer of it. -/
def congruence : Congruence engine engine' where
  Rel := C.Rel
  host := C.agree.host
  pure := C.pure
  bind := C.bind
  giveBack value := C.throw _
  tooLong := C.throw _
  fail cause _ := C.fail cause
  refuse _ _ _ refusal _ := by
    rw [C.agree.file]
    exact C.throw _
  note := C.note
  resolve := C.resolve
  declared := C.declared
  store := C.bind C.world fun world => C.pure world.store
  declare := C.declare
  assign := C.assign
  declareFunction := C.declareFunction
  write := C.write
  callHost := C.callHost

theorem hoist (body : List Tree) : C.Rel (hoist body) (hoist body) :=
  C.congruence.hoist body

theorem evalSequence {eval eval' : Tree → Eval Value} (h : ∀ tree, C.Rel (eval tree) (eval' tree))
    (trees : List Tree) : C.Rel (evalSequence eval trees) (evalSequence eval' trees) :=
  C.congruence.evalSequence fun tree _ => h tree

theorem evalAt (room : Nat) (tree : Tree) :
    C.Rel (evalAt engine room tree) (evalAt engine' room tree) :=
  C.congruence.evalAt C.count (C.fail _) C.deeper C.call room tree

theorem callAt (room : Nat) (closure : Closure) (values : List Value) :
    C.Rel (callFunction engine (Evaluation.evalAt engine room) closure values)
      (callFunction engine' (Evaluation.evalAt engine' room) closure values) :=
  C.call (C.evalAt room) closure values

end Correspondence

/-! ### The steps of a host -/

/-- A relation between evaluations that all exits, the steps of a host and an attempt respect. -/
structure Uniform (Rel : {α : Type} → Eval α → Eval α → Prop) : Prop where
  pure : ∀ {α : Type} (value : α), Rel (pure value) (pure value)
  bind : ∀ {α β : Type} {x y : Eval α} {f g : α → Eval β},
    Rel x y → (∀ value, Rel (f value) (g value)) → Rel (x >>= f) (y >>= g)
  throw : ∀ {α : Type} (exit : Exit), Rel (throw exit : Eval α) (throw exit)
  attempt : ∀ {α : Type} {x y : Eval α}, Rel x y → Rel (attempt x) (attempt y)
  world : Rel (peek (·.world)) (peek (·.world))
  store : ∀ change : World → Store,
    Rel (modifyWorld fun world => { world with store := change world })
      (modifyWorld fun world => { world with store := change world })
  print : ∀ text, Rel (modifyWorld (·.print text)) (modifyWorld (·.print text))
  record : ∀ name values,
    Rel (modifyWorld (·.record name values)) (modifyWorld (·.record name values))

namespace Uniform

variable {Rel : {α : Type} → Eval α → Eval α → Prop} (U : Uniform Rel) {engine engine' : Engine}
include U

theorem fail (hagree : engine.Agrees engine') {α : Type} (cause : ExecutionCause) :
    Rel (fail engine cause : Eval α) (fail engine' cause) := by
  simp only [Eval.fail, hagree.file]
  exact U.throw _

theorem describe (tree : Tree) : Rel (describe tree) (describe tree) := by
  unfold Evaluation.describe
  split
  · exact U.pure _
  · exact U.throw _

theorem objects : Rel (peek (·.world.store)) (peek (·.world.store)) :=
  U.bind U.world fun world => U.pure world.store

theorem textOf (value : Value) : Rel (textOf value) (textOf value) := by
  rw [textOf_eq]
  refine U.bind U.objects fun store => ?_
  split
  · exact U.pure _
  · exact U.throw _

theorem writeProperty (hagree : engine.Agrees engine') (target : Value) (name : String)
    (value : Value) :
    Rel (writeProperty engine target name value) (writeProperty engine' target name value) := by
  rw [writeProperty_eq, writeProperty_eq, hagree.file]
  refine U.bind U.objects fun store => ?_
  split
  · exact U.store _
  · exact U.throw _
  · exact U.bind (U.textOf target) fun _ => U.fail hagree _

/-- What a host callable does respects the relation if the functions do that it calls. -/
theorem perform {call call' : Closure → List Value → Eval Value}
    (h : ∀ closure values, Rel (call closure values) (call' closure values)) (act : Act) :
    Rel (perform call act) (perform call' act) := by
  -- an act is a tree of steps: what holds behind every answer holds in front of the step
  induction act with
  | done value => exact U.pure value
  | fail fault => exact U.throw _
  | look next ih =>
    rw [perform_look, perform_look]
    exact U.bind U.world fun world => ih world
  | print text next ih => exact U.bind (U.print text) fun _ => ih
  | record name values next ih => exact U.bind (U.record name values) fun _ => ih
  | build blueprint next ih =>
    rw [perform_build, perform_build]
    exact U.bind U.world fun world => U.bind (U.store _) fun _ => ih _
  | put id name value next ih => exact U.bind (U.store _) fun _ => ih
  | invoke closure values next ih =>
    exact U.bind (U.attempt (h closure values)) fun answer => ih answer

theorem callHost (hagree : engine.Agrees engine') (eval eval' : Tree → Eval Value)
    (h : ∀ closure values, Rel (callFunction engine eval closure values)
      (callFunction engine' eval' closure values)) (callee : Tree) (act : Act) :
    Rel (callHost engine eval callee act) (callHost engine' eval' callee act) := by
  refine U.bind (U.attempt (U.perform h act)) fun answer => ?_
  split
  · exact U.pure _
  · exact U.throw _
  · split
    · exact U.throw _
    · exact U.bind (U.describe callee) fun _ => U.fail hagree _

end Uniform

end Evaluation

end PageScript
