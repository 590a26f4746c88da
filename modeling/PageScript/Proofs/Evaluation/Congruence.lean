import PageScript.Evaluation.Run

/-!
# Relations that one layer of evaluation respects

Most statements about a run compare it with another run, or with the state that it started in, and
their proofs would all walk through the same trees. The walk through one layer is taken here once,
for any relation between evaluations.

* `Tree.operands` — the trees inside a tree that its layer evaluates itself;
* `callValue`, `evalCallWith` — a call in two parts: finding the values, and what is done with them;
* `Congruence` — a relation between evaluations under two engines that what a layer does besides,
  the sequencing of evaluations and the calls of host callables respect;
* `Congruence.layer` — if the operands of a tree correspond, and the calls of functions do, then so
  do the layers of the tree;
* `Congruence.evalAt` — hence all evaluations correspond, if steps, levels and calls do.

The two engines have the same host, but may have different limits and run in different files. What
each of the operations of a layer reads from the state is spelled out by an equation in front of its
lemma (`lookup_eq` and so on).
-/

namespace PageScript

/-- A failure that a run meets at one of its bounds. All others are met by an operation. -/
def ExecutionCause.isBound : ExecutionCause → Bool
  | .stepLimit _ | .callDepth .. | .evaluationDepth _ => true
  | _ => false

/-- The trees inside a tree that are evaluated along with it. What stands on the left of an
assignment is none of them, but for the object of a member. -/
def Tree.operands : Tree → List Tree
  | .expressionStatement operand | .member operand _ | .declarator _ operand
  | .returnStatement operand => [operand]
  | .additive _ left right | .assignment _ (.member left _) right => [left, right]
  | .assignment _ _ right => [right]
  | .declaration trees | .block trees => trees
  | .call callee arguments => callee :: arguments
  | .hole | .number _ | .string _ | .identifier _ | .function .. | .program _ => []

namespace Evaluation

open Eval

/-- Looks at a part of the state. -/
def peek {β : Type} (view : State → β) : Eval β := fun state => .ok (view state) state

/-! ### What the operations look at -/

theorem lookup_eq (engine : Engine) (name : String) :
    lookup engine name = (peek (·.scope.lookup? name) >>= fun
      | some value => pure value
      | none => fail engine (.undefinedVariable name)) := rfl

theorem textOf_eq (value : Value) :
    textOf value = (peek (·.world.store) >>= fun store =>
      match store.text? value with
      | some text => pure text
      | none => failTooLong) := rfl

theorem readProperty_eq (engine : Engine) (target : Value) (name : String) :
    readProperty engine target name = (peek (·.world.store) >>= fun store =>
      match store.read name target with
      | some (.ok value) => pure value.orUndefined
      | some (.error refusal) =>
        throw (.failed (.script (refusal.inFile engine.file).failure))
      | none => textOf target >>= fun text =>
        fail engine (.undefinedProperty name text)) := rfl

theorem writeProperty_eq (engine : Engine) (target : Value) (name : String) (value : Value) :
    writeProperty engine target name value = (peek (·.world.store) >>= fun store =>
      match store.write name value target with
      | some (.ok store) => modifyWorld ({ · with store })
      | some (.error refusal) => throw (.failed (.script (refusal.inFile engine.file).failure))
      | none => textOf target >>= fun text =>
        fail engine (.invalidAssignment (text ++ "." ++ name))) := rfl

theorem perform_look (call : Closure → List Value → Eval Value) (next : World → Act) :
    perform call (.look next) = (peek (·.world) >>= fun world => perform call (next world)) := rfl

theorem perform_build (call : Closure → List Value → Eval Value) (blueprint : Blueprint)
    (next : Value → Act) :
    perform call (.build blueprint next) = (peek (·.world) >>= fun world =>
      modifyWorld ({ · with store := (blueprint.build world.store).2 }) >>= fun _ =>
        perform call (next (blueprint.build world.store).1)) := rfl

theorem resolveCallee_name (engine : Engine) (eval : Tree → Eval Value) (name : String) :
    resolveCallee engine eval (.identifier name) = (peek (·.scope.lookup? name) >>= fun
      | some value => pure value
      | none => fail engine (.undefinedFunction name)) := rfl

/-- What holds of a console's log function and of the callables of the host holds of every act. -/
theorem of_actOf {engine : Engine} {p : Act → Prop} (hlog : ∀ values, p (.log values))
    (hhost : ∀ callable values, p (engine.host callable values)) {function : Value}
    {values : List Value} {act : Act} (h : actOf? engine function values = some act) : p act := by
  cases function with
  | logger id =>
    obtain rfl := Option.some.inj h
    exact hlog values
  | callable callable =>
    obtain rfl := Option.some.inj h
    exact hhost callable values
  | _ => cases h

/-- What is done with a callee and its arguments, once they have their values. -/
def callValue (engine : Engine) (eval : Tree → Eval Value) (callee : Tree) (function : Value)
    (values : List Value) : Eval Value :=
  match function with
  | .function closure => callFunction engine eval closure values
  | _ =>
    match actOf? engine function values with
    | some act => callHost engine eval callee act
    | none => describe callee >>= fun text => fail engine (.notCallable text)

/-- A call that finds the values of its callee and its arguments and goes on with them in a given
way. -/
def evalCallWith (engine : Engine) (eval : Tree → Eval Value) (callee : Tree)
    (arguments : List Tree) (go : Value → List Value → Eval Value) : Eval Value :=
  if callee.isHole then pure .nothing
  else resolveCallee engine eval callee >>= fun function =>
    if function = .nothing then pure .nothing
    else evalArguments eval arguments >>= fun values => go function values

theorem evalCall_eq (engine : Engine) (eval : Tree → Eval Value) (callee : Tree)
    (arguments : List Tree) :
    evalCall engine eval callee arguments =
      evalCallWith engine eval callee arguments (callValue engine eval callee) := rfl

theorem layer_function (engine : Engine) (eval : Tree → Eval Value) (name : String)
    (params : List Tree) (body : Tree) :
    layer engine eval (.function (.identifier name) params body) =
      (peek (·.scope.active.functions.contains name) >>= fun declared =>
        if !declared then declareFunction name params body >>= fun _ =>
          pure .nothing
        else pure .nothing) := rfl

/-! ### Congruences -/

/-- The condition on the hosts of two engines, for an engine and itself. -/
theorem host_refl (engine : Engine) : engine.host = engine.host := rfl

/-- A relation between evaluations under two engines that nothing a layer does by itself can
break. -/
structure Congruence (engine engine' : Engine) where
  /-- The relation. -/
  Rel : {α : Type} → Eval α → Eval α → Prop
  host : engine'.host = engine.host
  pure : ∀ {α : Type} (value : α), Rel (pure value) (pure value)
  bind : ∀ {α β : Type} {x y : Eval α} {f g : α → Eval β},
    Rel x y → (∀ value, Rel (f value) (g value)) → Rel (x >>= f) (y >>= g)
  giveBack : ∀ value, Rel (throw (.returned value) : Eval Value) (throw (.returned value))
  tooLong : ∀ {α : Type}, Rel (failTooLong : Eval α) failTooLong
  fail : ∀ {α : Type} (cause : ExecutionCause), cause.isBound = false →
    Rel (fail engine cause : Eval α) (fail engine' cause)
  /-- An object may refuse to be read. -/
  refuse : ∀ (store : Store) (name : String) (target : Value) (refusal : Refusal),
    store.read name target = some (.error refusal) →
    Rel (throw (.failed (.script (refusal.inFile engine.file).failure)) : Eval Value)
      (throw (.failed (.script (refusal.inFile engine'.file).failure)))
  note : ∀ text, Rel (note text) (note text)
  resolve : ∀ name, Rel (peek (·.scope.lookup? name)) (peek (·.scope.lookup? name))
  declared : ∀ name, Rel (peek (·.scope.active.functions.contains name))
    (peek (·.scope.active.functions.contains name))
  store : Rel (peek (·.world.store)) (peek (·.world.store))
  declare : ∀ name value,
    Rel (modifyScope (·.declare name value)) (modifyScope (·.declare name value))
  assign : ∀ name value,
    Rel (modifyScope (·.assign name value)) (modifyScope (·.assign name value))
  declareFunction : ∀ closure,
    Rel (modifyScope (·.declareFunction closure)) (modifyScope (·.declareFunction closure))
  write : ∀ target name value,
    Rel (writeProperty engine target name value) (writeProperty engine' target name value)
  /-- Calls of host callables respect the relation if the calls do that they make in turn. -/
  callHost : ∀ {eval eval' : Tree → Eval Value},
    (∀ closure values, Rel (callFunction engine eval closure values)
      (callFunction engine' eval' closure values)) →
    ∀ callee function values act, actOf? engine function values = some act →
      Rel (callHost engine eval callee act) (callHost engine' eval' callee act)

namespace Congruence

variable {engine engine' : Engine} (C : Congruence engine engine')

/-! ### Steps without recursion -/

include C in
theorem actOf_eq (function : Value) (values : List Value) :
    actOf? engine' function values = actOf? engine function values := by
  unfold actOf?
  rw [C.host]

theorem declareClosure (name : String) (params : List Tree) (body : Tree) :
    C.Rel (Evaluation.declareFunction name params body)
      (Evaluation.declareFunction name params body) :=
  C.bind (C.declareFunction _) fun _ => C.note _

theorem hoist (body : List Tree) : C.Rel (hoist body) (hoist body) := by
  -- the induction follows the three ways in which a body can start
  induction body using hoist.induct with
  | case1 => exact C.pure ()
  | case2 name params body rest ih =>
    exact C.bind (C.declareClosure name params body) fun _ => ih
  | case3 tree rest hne ih =>
    rw [Evaluation.hoist]
    · exact ih
    · exact hne

theorem lookup (name : String) : C.Rel (lookup engine name) (lookup engine' name) := by
  rw [lookup_eq, lookup_eq]
  refine C.bind (C.resolve name) fun found => ?_
  cases found with
  | none => exact C.fail _ rfl
  | some value => exact C.pure value

theorem textOf (value : Value) : C.Rel (textOf value) (textOf value) := by
  rw [textOf_eq]
  refine C.bind C.store fun store => ?_
  split
  · exact C.pure _
  · exact C.tooLong

theorem describe (tree : Tree) : C.Rel (describe tree) (describe tree) := by
  unfold Evaluation.describe
  split
  · exact C.pure _
  · exact C.tooLong

theorem readProperty (target : Value) (name : String) :
    C.Rel (readProperty engine target name) (readProperty engine' target name) := by
  rw [readProperty_eq, readProperty_eq]
  refine C.bind C.store fun store => ?_
  split
  · exact C.pure _
  · next hrefused => exact C.refuse store name target _ hrefused
  · exact C.bind (C.textOf target) fun _ => C.fail _ rfl

/-- The failure of an operator on two values that it does not take. -/
theorem operandTypes (operator : Operator) (left right : Value) :
    C.Rel
      (peek (·.world.store) >>= fun store => (Eval.fail engine (.operandTypes operator.text
        (store.typeName left) (store.typeName right)) : Eval Value))
      (peek (·.world.store) >>= fun store => Eval.fail engine' (.operandTypes operator.text
        (store.typeName left) (store.typeName right))) :=
  C.bind C.store fun _ => C.fail _ rfl

theorem combine (operator : Operator) (left right : Value) :
    C.Rel (combine engine operator left right) (combine engine' operator left right) := by
  unfold Evaluation.combine
  split
  · exact C.pure _
  · exact C.pure _
  · exact C.pure _
  · exact C.operandTypes .add left right
  · exact C.operandTypes .sub left right
  · exact C.fail _ rfl

/-! ### Steps over an evaluation of the operands -/

section

variable {eval eval' : Tree → Eval Value}

theorem evalSequence {trees : List Tree} (h : ∀ tree ∈ trees, C.Rel (eval tree) (eval' tree)) :
    C.Rel (evalSequence eval trees) (evalSequence eval' trees) := by
  induction trees with
  | nil => exact C.pure ()
  | cons tree rest ih =>
    rw [List.forall_mem_cons] at h
    exact C.bind h.1 fun _ => ih h.2

theorem evalArguments {trees : List Tree} (h : ∀ tree ∈ trees, C.Rel (eval tree) (eval' tree)) :
    C.Rel (evalArguments eval trees) (evalArguments eval' trees) := by
  induction trees with
  | nil => exact C.pure []
  | cons tree rest ih =>
    rw [List.forall_mem_cons] at h
    exact C.bind h.1 fun _ => C.bind (ih h.2) fun _ => C.pure _

theorem evalAdditive (operator : Operator) {left right : Tree}
    (hleft : C.Rel (eval left) (eval' left)) (hright : C.Rel (eval right) (eval' right)) :
    C.Rel (evalAdditive engine eval operator left right)
      (evalAdditive engine' eval' operator left right) := by
  refine C.bind hleft fun lhs => C.bind hright fun rhs => ?_
  split
  · exact C.pure _
  · exact C.combine operator lhs rhs

theorem evalAssignment (operator : Operator) {left right : Tree}
    (h : ∀ tree ∈ (Tree.assignment operator left right).operands, C.Rel (eval tree) (eval' tree)) :
    C.Rel (evalAssignment engine eval left right) (evalAssignment engine' eval' left right) := by
  have hright : C.Rel (eval right) (eval' right) := by
    apply h
    cases left <;> simp [Tree.operands]
  unfold Evaluation.evalAssignment
  split
  · next object property =>
    have hobject : C.Rel (eval object) (eval' object) := h object (List.mem_cons_self ..)
    refine C.bind hobject fun target => C.bind hright fun value => ?_
    split
    · exact C.pure _
    · split
      · exact C.bind (C.write _ _ _) fun _ => C.pure _
      · exact C.pure _
  · refine C.bind hright fun value => ?_
    split
    · exact C.pure _
    · split
      · exact C.pure _
      · exact C.bind (C.assign _ _) fun _ => C.pure _
      · exact C.bind (C.describe left) fun _ => C.fail _ rfl

theorem resolveCallee {callee : Tree} (h : C.Rel (eval callee) (eval' callee)) :
    C.Rel (resolveCallee engine eval callee) (resolveCallee engine' eval' callee) := by
  cases callee with
  | identifier name =>
    rw [resolveCallee_name, resolveCallee_name]
    refine C.bind (C.resolve name) fun found => ?_
    cases found with
    | none => exact C.fail _ rfl
    | some value => exact C.pure value
  | _ => exact h

theorem evalCallWith {callee : Tree} {arguments : List Tree}
    (h : ∀ tree ∈ (Tree.call callee arguments).operands, C.Rel (eval tree) (eval' tree))
    {go go' : Value → List Value → Eval Value}
    (hgo : ∀ function values, C.Rel (go function values) (go' function values)) :
    C.Rel (evalCallWith engine eval callee arguments go)
      (evalCallWith engine' eval' callee arguments go') := by
  obtain ⟨hcallee, harguments⟩ := List.forall_mem_cons.1 h
  unfold Evaluation.evalCallWith
  split
  · exact C.pure _
  · refine C.bind (C.resolveCallee hcallee) fun function => ?_
    split
    · exact C.pure _
    · exact C.bind (C.evalArguments harguments) fun values => hgo function values

section

variable (hcall : ∀ closure values, C.Rel (callFunction engine eval closure values)
  (callFunction engine' eval' closure values))
include hcall

theorem callValue (callee : Tree) (function : Value) (values : List Value) :
    C.Rel (callValue engine eval callee function values)
      (callValue engine' eval' callee function values) := by
  unfold Evaluation.callValue
  split
  · exact hcall _ values
  · rw [C.actOf_eq]
    split
    · next act hact => exact C.callHost hcall callee function values act hact
    · exact C.bind (C.describe callee) fun _ => C.fail _ rfl

theorem evalCall {callee : Tree} {arguments : List Tree}
    (h : ∀ tree ∈ (Tree.call callee arguments).operands, C.Rel (eval tree) (eval' tree)) :
    C.Rel (evalCall engine eval callee arguments) (evalCall engine' eval' callee arguments) := by
  rw [evalCall_eq, evalCall_eq]
  exact C.evalCallWith h (C.callValue hcall callee)

/-- **One layer.** If the operands of a tree correspond and the calls of functions do, then the
layers of the tree correspond. -/
theorem layer (tree : Tree) (h : ∀ operand ∈ tree.operands, C.Rel (eval operand) (eval' operand)) :
    C.Rel (Evaluation.layer engine eval tree) (Evaluation.layer engine' eval' tree) := by
  cases tree with
  | hole => exact C.pure _
  | number value => exact C.pure _
  | string text => exact C.pure _
  | identifier name => exact C.lookup name
  | expressionStatement expression => exact h expression (List.mem_cons_self ..)
  | additive operator left right =>
    obtain ⟨hleft, hright⟩ := List.forall_mem_cons.1 h
    exact C.evalAdditive operator hleft (hright right (List.mem_cons_self ..))
  | assignment operator left right => exact C.evalAssignment operator h
  | member object property =>
    refine C.bind (h object (List.mem_cons_self ..)) fun target => ?_
    split
    · exact C.pure _
    · split
      · exact C.readProperty target _
      · exact C.pure _
  | declaration declarators => exact C.bind (C.evalSequence h) fun _ => C.pure _
  | declarator target init =>
    refine C.bind (h init (List.mem_cons_self ..)) fun value => ?_
    split
    · exact C.bind (C.declare _ _) fun _ => C.pure _
    · exact C.pure _
  | block body =>
    exact C.bind (C.hoist body) fun _ => C.bind (C.evalSequence h) fun _ => C.pure _
  | returnStatement argument =>
    exact C.bind (h argument (List.mem_cons_self ..)) fun _ => C.giveBack _
  | function name params body =>
    cases name with
    | identifier name =>
      rw [layer_function, layer_function]
      refine C.bind (C.declared name) fun declared => ?_
      split
      · exact C.bind (C.declareClosure name params body) fun _ => C.pure _
      · exact C.pure _
    | _ => exact C.pure _
  | call callee arguments => exact C.evalCall hcall h
  | program body => exact C.fail _ rfl

end

end

/-! ### Evaluation to any depth -/

/-- **Every level.** If counting, levels and calls respect the relation as well, then it holds
between the evaluations of every tree. -/
theorem evalAt (hcount : C.Rel (countStep engine) (countStep engine'))
    (hexhausted : C.Rel (Eval.fail engine (.evaluationDepth maxDepth) : Eval Value)
      (Eval.fail engine' (.evaluationDepth maxDepth)))
    (hdeeper : ∀ {x y : Eval Value}, C.Rel x y → C.Rel (deeper x) (deeper y))
    (hcall : ∀ {eval eval' : Tree → Eval Value}, (∀ tree, C.Rel (eval tree) (eval' tree)) →
      ∀ closure values, C.Rel (callFunction engine eval closure values)
        (callFunction engine' eval' closure values))
    (room : Nat) (tree : Tree) :
    C.Rel (evalAt engine room tree) (evalAt engine' room tree) := by
  -- the induction is on the levels that are left
  induction room generalizing tree with
  | zero =>
    by_cases hole : tree = .hole
    · subst hole
      exact C.pure _
    · rw [evalAt_zero engine hole, evalAt_zero engine' hole]
      exact C.bind hcount fun _ => hexhausted
  | succ room ih =>
    by_cases hole : tree = .hole
    · subst hole
      exact C.pure _
    · rw [evalAt_succ engine room hole, evalAt_succ engine' room hole]
      exact C.bind hcount fun _ => hdeeper (C.layer (hcall ih) tree fun operand _ => ih operand)

end Congruence

end Evaluation

end PageScript
