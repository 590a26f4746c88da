import PageScript.Embedding.Stock
import PageScript.Proofs.Evaluation.Contract
import PageScript.Proofs.Evaluation.Frames

/-!
# Which expressions have a value

No variable is ever bound to the absent value: what is declared, passed, returned or read counts as
undefined instead, and an assignment of no value assigns nothing. So only the text of an expression
can leave it without a value.

* `Tree.isVoid` — an expression that has no value, as its text shows;
* `State.Present` — no variable is bound to the absent value;
* `Host.Forwards` — a host that passes on no absent value to the functions it calls;
* `Supplies` — an evaluation that keeps all variables present, with a property of its value;
* `Supplies.layer`, `Supplies.evalAt` — the value of an expression is absent exactly if it is void;
* `value_absent_iff_void` — so it is for every expression, and all of evaluation keeps variables
  present.
-/

namespace PageScript

/-! ### Expressions -/

/-- Whether a tree is a name. -/
def Tree.isIdentifier : Tree → Bool
  | .identifier _ => true
  | _ => false

theorem Tree.isIdentifier_of_ne {tree : Tree} (h : ∀ name, tree = .identifier name → False) :
    tree.isIdentifier = false := by
  cases tree with
  | identifier name => exact (h name rfl).elim
  | _ => rfl

/-- Whether an expression has no value, as its text shows. A call has one unless its callee has
none: its arguments do not matter. -/
def Tree.isVoid : Tree → Bool
  | .hole => true
  | .additive _ left right => left.isVoid || right.isVoid
  | .assignment _ .hole _ => true
  | .assignment _ (.member object property) right =>
    object.isVoid || !property.isIdentifier || right.isVoid
  | .assignment _ _ right => right.isVoid
  | .member object property => object.isVoid || !property.isIdentifier
  | .call callee _ => callee.isVoid
  | _ => false

mutual

/-- A tree of holes, literals, names, operations, assignments, members and calls. -/
def Tree.IsExpression : Tree → Prop
  | .hole | .number _ | .string _ | .identifier _ => True
  | .additive _ left right | .assignment _ left right | .member left right =>
    left.IsExpression ∧ right.IsExpression
  | .call callee arguments => callee.IsExpression ∧ Tree.AreExpressions arguments
  | _ => False

/-- Several such trees. -/
def Tree.AreExpressions : List Tree → Prop
  | [] => True
  | tree :: trees => tree.IsExpression ∧ Tree.AreExpressions trees

end

/-- The value is absent exactly if the tree is void, provided that it is an expression. -/
def Tree.Fits (tree : Tree) (value : Value) : Prop :=
  tree.IsExpression → (value = .nothing ↔ tree.isVoid = true)

theorem Value.orUndefined_ne (value : Value) : value.orUndefined ≠ .nothing := by
  cases value <;> exact fun h => nomatch h

/-! ### Bindings -/

/-- No variable of a frame is bound to the absent value. -/
def Frame.Present (frame : Frame) : Prop :=
  frame.vars.All (· ≠ .nothing)

/-- No variable is bound to the absent value, in no frame. -/
def State.Present (state : State) : Prop :=
  state.scope.Every Frame.Present

namespace Frame

theorem Present.vacant : Frame.vacant.Present := .empty

theorem Present.get {frame : Frame} (h : frame.Present) {name : String} {value : Value}
    (hvalue : frame.get? name = some value) : value ≠ .nothing := by
  rw [get?, Option.or_eq_some_iff, Option.map_eq_some_iff] at hvalue
  rcases hvalue with hvar | ⟨-, closure, -, rfl⟩
  · exact h name value hvar
  · exact Value.noConfusion

theorem Present.declare {frame : Frame} (h : frame.Present) (name : String) {value : Value}
    (hvalue : value ≠ .nothing) : (frame.declare name value).Present :=
  h.insert name hvalue

theorem Present.declareFunction {frame : Frame} (h : frame.Present) (closure : Closure) :
    (frame.declareFunction closure).Present := h

end Frame

/-! ### Callables -/

/-- An act that calls functions with what it has received, or with other values, but with no absent
value that it comes upon elsewhere. -/
def Act.Forwards (received : List Value) : Act → Prop
  | .done _ | .fail _ => True
  | .look next => ∀ world, (next world).Forwards received
  | .print _ next | .record _ _ next | .put _ _ _ next => next.Forwards received
  | .build _ next => ∀ value, (next value).Forwards received
  | .invoke _ arguments next =>
    (∀ value ∈ arguments, value ∈ received ∨ value ≠ .nothing) ∧
      ∀ answer, answer ≠ .ok .nothing → (next answer).Forwards received

/-- A host whose callables call functions with what they have received only, so far as it is absent.
-/
def Host.Forwards (host : Host) : Prop :=
  ∀ callable values, (host callable values).Forwards values

theorem Act.log_forwards (arguments received : List Value) :
    (Act.log arguments).Forwards received := by
  intro world
  dsimp only
  split <;> trivial

theorem Stock.act_forwards (entry : Stock) (values : List Value) :
    (entry.act values).Forwards values := by
  cases entry with
  | const blueprint => exact fun _ => trivial
  | identity =>
    rcases identity_act values with ⟨value, rfl⟩ | ⟨message, hact⟩
    · trivial
    · rw [hact]
      trivial
  | invoke =>
    rcases invoke_act values with ⟨closure, arguments, rfl⟩ | ⟨message, hact⟩
    · refine ⟨fun value hvalue => .inl (List.mem_cons_of_mem _ hvalue), fun answer _ => ?_⟩
      cases answer <;> trivial
    · rw [hact]
      trivial
  | _ => trivial

theorem Host.ofStock_forwards (table : Array Stock) : (Host.ofStock table).Forwards := by
  intro callable values
  unfold Host.ofStock
  split
  · exact Stock.act_forwards _ values
  · trivial

namespace Evaluation

open Eval

variable {α : Type}

/-- An evaluation that keeps all variables present, returns no absent value, and gives a value with
a property. -/
abbrev Supplies (p : α → Prop) (x : Eval α) : Prop :=
  Upholds State.Present (· ≠ .nothing) (fun _ => True) p x

theorem blind_present : Blind State.Present := by
  intro state state' hscope _ hstate
  unfold State.Present
  rwa [hscope]

namespace Supplies

variable {p : α → Prop}

/-! ### Steps without recursion -/

theorem peek (view : State → α) : Supplies (fun _ => True) (Evaluation.peek view) :=
  Tracks.peek fun _ _ => trivial

theorem modifyWorld (change : World → World) :
    Supplies (fun _ => True) (modifyWorld change) :=
  .modify fun _ hstate => hstate

theorem declare (name : String) {value : Value} (h : value ≠ .nothing) :
    Supplies (fun _ => True) (modifyScope (·.declare name value)) :=
  .modify fun _ hstate => hstate.modifyActive fun _ hframe => hframe.declare name h

theorem assign (name : String) {value : Value} (h : value ≠ .nothing) :
    Supplies (fun _ => True) (modifyScope (·.assign name value)) :=
  .modify fun _ hstate => hstate.assign fun _ hframe => hframe.declare name h

theorem declareClosure (name : String) (params : List Tree) (body : Tree) :
    Supplies (fun _ => True) (declareFunction name params body) := by
  have hdeclare : ∀ closure : Closure,
      Supplies (fun _ => True) (modifyScope (·.declareFunction closure)) := fun closure =>
    .modify fun _ hstate => hstate.modifyActive fun _ hframe => hframe.declareFunction closure
  exact (hdeclare _).andThen (.note blind_present _)

theorem hoist (body : List Tree) : Supplies (fun _ => True) (hoist body) := by
  -- the induction follows the three ways in which a body can start
  induction body using hoist.induct with
  | case1 => exact .pure trivial
  | case2 name params body rest ih => exact (declareClosure name params body).andThen ih
  | case3 tree rest hne ih =>
    rw [Evaluation.hoist]
    · exact ih
    · exact hne

/-- What a name stands for is present. -/
theorem lookup {name : String} (engine : Engine) (cause : ExecutionCause) :
    Supplies (· ≠ .nothing) (Evaluation.peek (·.scope.lookup? name) >>= fun
      | some value => Pure.pure value
      | none => Eval.fail engine cause) :=
  Tracks.lookup (fun _ _ hstate => hstate.lookup fun hframe => hframe.get) (.fail trivial)

theorem textOf (value : Value) : Supplies (fun _ => True) (textOf value) := by
  rw [textOf_eq]
  refine (peek _).bind fun store _ => ?_
  split
  · exact .pure trivial
  · exact .refuse trivial

theorem describe (tree : Tree) : Supplies (fun _ => True) (describe tree) := by
  unfold Evaluation.describe
  split
  · exact .pure trivial
  · exact .refuse trivial

/-- A property may be absent, but what is read counts as undefined then. -/
theorem readProperty (engine : Engine) (target : Value) (name : String) :
    Supplies (· ≠ .nothing) (readProperty engine target name) := by
  rw [readProperty_eq]
  refine (peek _).bind fun store _ => ?_
  split
  · next value _ => exact .pure value.orUndefined_ne
  · exact .refuse trivial
  · exact (textOf target).bind fun _ _ => .fail trivial

theorem writeProperty (engine : Engine) (target : Value) (name : String) (value : Value) :
    Supplies (fun _ => True) (writeProperty engine target name value) := by
  rw [writeProperty_eq]
  refine (peek _).bind fun store _ => ?_
  split
  · exact modifyWorld _
  · exact .refuse trivial
  · exact (textOf target).bind fun _ _ => .fail trivial

/-! ### Calls -/

theorem bindParams {params : List (Option String)} {values : List Value} {frame : Frame}
    (hvalues : ∀ value ∈ values, value ≠ Value.nothing) (hframe : frame.Present) :
    (bindParams params values frame).Present :=
  bindParams_of_declare (fun _ name _ h hvalue => h.declare name hvalue) (fun h => nomatch h) hvalues
    hframe

section

variable {engine : Engine} {eval : Tree → Eval Value}
  (heval : ∀ tree : Tree, Supplies tree.Fits (eval tree))
include heval

/-- A call always has a value. -/
theorem callFunction (closure : Closure) {values : List Value}
    (hvalues : ∀ value ∈ values, value ≠ Value.nothing) :
    Supplies (· ≠ .nothing) (callFunction engine eval closure values) := by
  exact Tracks.callFunction blind_present (fun _ h => h.enter (bindParams hvalues .vacant))
    (fun _ h => h.leave) (fun _ => trivial) (heval closure.body) fun h => nomatch h

omit heval in
/-- An act that has received present values calls functions with present values. -/
theorem perform {call : Closure → List Value → Eval Value}
    (hcall : ∀ closure values, (∀ value ∈ values, value ≠ Value.nothing) →
      Supplies (· ≠ .nothing) (call closure values))
    {received : List Value} (hreceived : ∀ value ∈ received, value ≠ Value.nothing) {act : Act}
    (h : act.Forwards received) : Supplies (fun _ => True) (perform call act) := by
  -- an act is a tree of steps: what holds behind every answer holds in front of the step
  induction act with
  | done value => exact .pure trivial
  | fail fault => exact .refuse trivial
  | look next ih =>
    rw [perform_look]
    exact (peek _).bind fun world _ => ih world (h world)
  | print text next ih => exact (modifyWorld _).andThen (ih h)
  | record name values next ih => exact (modifyWorld _).andThen (ih h)
  | build blueprint next ih =>
    rw [perform_build]
    exact (peek _).bind fun world _ => (modifyWorld _).andThen (ih _ (h _))
  | put id name value next ih => exact (modifyWorld _).andThen (ih h)
  | invoke closure arguments next ih =>
    obtain ⟨hforwards, hnext⟩ := h
    have harguments : ∀ value ∈ arguments, value ≠ .nothing := fun value hvalue =>
      (hforwards value hvalue).elim (hreceived value) id
    have hanswer : Supplies (· ≠ .ok .nothing) (attempt (call closure arguments)) :=
      (hcall closure arguments harguments).attempt (fun value hvalue h => hvalue (Except.ok.inj h))
        fun _ _ h => nomatch h
    exact hanswer.bind fun answer hne => ih answer (hnext answer hne)

theorem callHost {received : List Value} (hreceived : ∀ value ∈ received, value ≠ Value.nothing)
    {act : Act} (h : act.Forwards received) (callee : Tree) :
    Supplies (· ≠ .nothing) (callHost engine eval callee act) := by
  have hact : Supplies (fun _ => True)
      (Evaluation.perform (Evaluation.callFunction engine eval) act) :=
    perform (fun closure values hvalues => callFunction heval closure hvalues) hreceived h
  have hattempt : Supplies (fun _ => True)
      (attempt (Evaluation.perform (Evaluation.callFunction engine eval) act)) :=
    hact.attempt (fun _ _ => trivial) fun _ _ => trivial
  refine hattempt.bind fun answer _ => ?_
  split
  · next value => exact .pure value.orUndefined_ne
  · exact .refuse trivial
  · split
    · exact .refuse trivial
    · exact (describe callee).bind fun _ _ => .fail trivial

omit heval in
theorem actOf (hhost : engine.host.Forwards) {function : Value} {values : List Value} {act : Act}
    (hact : actOf? engine function values = some act) : act.Forwards values := by
  cases function with
  | logger id =>
    obtain rfl := Option.some.inj hact
    exact Act.log_forwards values values
  | callable callable =>
    obtain rfl := Option.some.inj hact
    exact hhost callable values
  | _ => cases hact

/-! ### Expressions -/

theorem evalSequence (trees : List Tree) : Supplies (fun _ => True) (evalSequence eval trees) := by
  induction trees with
  | nil => exact .pure trivial
  | cons tree rest ih => exact (heval tree).andThen ih

theorem evalArguments (trees : List Tree) :
    Supplies (fun values => ∀ value ∈ values, value ≠ .nothing) (evalArguments eval trees) := by
  induction trees with
  | nil => exact .pure fun value hvalue => absurd hvalue List.not_mem_nil
  | cons tree rest ih =>
    refine (heval tree).bind fun first _ => ih.bind fun others hothers => .pure ?_
    exact List.forall_mem_cons.2 ⟨first.orUndefined_ne, hothers⟩

omit heval in
/-- An operator that takes its operands gives a value. -/
theorem combine (operator : Operator) (left right : Value) :
    Supplies (· ≠ .nothing) (combine engine operator left right) := by
  have hoperands : Supplies (· ≠ .nothing)
      (Evaluation.peek (·.world.store) >>= fun store => Eval.fail engine (.operandTypes operator.text
        (store.typeName left) (store.typeName right)) : Eval Value) :=
    (peek _).bind fun _ _ => .fail trivial
  unfold Evaluation.combine
  split
  · exact .pure fun h => nomatch h
  · exact .pure fun h => nomatch h
  · exact .pure fun h => nomatch h
  · exact hoperands
  · exact hoperands
  · exact .fail trivial

theorem evalAdditive (operator : Operator) (left right : Tree) :
    Supplies (Tree.additive operator left right).Fits
      (evalAdditive engine eval operator left right) := by
  refine (heval left).bind fun lhs hleft => (heval right).bind fun rhs hright => ?_
  split
  · next hnothing =>
    refine .pure fun hexpression => ⟨fun _ => ?_, fun _ => rfl⟩
    rw [Tree.isVoid, Bool.or_eq_true]
    exact hnothing.imp (hleft hexpression.1).1 (hright hexpression.2).1
  · next hpresent =>
    refine (combine operator lhs rhs).mono fun value hvalue hexpression => ?_
    have hvoid : (Tree.additive operator left right).isVoid ≠ true := by
      rw [Tree.isVoid, ne_eq, Bool.or_eq_true]
      exact fun h => hpresent (h.imp (hleft hexpression.1).2 (hright hexpression.2).2)
    exact ⟨fun h => absurd h hvalue, fun h => absurd h hvoid⟩

/-- An assignment to a property, of an object that is there. -/
theorem evalAssignment_member (operator : Operator) (object property right : Tree) :
    Supplies (Tree.assignment operator (.member object property) right).Fits
      (evalAssignment engine eval (.member object property) right) := by
  have hvoid : (Tree.assignment operator (.member object property) right).isVoid =
      (object.isVoid || !property.isIdentifier || right.isVoid) := rfl
  refine (heval object).bind fun target htarget => (heval right).bind fun value hvalue => ?_
  split
  · next hnothing =>
    refine .pure fun hexpression => ⟨fun _ => ?_, fun _ => rfl⟩
    have hside := hnothing.imp (htarget hexpression.1.1).1 (hvalue hexpression.2).1
    rw [hvoid]
    rcases hside with hside | hside <;> simp [hside]
  · next hpresent =>
    split
    · next name =>
      refine (writeProperty engine target name value).andThen (.pure fun hexpression => ?_)
      have hobject := mt (htarget hexpression.1.1).2 fun h => hpresent (.inl h)
      have hright := mt (hvalue hexpression.2).2 fun h => hpresent (.inr h)
      have hproperty : (Tree.identifier name).isIdentifier = true := rfl
      simp [hvoid, hobject, hright, hproperty, show value ≠ .nothing from fun h => hpresent (.inr h)]
    · next hproperty =>
      refine .pure fun _ => ⟨fun _ => ?_, fun _ => rfl⟩
      simp [hvoid, Tree.isIdentifier_of_ne hproperty]

/-- Any other assignment. Only a name can be assigned to. -/
theorem evalAssignment (operator : Operator) (left right : Tree) :
    Supplies (Tree.assignment operator left right).Fits (evalAssignment engine eval left right) := by
  cases left with
  | member object property => exact evalAssignment_member heval operator object property right
  | hole =>
    refine (heval right).bind fun value _ => ?_
    split
    · exact .pure fun _ => ⟨fun _ => rfl, fun _ => rfl⟩
    · exact .pure fun _ => ⟨fun _ => rfl, fun _ => rfl⟩
  | identifier name =>
    refine (heval right).bind fun value hvalue => ?_
    split
    · next hnothing => exact .pure fun hexpression => hnothing ▸ hvalue hexpression.2
    · next hpresent =>
      exact (assign name hpresent).andThen (.pure fun hexpression => hvalue hexpression.2)
  | _ =>
    refine (heval right).bind fun value hvalue => ?_
    split
    · next hnothing => exact .pure fun hexpression => hnothing ▸ hvalue hexpression.2
    · exact (describe _).bind fun _ _ => .fail trivial

theorem evalMember (object property : Tree) :
    Supplies (Tree.member object property).Fits (layer engine eval (.member object property)) := by
  have hvoid : (Tree.member object property).isVoid =
      (object.isVoid || !property.isIdentifier) := rfl
  refine (heval object).bind fun target htarget => ?_
  split
  · next hnothing =>
    refine .pure fun hexpression => ⟨fun _ => ?_, fun _ => rfl⟩
    simp [hvoid, (htarget hexpression.1).1 hnothing]
  · next hpresent =>
    split
    · next name =>
      refine (readProperty engine target name).mono fun value hvalue hexpression => ?_
      have hobject := mt (htarget hexpression.1).2 hpresent
      have hproperty : (Tree.identifier name).isIdentifier = true := rfl
      simp [hvoid, hobject, hproperty, hvalue]
    · next hproperty =>
      refine .pure fun _ => ⟨fun _ => ?_, fun _ => rfl⟩
      simp [hvoid, Tree.isIdentifier_of_ne hproperty]

theorem resolveCallee {callee : Tree} : Supplies callee.Fits (resolveCallee engine eval callee) := by
  cases callee with
  | identifier name =>
    rw [resolveCallee_name]
    refine (lookup engine _).mono fun value hvalue _ => ?_
    exact ⟨fun h => absurd h hvalue, fun h => nomatch h⟩
  | _ => exact heval _

/-- A call has a value unless there is nothing to be called. -/
theorem evalCall (hhost : engine.host.Forwards) (callee : Tree) (arguments : List Tree) :
    Supplies (Tree.call callee arguments).Fits (evalCall engine eval callee arguments) := by
  have hvoid : (Tree.call callee arguments).isVoid = callee.isVoid := rfl
  unfold Evaluation.evalCall
  split
  · next hhole =>
    cases callee with
    | hole => exact .pure fun _ => ⟨fun _ => rfl, fun _ => rfl⟩
    | _ => cases hhole
  · refine (resolveCallee heval).bind fun function hfunction => ?_
    split
    · next hnothing =>
      exact .pure fun hexpression =>
        ⟨fun _ => (hfunction hexpression.1).1 hnothing, fun _ => rfl⟩
    · next hpresent =>
      have hfits : ∀ value : Value, value ≠ .nothing → (Tree.call callee arguments).Fits value := by
        intro value hvalue hexpression
        have hcallee := mt (hfunction hexpression.1).2 hpresent
        exact ⟨fun h => absurd h hvalue, fun h => absurd h hcallee⟩
      refine (evalArguments heval arguments).bind fun values hvalues => ?_
      split
      · exact (callFunction heval _ hvalues).mono hfits
      · split
        · next act hact => exact (callHost heval hvalues (actOf hhost hact) callee).mono hfits
        · exact (describe callee).bind fun _ _ => .fail trivial

/-! ### Trees -/

/-- **One layer.** If operands have a value exactly where they should, then so does the tree. -/
theorem layer (hhost : engine.host.Forwards) (tree : Tree) :
    Supplies tree.Fits (layer engine eval tree) := by
  -- what is no expression may have any value
  have hany : ∀ {x : Eval Value}, ¬ tree.IsExpression → Supplies (fun _ => True) x →
      Supplies tree.Fits x := fun hno hx => hx.mono fun _ _ hexpression => absurd hexpression hno
  cases tree with
  | hole => exact .pure fun _ => ⟨fun _ => rfl, fun _ => rfl⟩
  | number value => exact .pure fun _ => ⟨(nomatch ·), (nomatch ·)⟩
  | string text => exact .pure fun _ => ⟨(nomatch ·), (nomatch ·)⟩
  | identifier name =>
    show Supplies _ (Evaluation.lookup engine name)
    rw [lookup_eq]
    refine (lookup engine _).mono fun value hvalue _ => ?_
    exact ⟨fun h => absurd h hvalue, fun h => nomatch h⟩
  | additive operator left right => exact evalAdditive heval operator left right
  | assignment operator left right => exact evalAssignment heval operator left right
  | member object property => exact evalMember heval object property
  | call callee arguments => exact evalCall heval hhost callee arguments
  | expressionStatement expression => exact hany id ((heval expression).mono fun _ _ => trivial)
  | declaration declarators =>
    exact hany id ((evalSequence heval declarators).andThen (.pure trivial))
  | declarator target init =>
    refine hany id ((heval init).bind fun value _ => ?_)
    split
    · exact (declare _ value.orUndefined_ne).andThen (.pure trivial)
    · exact .pure trivial
  | block body =>
    exact hany id ((hoist body).andThen ((evalSequence heval body).andThen (.pure trivial)))
  | returnStatement argument =>
    exact hany id ((heval argument).bind fun value _ => .giveBack value.orUndefined_ne)
  | function name params body =>
    refine hany id ?_
    cases name with
    | identifier name =>
      rw [layer_function]
      refine (peek _).bind fun declared _ => ?_
      split
      · exact (declareClosure name params body).andThen (.pure trivial)
      · exact .pure trivial
    | _ => exact .pure trivial
  | program body => exact .fail trivial

end

/-! ### Evaluation to any depth -/

section

variable {engine : Engine} (hhost : engine.host.Forwards)
include hhost

theorem evalAt (room : Nat) (tree : Tree) : Supplies tree.Fits (evalAt engine room tree) := by
  -- the induction is on the levels that are left
  induction room generalizing tree with
  | zero =>
    by_cases hole : tree = .hole
    · subst hole
      exact .pure fun _ => ⟨fun _ => rfl, fun _ => rfl⟩
    · rw [evalAt_zero engine hole]
      exact (Tracks.countStep blind_present engine fun _ => trivial).andThen (.fail trivial)
  | succ room ih =>
    by_cases hole : tree = .hole
    · subst hole
      exact .pure fun _ => ⟨fun _ => rfl, fun _ => rfl⟩
    · rw [evalAt_succ engine room hole]
      have hlayer := (layer ih hhost tree).deeper blind_present
      exact (Tracks.countStep blind_present engine fun _ => trivial).andThen hlayer

theorem eval (tree : Tree) : Supplies tree.Fits (eval engine tree) := by
  have hlevels := Tracks.chosen fun state => evalAt hhost (room state) tree
  exact hlevels

theorem call (closure : Closure) {values : List Value}
    (hvalues : ∀ value ∈ values, value ≠ Value.nothing) :
    Supplies (· ≠ .nothing) (call engine closure values) := by
  have hcall : ∀ levels, Supplies (· ≠ .nothing)
      (Evaluation.callFunction engine (Evaluation.evalAt engine levels) closure values) :=
    fun levels => callFunction (evalAt hhost levels) closure hvalues
  have hlevels := Tracks.chosen fun state => hcall (room state)
  exact hlevels

theorem execute (body : List Tree) : Supplies (fun _ => True) (execute engine body) :=
  (hoist body).andThen ((evalSequence (eval hhost) body).stopAtReturn blind_present)

end

end Supplies

/-- **Whether an expression has a value is decided by its text alone.** Take any state in which no
variable is bound to the absent value, and any host whose callables call functions with what they
have received, or with other values that are there: if an expression comes to a value, the value is
absent exactly if the expression is void. Every evaluation keeps all variables present, however it
ends, as do all calls with values that are there and all programs. -/
theorem value_absent_iff_void {engine : Engine} (hhost : engine.host.Forwards) {state : State}
    (hstate : state.Present) :
    (∀ tree : Tree, tree.IsExpression → ∀ value after, eval engine tree state = .ok value after →
      (value = .nothing ↔ tree.isVoid = true)) ∧
    (∀ tree, (final (eval engine tree state)).Present) ∧
    (∀ closure values, (∀ value ∈ values, value ≠ .nothing) →
      (final (call engine closure values state)).Present) ∧
    ∀ body, (final (execute engine body state)).Present := by
  refine ⟨fun tree hexpression value after h => ?_, fun tree => ?_, fun closure values hvalues => ?_,
    fun body => ?_⟩
  · have hvalue := (Supplies.eval hhost tree state hstate).confined
    rw [h] at hvalue
    cases hvalue with
    | value hfits _ => exact hfits hexpression
  · exact (Supplies.eval hhost tree state hstate).confined.last
  · exact (Supplies.call hhost closure hvalues state hstate).confined.last
  · exact (Supplies.execute hhost body state hstate).confined.last

/-- The answer of `quiet` is absent, and so is the property that it is called with. -/
theorem value_absent_iff_void_quiet :
    let engine : Engine := ⟨none, .standard, .ofStock #[.const (.plain .nothing), .invoke]⟩
    let page : Namespace := ⟨"page", .ofList [("gap", .nothing)], true, false⟩
    let state := State.initial [("quiet", .callable ⟨"const", 0⟩), ("page", .object 0)]
      (.ofStore ⟨#[page]⟩)
    let tree := Tree.assignment .assign (.identifier "x")
      (.call (.identifier "quiet") [.member (.identifier "page") (.identifier "gap")])
    ∃ after, eval engine tree state = .ok .undefined after ∧ after.Present ∧
      (Value.undefined = .nothing ↔ tree.isVoid = true) := by
  intro engine page state tree
  have hstate : state.Present := by
    refine ⟨.ofList fun entry hentry => ?_, fun frame hframe => absurd hframe List.not_mem_nil⟩
    simp only [List.mem_cons, List.not_mem_nil, or_false] at hentry
    rcases hentry with rfl | rfl <;> exact (nomatch ·)
  have hexpression : tree.IsExpression := ⟨trivial, trivial, ⟨trivial, trivial⟩, trivial⟩
  have hhost : engine.host.Forwards := Host.ofStock_forwards _
  obtain ⟨hvalue, hfinal, -⟩ := value_absent_iff_void hhost hstate
  obtain ⟨after, heval⟩ : ∃ after, eval engine tree state = .ok .undefined after := ⟨_, by cbv⟩
  have hpresent := hfinal tree
  rw [heval] at hpresent
  exact ⟨after, heval, hpresent, hvalue tree hexpression _ _ heval⟩

end Evaluation

end PageScript
