import PageScript.Proofs.Evaluation.Contract
import PageScript.Proofs.Evaluation.Holdings
import PageScript.Proofs.Evaluation.Observation

/-!
# Where things come from

Whatever turns up in a run has come from somewhere: a tree from the program or from the body of a
function that is held somewhere, a value from a tree, from the state or from the host, a fault from
an operation or from the host. So if certain trees, values and faults are all that each single
operation brings forth from its like, then they are all that a run comes upon.

* `Provenance` — trees, values and faults that are closed under the operations;
* `Provenance.Follows` — two evaluations that end alike, within what the provenance allows;
* `Follows.perform`, `Follows.callHost` — the acts of the host;
* `Follows.layer` — one layer over evaluations that end alike;
* `Follows.observedExecute` — a program under an observer who speaks only of what does not come up;
* `Follows.evalAt`, `Follows.execute` — evaluations and programs stay within the provenance.

There are two evaluations for the sake of observers: one is watched, the other is not, and the two
end alike so long as the observer has nothing to say about the trees and states of the provenance.
-/

namespace PageScript

/-- A failure that any operation may meet. The others are told apart by the trees that meet them. -/
def ExecutionCause.isOrdinary : ExecutionCause → Bool
  | .unknownOperation _ | .invalidAssignment _ => false
  | _ => true

/-- A tree that can be assigned to, or a hole in the place of one. -/
def Tree.isPlace : Tree → Bool
  | .hole | .identifier _ | .member .. => true
  | _ => false

theorem Tree.isPlace_eq_false {tree : Tree}
    (hmember : ∀ object property, tree = .member object property → False)
    (hhole : tree = .hole → False) (hname : ∀ name, tree = .identifier name → False) :
    tree.isPlace = false := by
  cases tree with
  | hole => exact absurd rfl hhole
  | identifier name => exact absurd rfl (hname name)
  | member object property => exact absurd rfl (hmember object property)
  | _ => rfl

namespace Store

variable {store : Store} {name : String} {target : Value} {refusal : Refusal}

theorem read_refusal_isOrdinary (h : store.read name target = some (.error refusal)) :
    refusal.cause.isOrdinary = true := by
  obtain ⟨⟨owner, hcause⟩, -⟩ := read_refusal h
  rw [hcause]
  rfl

theorem write_refusal_isOrdinary {value : Value}
    (h : store.write name value target = some (.error refusal)) :
    refusal.cause.isOrdinary = true := by
  obtain ⟨⟨owner, hcause⟩, -⟩ := write_refusal h
  rw [hcause]
  rfl

/-- A value that cannot be written to is no object. -/
theorem isObject_of_write_eq_none {value : Value} (h : store.write name value target = none) :
    target.isObject = false := by
  cases target with
  | object id =>
    unfold Store.write at h
    dsimp only at h
    split at h <;> cases h
  | bare => cases h
  | foreign owner file => cases h
  | _ => rfl

end Store

namespace Evaluation

open Eval

/-- Trees, values and faults that the operations of a run do not lead out of. -/
structure Provenance (engine : Engine) where
  tree : Tree → Prop
  value : Value → Prop
  fault : Fault → Prop
  /-- The faults that a callable of the host may end with. -/
  raised : Fault → Prop
  /-- The evaluations of operands that are taken into account. -/
  evaluator : (Tree → Eval Value) → Prop
  operand : ∀ {whole part}, tree whole → part ∈ whole.operands → tree part
  function : ∀ {name params body}, tree (.function (.identifier name) params body) →
    value (.function ⟨name, params.map paramName, body⟩)
  body : ∀ {closure}, value (.function closure) → tree closure.body
  word : ∀ n, value (.number (wrap n))
  plain : ∀ v : Value, v.IsPlain → value v
  ordinary : ∀ {cause}, cause.isOrdinary = true → fault (.script (.execution cause engine.file))
  /-- An access that an object refuses in the name of its own file, if it has one. -/
  foreign : ∀ {cause owner file}, cause.isOrdinary = true → value (.foreign owner file) →
    fault (.script (.execution cause (file.or engine.file)))
  unknown : ∀ {operator left right}, tree (.additive operator left right) → operator ≠ .add →
    operator ≠ .sub → fault (.script (.execution (.unknownOperation operator.text) engine.file))
  program : ∀ {trees}, tree (.program trees) →
    fault (.script (.execution (.unknownOperation "Program") engine.file))
  /-- An assignment to what is no place. -/
  misplaced : ∀ {eval operator left right v state after text}, evaluator eval →
    tree (.assignment operator left right) → left.isPlace = false →
    eval right state = .ok v after → v ≠ .nothing → left.describe? = some text →
    fault (.script (.execution (.invalidAssignment text) engine.file))
  /-- An assignment to a property of what is no object. -/
  disowned : ∀ {eval operator object name right target v state middle after text},
    evaluator eval → tree (.assignment operator (.member object (.identifier name)) right) →
    eval object state = .ok target middle → eval right middle = .ok v after →
    target ≠ .nothing → v ≠ .nothing → target.isObject = false →
    after.world.store.text? target = some text →
    fault (.script (.execution (.invalidAssignment (text ++ "." ++ name)) engine.file))
  /-- A value, or one of two trees, that is too long to be written into a message. -/
  overlong : ∀ {store : Store} {v : Value}, value v → store.text? v = none →
    fault (.host .numberTooLong)
  overlongCallee : ∀ {callee arguments}, tree (.call callee arguments) →
    callee.describe? = none → fault (.host .numberTooLong)
  overlongTarget : ∀ {operator left right}, tree (.assignment operator left right) →
    left.describe? = none → fault (.host .numberTooLong)
  /-- A callable is handed the faults of the functions that it calls. -/
  handed : ∀ {f}, fault f → raised f
  /-- Of what a callable raises, failures of the script and fatal faults get past its call. -/
  relayed : ∀ {failure}, raised (.script failure) → fault (.script failure)
  fatal : ∀ {f : HostFault}, raised (.host f) → f.isFatal = true → fault (.host f)
  tooLong : raised (.host .numberTooLong)
  host : ∀ callable {values : List Value}, (∀ v ∈ values, value v) →
    (engine.host callable values).Honours value raised

namespace Provenance

variable {engine : Engine} (P : Provenance engine) {α : Type}

theorem undefined : P.value .undefined :=
  P.plain _ ⟨fun _ => Value.noConfusion, fun _ => Value.noConfusion, fun _ _ => Value.noConfusion⟩

theorem nothing : P.value .nothing :=
  P.plain _ ⟨fun _ => Value.noConfusion, fun _ => Value.noConfusion, fun _ _ => Value.noConfusion⟩

theorem string (text : String) : P.value (.string text) :=
  P.plain _ ⟨fun _ => Value.noConfusion, fun _ => Value.noConfusion, fun _ _ => Value.noConfusion⟩

theorem orUndefined {value : Value} (h : P.value value) : P.value value.orUndefined := by
  cases value with
  | nothing => exact P.undefined
  | _ => exact h

/-- A refused access fails within the provenance. -/
theorem refused {target : Value} (htarget : P.value target) {refusal : Refusal}
    (hcause : refusal.cause.isOrdinary = true)
    (hfile : refusal.file = none ∨ ∃ owner, target = .foreign owner refusal.file) :
    P.fault (.script (refusal.inFile engine.file).failure) := by
  obtain ⟨cause, file⟩ := refusal
  rcases hfile with rfl | ⟨owner, rfl⟩
  · exact P.ordinary hcause
  · exact P.foreign hcause htarget

/-- From states that hold values of the provenance only, two evaluations end alike, in such states
and within the provenance. -/
abbrev Follows (faults : Fault → Prop) (p : α → Prop) (x y : Eval α) : Prop :=
  Tracks (State.Holds P.value) P.value faults p x y

/-- From a state, two evaluations end alike, in a state that holds values of the provenance only, and
within the provenance. -/
abbrev FollowsFrom (faults : Fault → Prop) (p : α → Prop) (x y : Eval α) (state : State) : Prop :=
  TracksFrom (State.Holds P.value) P.value faults p x y state

theorem blind : Blind (State.Holds P.value) := by
  intro state state' hscope hworld hstate
  exact ⟨hscope ▸ hstate.scope, hworld ▸ hstate.world⟩

namespace Follows

variable {P} {faults : Fault → Prop} {p : α → Prop}

/-! ### Single steps -/

theorem store :
    P.Follows faults (Store.Holds P.value) (peek (·.world.store)) (peek (·.world.store)) :=
  .peek fun _ hstate => hstate.world.store

theorem world : P.Follows faults (World.Holds P.value) (peek (·.world)) (peek (·.world)) :=
  .peek fun _ hstate => hstate.world

theorem modifyScope {change : Scope → Scope}
    (h : ∀ scope : Scope, scope.Every (Frame.Holds P.value) →
      (change scope).Every (Frame.Holds P.value)) :
    P.Follows faults (fun _ => True) (modifyScope change) (modifyScope change) :=
  .modify fun state hstate => ⟨h state.scope hstate.scope, hstate.world⟩

theorem modifyWorld {change : World → World}
    (h : ∀ world : World, world.Holds P.value → (change world).Holds P.value) :
    P.Follows faults (fun _ => True) (modifyWorld change) (modifyWorld change) :=
  .modify fun state hstate => ⟨hstate.scope, h state.world hstate.world⟩

theorem declareClosure {name : String} {params : List Tree} {body : Tree}
    (h : P.tree (.function (.identifier name) params body)) :
    P.Follows faults (fun _ => True) (declareFunction name params body)
      (declareFunction name params body) := by
  have hclosure := P.function h
  have hdeclare : P.Follows faults (fun _ => True)
      (Eval.modifyScope (·.declareFunction ⟨name, params.map paramName, body⟩))
      (Eval.modifyScope (·.declareFunction ⟨name, params.map paramName, body⟩)) :=
    modifyScope fun _ hscope => hscope.modifyActive fun _ hframe => hframe.declareFunction hclosure
  exact hdeclare.andThen (.note P.blind _)

theorem hoist {body : List Tree} (h : ∀ tree ∈ body, P.tree tree) :
    P.Follows faults (fun _ => True) (hoist body) (hoist body) := by
  -- the induction follows the three ways in which a body can start
  induction body using hoist.induct with
  | case1 => exact .pure trivial
  | case2 name params body rest ih =>
    obtain ⟨hfunction, hrest⟩ := List.forall_mem_cons.1 h
    exact (declareClosure hfunction).andThen (ih hrest)
  | case3 tree rest hne ih =>
    rw [Evaluation.hoist]
    · exact ih (List.forall_mem_cons.1 h).2
    · exact hne

theorem lookup {name : String} {cause : ExecutionCause} (hcause : cause.isOrdinary = true) :
    Upholds (State.Holds P.value) P.value P.fault P.value (peek (·.scope.lookup? name) >>= fun
      | some value => Pure.pure value
      | none => fail engine cause) :=
  Tracks.lookup (fun _ _ hstate => hstate.scope.lookup fun hframe => hframe.get)
    (.fail (P.ordinary hcause))

theorem textOf {value : Value} (h : P.value value) {state : State}
    (hstate : state.Holds P.value) :
    P.FollowsFrom P.fault (fun text => state.world.store.text? value = some text) (textOf value)
      (textOf value) state := by
  rw [textOf_eq]
  refine .look ?_
  split
  · next text htext => exact ⟨rfl, .value htext hstate⟩
  · next hnone => exact Tracks.refuse (P.overlong h hnone) state hstate

theorem describe {tree : Tree} (h : tree.describe? = none → P.fault (.host .numberTooLong)) :
    P.Follows P.fault (fun text => tree.describe? = some text) (describe tree) (describe tree) := by
  unfold Evaluation.describe
  split
  · next text htext => exact .pure htext
  · next hnone => exact .refuse (h hnone)

theorem readProperty {target : Value} (h : P.value target) (name : String) :
    P.Follows P.fault P.value (readProperty engine target name)
      (readProperty engine target name) := by
  intro state hstate
  rw [readProperty_eq]
  refine .look ?_
  split
  · next hread =>
    exact Tracks.pure (P.orUndefined (hstate.world.store.read hread)) state hstate
  · next hrefused =>
    have hfault := P.refused h (Store.read_refusal_isOrdinary hrefused)
      (Store.read_refusal hrefused).2
    exact Tracks.refuse hfault state hstate
  · exact (textOf h hstate).bind fun _ after _ _ hafter =>
      Tracks.fail (P.ordinary rfl) after hafter

theorem writeProperty {target value : Value} (htarget : P.value target) (hvalue : P.value value)
    {name : String} {state : State} (hstate : state.Holds P.value)
    (hdisowned : ∀ text, target.isObject = false → state.world.store.text? target = some text →
      P.fault (.script (.execution (.invalidAssignment (text ++ "." ++ name)) engine.file))) :
    P.FollowsFrom P.fault (fun _ => True) (writeProperty engine target name value)
      (writeProperty engine target name value) state := by
  rw [writeProperty_eq]
  refine .look ?_
  split
  · next written hwrite =>
    have hstore := hstate.world.store.write hvalue hwrite
    exact ⟨rfl, .value trivial ⟨hstate.scope, hstore, hstate.world.calls⟩⟩
  · next refusal hrefused =>
    have hfault := P.refused htarget (Store.write_refusal_isOrdinary hrefused)
      (Store.write_refusal hrefused).2
    exact Tracks.refuse hfault state hstate
  · next hnone =>
    have hobject := Store.isObject_of_write_eq_none hnone
    exact (textOf htarget hstate).bind fun text after _ htext hafter =>
      Tracks.fail (hdisowned text hobject htext) after hafter

/-! ### Calls -/

theorem bindParams {params : List (Option String)} {values : List Value} {frame : Frame}
    (hvalues : ∀ value ∈ values, P.value value) (hframe : frame.Holds P.value) :
    (bindParams params values frame).Holds P.value :=
  bindParams_of_declare (fun _ name _ h hvalue => h.declare name hvalue) P.undefined hvalues hframe

section

variable {eval eval' : Tree → Eval Value}
  (heval : ∀ tree, P.tree tree → P.Follows P.fault P.value (eval tree) (eval' tree))

include heval in
theorem callFunction {closure : Closure} (h : P.value (.function closure)) {values : List Value}
    (hvalues : ∀ value ∈ values, P.value value) :
    P.Follows P.fault P.value (callFunction engine eval closure values)
      (callFunction engine eval' closure values) := by
  refine Tracks.callFunction P.blind (fun _ hstate => ?_) (fun _ hstate => ?_)
    (fun _ => P.ordinary rfl) (heval closure.body (P.body h)) P.undefined
  · exact ⟨hstate.scope.enter (bindParams hvalues .vacant), hstate.world⟩
  · exact ⟨hstate.scope.leave, hstate.world⟩

/-- **A callable stays within the provenance** if the functions do that it calls. -/
theorem perform {call call' : Closure → List Value → Eval Value}
    (hcall : ∀ closure values, P.value (.function closure) → (∀ value ∈ values, P.value value) →
      P.Follows P.fault P.value (call closure values) (call' closure values))
    {act : Act} (h : act.Honours P.value P.raised) :
    P.Follows P.raised P.value (perform call act) (perform call' act) := by
  -- an act is a tree of steps: what holds behind every answer holds in front of the step
  induction act with
  | done value => exact .pure h
  | fail fault => exact .refuse h
  | look next ih =>
    rw [perform_look, perform_look]
    exact world.bind fun world hworld => ih world (h world hworld)
  | print text next ih =>
    have hprint : P.Follows P.raised (fun _ => True) (Eval.modifyWorld (·.print text))
        (Eval.modifyWorld (·.print text)) :=
      modifyWorld fun _ hworld => ⟨hworld.store, hworld.calls⟩
    exact hprint.andThen (ih h)
  | record name values next ih =>
    have hrecord : P.Follows P.raised (fun _ => True) (Eval.modifyWorld (·.record name values))
        (Eval.modifyWorld (·.record name values)) := by
      refine modifyWorld fun _ hworld => ⟨hworld.store, fun call hmem => ?_⟩
      rcases Array.mem_push.1 hmem with hold | rfl
      · exact hworld.calls call hold
      · exact h.1
    exact hrecord.andThen (ih h.2)
  | build blueprint next ih =>
    rw [perform_build, perform_build]
    refine world.bind fun world hworld => ?_
    obtain ⟨hvalue, hstore⟩ := h.1.build P.plain hworld.store
    have hbuild : P.Follows P.raised (fun _ => True)
        (Eval.modifyWorld ({ · with store := (blueprint.build world.store).2 }))
        (Eval.modifyWorld ({ · with store := (blueprint.build world.store).2 })) :=
      modifyWorld fun _ hafter => ⟨hstore, hafter.calls⟩
    exact hbuild.andThen (ih _ (h.2 _ hvalue))
  | put id name value next ih =>
    have hput : P.Follows P.raised (fun _ => True)
        (Eval.modifyWorld fun world => { world with store := world.store.put id name value })
        (Eval.modifyWorld fun world => { world with store := world.store.put id name value }) :=
      modifyWorld fun _ hworld => ⟨hworld.store.put id name h.1, hworld.calls⟩
    exact hput.andThen (ih h.2)
  | invoke closure values next ih =>
    obtain ⟨hclosure, hvalues, hnext⟩ := h
    have hanswer : P.Follows P.raised (Answered P.value P.raised) (attempt (call closure values))
        (attempt (call' closure values)) :=
      (hcall closure values hclosure hvalues).attempt (fun _ h => h) fun _ h => P.handed h
    exact hanswer.bind fun answer hanswer => ih answer (hnext answer hanswer)

include heval in
/-- **A fault of a callable becomes a failure of the script**, which names what was called. -/
theorem callHost {callee : Tree} {arguments : List Tree} (h : P.tree (.call callee arguments))
    {act : Act} (hact : act.Honours P.value P.raised) :
    P.Follows P.fault P.value (callHost engine eval callee act)
      (callHost engine eval' callee act) := by
  have hperform : P.Follows P.raised P.value
      (Evaluation.perform (Evaluation.callFunction engine eval) act)
      (Evaluation.perform (Evaluation.callFunction engine eval') act) :=
    perform (fun _ _ hclosure hvalues => callFunction heval hclosure hvalues) hact
  have hattempt : P.Follows P.fault (Answered P.value P.raised)
      (attempt (Evaluation.perform (Evaluation.callFunction engine eval) act))
      (attempt (Evaluation.perform (Evaluation.callFunction engine eval') act)) :=
    hperform.attempt (fun _ h => h) fun _ h => h
  refine hattempt.bind fun answer hanswer => ?_
  split
  · exact .pure (P.orUndefined hanswer)
  · exact .refuse (P.relayed hanswer)
  · split
    · next hfatal => exact .refuse (P.fatal hanswer hfatal)
    · exact (describe (P.overlongCallee h)).bind fun _ _ => .fail (P.ordinary rfl)

theorem actOf {function : Value} {values : List Value} (hvalues : ∀ value ∈ values, P.value value)
    {act : Act} (hact : actOf? engine function values = some act) :
    act.Honours P.value P.raised := by
  cases function with
  | logger id =>
    obtain rfl := Option.some.inj hact
    exact Act.log_honours P.nothing P.tooLong values
  | callable callable =>
    obtain rfl := Option.some.inj hact
    exact P.host callable hvalues
  | _ => cases hact

/-! ### Trees -/

include heval in
theorem evalSequence {trees : List Tree} (h : ∀ tree ∈ trees, P.tree tree) :
    P.Follows P.fault (fun _ => True) (evalSequence eval trees) (evalSequence eval' trees) := by
  induction trees with
  | nil => exact .pure trivial
  | cons tree rest ih =>
    obtain ⟨htree, hrest⟩ := List.forall_mem_cons.1 h
    exact (heval tree htree).andThen (ih hrest)

include heval in
theorem evalArguments {trees : List Tree} (h : ∀ tree ∈ trees, P.tree tree) :
    P.Follows P.fault (fun values => ∀ value ∈ values, P.value value) (evalArguments eval trees)
      (evalArguments eval' trees) := by
  induction trees with
  | nil => exact .pure fun value hvalue => absurd hvalue List.not_mem_nil
  | cons tree rest ih =>
    obtain ⟨htree, hrest⟩ := List.forall_mem_cons.1 h
    refine (heval tree htree).bind fun first hfirst => (ih hrest).bind fun others hothers => ?_
    exact .pure (List.forall_mem_cons.2 ⟨P.orUndefined hfirst, hothers⟩)

theorem combine {operator : Operator} {left right : Tree}
    (h : P.tree (.additive operator left right)) (lhs rhs : Value) :
    P.Follows P.fault P.value (combine engine operator lhs rhs)
      (combine engine operator lhs rhs) := by
  have hoperands : ∀ operator : Operator, P.Follows P.fault P.value
      (peek (·.world.store) >>= fun store => Eval.fail engine (.operandTypes operator.text
        (store.typeName lhs) (store.typeName rhs)))
      (peek (·.world.store) >>= fun store => Eval.fail engine (.operandTypes operator.text
        (store.typeName lhs) (store.typeName rhs))) := fun operator =>
    store.bind fun _ _ => .fail (P.ordinary rfl)
  unfold Evaluation.combine
  split
  · exact .pure (P.word _)
  · exact .pure (P.string _)
  · exact .pure (P.word _)
  · exact hoperands .add
  · exact hoperands .sub
  · next hadd hsub _ _ _ => exact .fail (P.unknown h hadd hsub)

include heval in
theorem evalAdditive {operator : Operator} {left right : Tree}
    (h : P.tree (.additive operator left right)) :
    P.Follows P.fault P.value (evalAdditive engine eval operator left right)
      (evalAdditive engine eval' operator left right) := by
  have hleft := heval left (P.operand h (List.mem_cons_self ..))
  have hright := heval right (P.operand h (List.mem_cons_of_mem _ (List.mem_cons_self ..)))
  refine hleft.bind fun lhs _ => hright.bind fun rhs _ => ?_
  split
  · exact .pure P.nothing
  · exact combine h lhs rhs

include heval in
/-- **An assignment** fails at a place or at a property only, and only with both values at hand. -/
theorem evalAssignment (hevaluator : P.evaluator eval') {operator : Operator} {left right : Tree}
    (h : P.tree (.assignment operator left right)) :
    P.Follows P.fault P.value (evalAssignment engine eval left right)
      (evalAssignment engine eval' left right) := by
  have hright := heval right (P.operand h (by cases left <;> simp [Tree.operands]))
  intro state hstate
  unfold Evaluation.evalAssignment
  split
  · next object property =>
    have hobject := heval object (P.operand h (List.mem_cons_self ..))
    refine (hobject state hstate).bind fun target middle hfirst htarget hmiddle =>
      (hright middle hmiddle).bind fun value after hsecond hvalue hafter => ?_
    split
    · exact Tracks.pure P.nothing after hafter
    · next hboth =>
      obtain ⟨hsome, hsome'⟩ := not_or.1 hboth
      split
      · next name =>
        have hwrite := writeProperty htarget hvalue hafter fun text hobject htext =>
          P.disowned hevaluator h hfirst hsecond hsome hsome' hobject htext
        exact hwrite.bind fun _ last _ _ hlast => Tracks.pure hvalue last hlast
      · exact Tracks.pure P.nothing after hafter
  · next hmember =>
    refine (hright state hstate).bind fun value after hdone hvalue hafter => ?_
    split
    · exact Tracks.pure P.nothing after hafter
    · next hsome =>
      split
      · exact Tracks.pure P.nothing after hafter
      · next name =>
        have hassign : P.Follows P.fault (fun _ => True) (Eval.modifyScope (·.assign name value))
            (Eval.modifyScope (·.assign name value)) :=
          modifyScope fun _ hscope => hscope.assign fun _ hframe => hframe.declare name hvalue
        exact (hassign.andThen (.pure hvalue)) after hafter
      · next hhole hname =>
        have hplace := Tree.isPlace_eq_false hmember hhole hname
        have hfail : P.Follows P.fault P.value
            (Evaluation.describe left >>= fun text => Eval.fail engine (.invalidAssignment text))
            (Evaluation.describe left >>= fun text => Eval.fail engine (.invalidAssignment text)) :=
          (describe (P.overlongTarget h)).bind fun text htext =>
            .fail (P.misplaced hevaluator h hplace hdone hsome htext)
        exact hfail after hafter

include heval in
theorem resolveCallee {callee : Tree} (h : P.tree callee) :
    P.Follows P.fault P.value (resolveCallee engine eval callee)
      (resolveCallee engine eval' callee) := by
  cases callee with
  | identifier name =>
    rw [resolveCallee_name, resolveCallee_name]
    exact lookup rfl
  | _ => exact heval _ h

include heval in
theorem callValue {callee : Tree} {arguments : List Tree} (h : P.tree (.call callee arguments))
    {function : Value} (hfunction : P.value function) {values : List Value}
    (hvalues : ∀ value ∈ values, P.value value) :
    P.Follows P.fault P.value (callValue engine eval callee function values)
      (callValue engine eval' callee function values) := by
  unfold Evaluation.callValue
  split
  · exact callFunction heval hfunction hvalues
  · split
    · next act hact => exact callHost heval h (actOf hvalues hact)
    · exact (describe (P.overlongCallee h)).bind fun _ _ => .fail (P.ordinary rfl)

include heval in
theorem evalCallWith {callee : Tree} {arguments : List Tree} (h : P.tree (.call callee arguments))
    {go go' : Value → List Value → Eval Value}
    (hgo : ∀ function values, P.value function → (∀ value ∈ values, P.value value) →
      P.Follows P.fault P.value (go function values) (go' function values)) :
    P.Follows P.fault P.value (evalCallWith engine eval callee arguments go)
      (evalCallWith engine eval' callee arguments go') := by
  have hcallee := P.operand h (List.mem_cons_self ..)
  have harguments : ∀ tree ∈ arguments, P.tree tree :=
    fun tree htree => P.operand h (List.mem_cons_of_mem _ htree)
  unfold Evaluation.evalCallWith
  split
  · exact .pure P.nothing
  · refine (resolveCallee heval hcallee).bind fun function hfunction => ?_
    split
    · exact .pure P.nothing
    · exact (evalArguments heval harguments).bind fun values => hgo function values hfunction

include heval in
theorem evalCall {callee : Tree} {arguments : List Tree} (h : P.tree (.call callee arguments)) :
    P.Follows P.fault P.value (evalCall engine eval callee arguments)
      (evalCall engine eval' callee arguments) := by
  rw [evalCall_eq, evalCall_eq]
  exact evalCallWith heval h fun _ _ hfunction hvalues => callValue heval h hfunction hvalues

include heval in
/-- **One layer.** What stays within the provenance beneath a tree stays within it at the tree. -/
theorem layer {tree : Tree} (h : P.tree tree)
    (hevaluator : ∀ operator left right, tree = .assignment operator left right →
      P.evaluator eval') :
    P.Follows P.fault P.value (layer engine eval tree) (layer engine eval' tree) := by
  have hoperands : ∀ operand ∈ tree.operands, P.tree operand := fun _ => P.operand h
  cases tree with
  | hole => exact .pure P.nothing
  | number value => exact .pure (P.word value)
  | string text => exact .pure (P.string text)
  | identifier name =>
    show P.Follows _ _ (Evaluation.lookup engine name) (Evaluation.lookup engine name)
    rw [lookup_eq]
    exact lookup rfl
  | expressionStatement expression => exact heval _ (hoperands _ (List.mem_cons_self ..))
  | additive operator left right => exact evalAdditive heval h
  | assignment operator left right =>
    exact evalAssignment heval (hevaluator operator left right rfl) h
  | member object property =>
    refine (heval _ (hoperands _ (List.mem_cons_self ..))).bind fun target htarget => ?_
    split
    · exact .pure P.nothing
    · split
      · exact readProperty htarget _
      · exact .pure P.nothing
  | declaration declarators => exact (evalSequence heval hoperands).andThen (.pure P.nothing)
  | declarator target init =>
    refine (heval _ (hoperands _ (List.mem_cons_self ..))).bind fun value hvalue => ?_
    split
    · next name =>
      have hdeclare : P.Follows P.fault (fun _ => True)
          (Eval.modifyScope (·.declare name value.orUndefined))
          (Eval.modifyScope (·.declare name value.orUndefined)) :=
        modifyScope fun _ hscope => hscope.modifyActive fun _ hframe =>
          hframe.declare name (P.orUndefined hvalue)
      exact hdeclare.andThen (.pure P.nothing)
    · exact .pure P.nothing
  | block body =>
    exact (hoist hoperands).andThen
      ((evalSequence heval hoperands).andThen (.pure P.nothing))
  | returnStatement argument =>
    exact (heval _ (hoperands _ (List.mem_cons_self ..))).bind fun value hvalue =>
      .giveBack (P.orUndefined hvalue)
  | function name params body =>
    cases name with
    | identifier name =>
      rw [layer_function, layer_function]
      have hdeclared : P.Follows P.fault (fun _ => True)
          (Evaluation.peek (·.scope.active.functions.contains name))
          (Evaluation.peek (·.scope.active.functions.contains name)) :=
        .peek fun _ _ => trivial
      refine hdeclared.bind fun declared _ => ?_
      split
      · exact (declareClosure h).andThen (.pure P.nothing)
      · exact .pure P.nothing
    | _ => exact .pure P.nothing
  | call callee arguments => exact evalCall heval h
  | program body => exact .fail (P.program h)

end

/-! ### Evaluation to any depth -/

section

variable (hevaluator : ∀ room, P.evaluator (Evaluation.evalAt engine room))

theorem countStep : P.Follows P.fault (fun _ => True) (countStep engine) (countStep engine) :=
  Tracks.countStep P.blind engine fun _ => P.ordinary rfl

section

variable {observer : Observer}
  (hsilent : ∀ tree state, P.tree tree → state.Holds P.value → observer tree state = none)

include hsilent in
/-- An observer who says nothing of the trees and states of the provenance is not there. -/
theorem watched {tree : Tree} (h : P.tree tree) {x y : Eval Value}
    (hx : P.Follows faults P.value x y) :
    P.Follows faults P.value (watched observer tree x) y := by
  intro state hstate
  obtain ⟨hsame, hconfined⟩ := hx state hstate
  refine ⟨?_, hconfined⟩
  unfold Evaluation.watched
  rw [hsilent tree state h hstate]
  exact hsame

include hevaluator hsilent

theorem observedAt (room : Nat) (tree : Tree) (h : P.tree tree) :
    P.Follows P.fault P.value (observedAt engine observer room tree)
      (Evaluation.evalAt engine room tree) := by
  -- the induction is on the levels that are left, for all trees
  induction room generalizing tree with
  | zero =>
    by_cases hole : tree = .hole
    · subst hole
      exact .pure P.nothing
    · rw [observedAt_zero engine observer hole, evalAt_zero engine hole]
      exact countStep.andThen (watched hsilent h (.fail (P.ordinary rfl)))
  | succ room ih =>
    by_cases hole : tree = .hole
    · subst hole
      exact .pure P.nothing
    · rw [observedAt_succ engine observer room hole, evalAt_succ engine room hole]
      exact countStep.andThen
        (watched hsilent h ((layer ih h fun _ _ _ _ => hevaluator room).deeper P.blind))

/-- **Nobody is heard who speaks of what the provenance rules out,** and a program fails within the
provenance. -/
theorem observedExecute {body : List Tree} (h : ∀ tree ∈ body, P.tree tree) :
    P.Follows P.fault (fun _ => True) (observedExecute engine observer body)
      (Evaluation.execute engine body) := by
  have heval : ∀ tree, P.tree tree →
      P.Follows P.fault P.value (observed engine observer tree) (Evaluation.eval engine tree) := by
    intro tree htree
    have hlevels := Tracks.chosen fun state =>
      observedAt hevaluator hsilent (room state) tree htree
    exact hlevels
  exact (hoist h).andThen ((evalSequence heval h).stopAtReturn P.blind)

end

include hevaluator

/-- **Evaluations stay within the provenance,** with whatever levels left. -/
theorem evalAt (room : Nat) (tree : Tree) (h : P.tree tree) :
    P.Follows P.fault P.value (Evaluation.evalAt engine room tree)
      (Evaluation.evalAt engine room tree) := by
  have hsilent := observedAt hevaluator (fun _ _ _ _ => rfl : ∀ tree state, P.tree tree →
    state.Holds P.value → Observer.silent tree state = none) room tree h
  rwa [observedAt_silent] at hsilent

/-- **Programs stay within the provenance.** -/
theorem execute {body : List Tree} (h : ∀ tree ∈ body, P.tree tree) :
    P.Follows P.fault (fun _ => True) (Evaluation.execute engine body)
      (Evaluation.execute engine body) := by
  have hsilent := observedExecute hevaluator (fun _ _ _ _ => rfl : ∀ tree state, P.tree tree →
    state.Holds P.value → Observer.silent tree state = none) h
  rwa [observedExecute_silent] at hsilent

end

end Follows

end Provenance

end Evaluation

end PageScript
