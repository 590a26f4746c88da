import PageScript.Proofs.Evaluation.Drift

/-!
# The failures that a run can end with

A failure of the script comes from an operation that cannot be carried out, from one of the bounds
of the run, or from a callable of the host that raises it. Two runs that do the same can be compared
along with it, and only from the states that lie at certain depths.

* `Act.Relays` — an act that raises no failures of the script but those that it is handed;
* `Host.Honest` — a host whose callables raise none of their own;
* `Store.read_refusal`, `Store.write_refusal` — why an access is refused, and in whose name;
* `Fair` — an ending at certain depths, with an allowed failure at most;
* `Alike` — from every state at certain depths, two evaluations do the same and end fairly;
* `Alike.congruence` — whatever a layer does besides evaluating operands and calling functions keeps
  evaluations alike;
* `Alike.deeper`, `Alike.callFunction` — the two brackets change the depths for a time;
* `execute_failure` — a program whose host is honest fails with a failure of its execution.
-/

namespace PageScript

/-- An act that raises no failures of the script but those that it has been handed, before it
started or by a function that it called. -/
def Act.Relays : Act → (handed : Failure → Prop) → Prop
  | .done _, _ => True
  | .fail fault, handed => ∀ failure, fault = .script failure → handed failure
  | .look next, handed => ∀ world, (next world).Relays handed
  | .print _ next, handed | .record _ _ next, handed | .put _ _ _ next, handed => next.Relays handed
  | .build _ next, handed => ∀ value, (next value).Relays handed
  | .invoke _ _ next, handed =>
    ∀ answer, (next answer).Relays fun failure => handed failure ∨ answer = .error (.script failure)

/-- A host whose callables raise no failures of the script themselves. -/
def Host.Honest (host : Host) : Prop :=
  ∀ callable values, (host callable values).Relays fun _ => False

theorem Act.Relays.mono {act : Act} {handed handed' : Failure → Prop} (h : act.Relays handed)
    (himp : ∀ failure, handed failure → handed' failure) : act.Relays handed' := by
  induction act generalizing handed handed' with
  | done value => trivial
  | fail fault => exact fun failure hfault => himp failure (h failure hfault)
  | look next ih => exact fun world => ih world (h world) himp
  | print text next ih => exact ih h himp
  | record name values next ih => exact ih h himp
  | build blueprint next ih => exact fun value => ih value (h value) himp
  | put id name value next ih => exact ih h himp
  | invoke closure values next ih =>
    exact fun answer => ih answer (h answer) fun failure => Or.imp_left (himp failure)

/-- Where all failures may be handed on, no act raises another. -/
theorem Act.relays_all (act : Act) {handed : Failure → Prop} (h : ∀ failure, handed failure) :
    act.Relays handed := by
  induction act generalizing handed with
  | done value => trivial
  | fail fault => exact fun failure _ => h failure
  | look next ih => exact fun world => ih world h
  | print text next ih => exact ih h
  | record name values next ih => exact ih h
  | build blueprint next ih => exact fun value => ih value h
  | put id name value next ih => exact ih h
  | invoke closure values next ih => exact fun answer => ih answer fun failure => .inl (h failure)

theorem Act.log_relays (values : List Value) (handed : Failure → Prop) :
    (Act.log values).Relays handed := by
  intro world
  dsimp only
  split
  · trivial
  · exact fun failure hfault => nomatch hfault

theorem Host.idle_honest : Host.idle.Honest := fun _ _ => trivial

namespace Store

variable {store : Store} {name : String} {target : Value} {refusal : Refusal}

/-- A reading is refused where the property is missing. Only a foreign object does so in the name
of a file. -/
theorem read_refusal (h : store.read name target = some (.error refusal)) :
    (∃ owner, refusal.cause = .undefinedProperty name owner) ∧
      (refusal.file = none ∨ ∃ owner, target = .foreign owner refusal.file) := by
  unfold Store.read at h
  grind

/-- A writing is refused where nothing may be written. -/
theorem write_refusal {value : Value} (h : store.write name value target = some (.error refusal)) :
    (∃ owner, refusal.cause = .readOnlyProperty name owner) ∧
      (refusal.file = none ∨ ∃ owner, target = .foreign owner refusal.file) := by
  unfold Store.write at h
  grind

/-- An object refuses an access for a reason of its own, never at a bound of the run. -/
theorem read_refusal_isBound (store : Store) (h : store.read name target = some (.error refusal)) :
    refusal.cause.isBound = false := by
  obtain ⟨⟨owner, hcause⟩, -⟩ := read_refusal h
  rw [hcause]
  rfl

theorem write_refusal_isBound (store : Store) {value : Value}
    (h : store.write name value target = some (.error refusal)) :
    refusal.cause.isBound = false := by
  obtain ⟨⟨owner, hcause⟩, -⟩ := write_refusal h
  rw [hcause]
  rfl

end Store

namespace Evaluation

open Eval

variable {α β : Type} {depths : Nat → Nat → Prop} {allowed : Failure → Prop}

/-- An ending at certain depths, of levels and of calls, that is no failure of the script but an
allowed one. -/
structure Fair (depths : Nat → Nat → Prop) (allowed : Failure → Prop)
    (result : EStateM.Result Exit State α) : Prop where
  place : depths (final result).depth (final result).callDepth
  failure : ∀ failure, outcome result = .error (.failed (.script failure)) → allowed failure

/-- From every state at certain depths, the two evaluations do the same and end fairly. -/
def Alike (depths : Nat → Nat → Prop) (allowed : Failure → Prop) (x y : Eval α) : Prop :=
  ∀ state, depths state.depth state.callDepth → x state = y state ∧ Fair depths allowed (y state)

namespace Alike

theorem pure (value : α) :
    Alike depths allowed (Pure.pure value : Eval α) (Pure.pure value) :=
  fun _ hstate => ⟨rfl, hstate, fun _ h => nomatch h⟩

theorem throw {exit : Exit} (h : ∀ failure, exit = .failed (.script failure) → allowed failure) :
    Alike depths allowed (throw exit : Eval α) (throw exit) :=
  fun _ hstate => ⟨rfl, hstate, fun failure hexit => h failure (Except.error.inj hexit)⟩

theorem bind {x y : Eval α} {f g : α → Eval β} (hx : Alike depths allowed x y)
    (hf : ∀ value, Alike depths allowed (f value) (g value)) :
    Alike depths allowed (x >>= f) (y >>= g) := by
  intro state hstate
  obtain ⟨heq, hplace, hfailure⟩ := hx state hstate
  cases hy : y state with
  | ok value after =>
    rw [hy] at heq hplace
    rw [bind_of_ok heq, bind_of_ok hy]
    exact hf value after hplace
  | error exit after =>
    rw [hy] at heq hplace hfailure
    rw [bind_of_error heq, bind_of_error hy]
    refine ⟨rfl, hplace, fun failure hexit => hfailure failure ?_⟩
    exact congrArg Except.error (Except.error.inj hexit)

theorem peek (view : State → α) :
    Alike depths allowed (Evaluation.peek view) (Evaluation.peek view) :=
  fun _ hstate => ⟨rfl, hstate, fun _ h => nomatch h⟩

/-- A change of the state that leaves both depths as they are. -/
theorem modify {change : State → State} (hdepth : ∀ state, (change state).depth = state.depth)
    (hcalls : ∀ state, (change state).callDepth = state.callDepth) :
    Alike depths allowed (modify change : Eval Unit) (modify change) := by
  intro state hstate
  refine ⟨rfl, ?_, fun _ h => nomatch h⟩
  show depths (change state).depth (change state).callDepth
  rwa [hdepth, hcalls]

theorem modifyScope (change : Scope → Scope) :
    Alike depths allowed (modifyScope change) (modifyScope change) :=
  modify (fun _ => rfl) fun _ => rfl

theorem modifyWorld (change : World → World) :
    Alike depths allowed (modifyWorld change) (modifyWorld change) :=
  modify (fun _ => rfl) fun _ => rfl

theorem tooLong : Alike depths allowed (failTooLong : Eval α) failTooLong :=
  throw fun _ h => nomatch h

theorem textOf (value : Value) : Alike depths allowed (textOf value) (textOf value) := by
  rw [textOf_eq]
  refine (peek _).bind fun store => ?_
  split
  · exact pure _
  · exact tooLong

theorem describe (tree : Tree) : Alike depths allowed (describe tree) (describe tree) := by
  unfold Evaluation.describe
  split
  · exact pure _
  · exact tooLong

theorem countStep {engine : Engine}
    (h : ∀ limit, allowed (.execution (.stepLimit limit) engine.file)) :
    Alike depths allowed (countStep engine) (countStep engine) := by
  intro state hstate
  refine ⟨rfl, ?_⟩
  rw [countStep_apply]
  split
  · exact ⟨hstate, fun _ hexit => nomatch hexit⟩
  · split
    · refine ⟨hstate, fun failure hexit => ?_⟩
      obtain rfl : _ = failure := by simpa [outcome] using hexit
      exact h _
    · exact ⟨hstate, fun _ hexit => nomatch hexit⟩

/-- Going on after a fault, where the failures that are handed on are allowed ones. -/
theorem attempt {x y : Eval α} {f g : Except Fault α → Eval β} (hx : Alike depths allowed x y)
    (hf : ∀ answer, (∀ failure, answer = .error (.script failure) → allowed failure) →
      Alike depths allowed (f answer) (g answer)) :
    Alike depths allowed (attempt x >>= f) (attempt y >>= g) := by
  intro state hstate
  obtain ⟨heq, hplace, hfailure⟩ := hx state hstate
  rw [attempt_bind_apply, attempt_bind_apply, heq]
  cases hy : y state with
  | ok value after =>
    rw [hy] at hplace
    exact hf (.ok value) (fun _ h => nomatch h) after hplace
  | error exit after =>
    rw [hy] at hplace hfailure
    cases exit with
    | returned value => exact ⟨rfl, hplace, fun failure h => nomatch h⟩
    | failed fault =>
      refine hf (.error fault) (fun failure hanswer => hfailure failure ?_) after hplace
      rw [Except.error.inj hanswer]
      rfl

/-! ### Brackets -/

theorem mapFinal {inner : Nat → Nat → Prop} {before after : State → State} {x y : Eval α}
    (hbefore : ∀ state, depths state.depth state.callDepth →
      inner (before state).depth (before state).callDepth)
    (hafter : ∀ state, inner state.depth state.callDepth →
      depths (after state).depth (after state).callDepth)
    (hx : Alike inner allowed x y) :
    Alike depths allowed (fun state => Evaluation.mapFinal after (x (before state)))
      fun state => Evaluation.mapFinal after (y (before state)) := by
  intro state hstate
  obtain ⟨heq, hplace, hfailure⟩ := hx (before state) (hbefore state hstate)
  refine ⟨congrArg _ heq, ?_, ?_⟩
  · rw [final_mapFinal]
    exact hafter _ hplace
  · rw [outcome_mapFinal]
    exact hfailure

theorem returning {x y : Eval Value} (hx : Alike depths allowed x y) :
    Alike depths allowed (returning x) (returning y) := by
  intro state hstate
  obtain ⟨heq, hplace, hfailure⟩ := hx state hstate
  rw [returning_apply, returning_apply, heq]
  cases hy : y state with
  | ok value after =>
    rw [hy] at hplace
    exact ⟨rfl, hplace, fun _ h => nomatch h⟩
  | error exit after =>
    rw [hy] at hplace hfailure
    cases exit with
    | returned value => exact ⟨rfl, hplace, fun _ h => nomatch h⟩
    | failed fault => exact ⟨rfl, hplace, fun failure h => hfailure failure h⟩

variable {inner : Nat → Nat → Prop}

theorem deeper {x y : Eval α} (hx : Alike inner allowed x y)
    (hbefore : ∀ {depth calls}, depths depth calls → inner (depth + 1) calls)
    (hafter : ∀ {depth calls}, inner depth calls → depths (depth - 1) calls) :
    Alike depths allowed (deeper x) (deeper y) := by
  rw [funext (deeper_apply x), funext (deeper_apply y)]
  exact mapFinal (fun _ => hbefore) (fun _ => hafter) hx

/-- A call does the same if what it does in its frame is the same from the state in which it starts.
-/
theorem inCall (frame : Frame) {x y : Eval α} (hx : Alike inner allowed x y)
    (hafter : ∀ {depth calls}, inner depth calls → depths depth (calls - 1)) {state : State}
    (hstate : inner state.depth (state.callDepth + 1)) :
    inCall frame x state = inCall frame y state ∧ Fair depths allowed (inCall frame y state) := by
  obtain ⟨heq, hplace, hfailure⟩ := hx (state.enter frame) hstate
  rw [inCall_apply, inCall_apply, heq]
  refine ⟨rfl, ?_, ?_⟩
  · rw [final_mapFinal]
    exact hafter hplace
  · rw [outcome_mapFinal]
    exact hfailure

/-- A call of a function does the same if its body does, one call further inside, so far as the
bound on calls lets it go there. -/
theorem callFunction {engine : Engine} {eval eval' : Tree → Eval Value} {closure : Closure}
    (hbody : Alike inner allowed (eval closure.body) (eval' closure.body))
    (hbefore : ∀ {depth calls : Nat}, ¬ engine.limits.maxCallDepth ≤ calls → depths depth calls →
      inner depth (calls + 1))
    (hafter : ∀ {depth calls}, inner depth calls → depths depth (calls - 1))
    (hlimit : ∀ limit name, allowed (.execution (.callDepth limit name) engine.file))
    (values : List Value) :
    Alike depths allowed (callFunction engine eval closure values)
      (callFunction engine eval' closure values) := by
  intro state hstate
  rw [callFunction_apply, callFunction_apply]
  split
  · refine ⟨rfl, hstate, fun failure hexit => ?_⟩
    obtain rfl : _ = failure := by simpa [outcome] using hexit
    exact hlimit _ _
  · next hcalls => exact inCall _ hbody.returning hafter (hbefore hcalls hstate)

theorem stopAtReturn {engine : Engine} {x y : Eval Unit} (hx : Alike depths allowed x y) :
    Alike depths allowed (stopAtReturn engine x) (stopAtReturn engine y) := by
  intro state hstate
  obtain ⟨heq, hplace, hfailure⟩ := hx state hstate
  unfold Evaluation.stopAtReturn
  rw [heq]
  generalize y state = result at hplace hfailure
  split
  · exact ⟨rfl, hplace, fun _ h => nomatch h⟩
  · exact ⟨rfl, hplace, hfailure⟩

/-! ### Callables -/

section

variable {call call' : Closure → List Value → Eval Value}
  (hcall : ∀ closure values, Alike depths allowed (call closure values) (call' closure values))
include hcall

/-- An act that is handed allowed failures only. -/
theorem perform {act : Act} {handed : Failure → Prop} (h : act.Relays handed)
    (hhanded : ∀ failure, handed failure → allowed failure) :
    Alike depths allowed (perform call act) (perform call' act) := by
  -- behind every call, the act may also hand on what the call has failed with
  induction act generalizing handed with
  | done value => exact pure _
  | fail fault =>
    refine throw fun failure hexit => hhanded failure (h failure ?_)
    exact Exit.failed.inj hexit
  | look next ih =>
    rw [perform_look, perform_look]
    exact (peek _).bind fun world => ih world (h world) hhanded
  | print text next ih => exact (modifyWorld _).bind fun _ => ih h hhanded
  | record name values next ih => exact (modifyWorld _).bind fun _ => ih h hhanded
  | build blueprint next ih =>
    rw [perform_build, perform_build]
    exact (peek _).bind fun world => (modifyWorld _).bind fun _ => ih _ (h _) hhanded
  | put id name value next ih => exact (modifyWorld _).bind fun _ => ih h hhanded
  | invoke closure values next ih =>
    refine (hcall closure values).attempt fun answer hanswer => ih answer (h answer) ?_
    exact fun failure => Or.rec (hhanded failure) (hanswer failure)

end

end Alike

/-- A host whose callables raise allowed failures only, besides those that they are handed. -/
def Relays (engine : Engine) (allowed : Failure → Prop) : Prop :=
  ∀ callable values, (engine.host callable values).Relays allowed

theorem Relays.actOf {engine : Engine} (hhost : Relays engine allowed) {function : Value}
    {values : List Value} {act : Act} (hact : actOf? engine function values = some act) :
    act.Relays allowed := by
  cases function with
  | logger id =>
    obtain rfl := Option.some.inj hact
    exact Act.log_relays values allowed
  | callable callable =>
    obtain rfl := Option.some.inj hact
    exact hhost callable values
  | _ => cases hact

namespace Alike

section

variable {engine : Engine}
  (hallowed : ∀ cause file, cause.isBound = false → allowed (.execution cause file))
include hallowed

theorem fail (cause : ExecutionCause) (h : cause.isBound = false) :
    Alike depths allowed (Eval.fail engine cause : Eval α) (Eval.fail engine cause) := by
  refine throw fun failure hexit => ?_
  obtain rfl : _ = failure := by simpa using hexit
  exact hallowed cause _ h

theorem refuse (refusal : Refusal) (h : refusal.cause.isBound = false) {file : Option String} :
    Alike depths allowed (MonadExcept.throw (.failed (.script (refusal.inFile file).failure)) : Eval α)
      (MonadExcept.throw (.failed (.script (refusal.inFile file).failure))) := by
  refine throw fun failure hexit => ?_
  obtain rfl : _ = failure := by simpa using hexit
  exact hallowed refusal.cause _ h

theorem writeProperty (target : Value) (name : String) (value : Value) :
    Alike depths allowed (writeProperty engine target name value)
      (writeProperty engine target name value) := by
  rw [writeProperty_eq]
  refine (peek _).bind fun store => ?_
  split
  · exact modifyWorld _
  · next refusal hwrite => exact refuse hallowed refusal (store.write_refusal_isBound hwrite)
  · exact (textOf target).bind fun _ => fail hallowed _ rfl

/-- A call of a callable fails with what its act is handed, or with the failure that stands for a
fault of the host. -/
theorem callHost {eval eval' : Tree → Eval Value}
    (hcall : ∀ closure values, Alike depths allowed
      (Evaluation.callFunction engine eval closure values)
      (Evaluation.callFunction engine eval' closure values))
    {act : Act} (hact : act.Relays allowed) (callee : Tree) :
    Alike depths allowed (callHost engine eval callee act) (callHost engine eval' callee act) := by
  refine (perform hcall hact fun _ h => h).attempt fun answer hanswer => ?_
  split
  · exact pure _
  · refine throw fun failure hexit => hanswer failure ?_
    rw [Fault.script.inj (Exit.failed.inj hexit)]
  · split
    · exact throw fun _ h => nomatch h
    · exact (describe callee).bind fun _ => fail hallowed _ rfl

end

end Alike

/-- **Doing the same, and failing fairly,** as a relation that every layer of evaluation respects.
-/
def Alike.congruence {engine : Engine} (depths : Nat → Nat → Prop)
    (hallowed : ∀ cause file, cause.isBound = false → allowed (.execution cause file))
    (hhost : Relays engine allowed) : Congruence engine engine where
  Rel := Alike depths allowed
  host := host_refl engine
  pure := .pure
  bind := .bind
  giveBack _ := .throw fun _ h => nomatch h
  tooLong := .tooLong
  fail cause hcause := Alike.fail hallowed cause hcause
  refuse store _ _ refusal hread := Alike.refuse hallowed refusal (store.read_refusal_isBound hread)
  note _ := .modify (fun _ => rfl) fun _ => rfl
  resolve _ := .peek _
  declared _ := .peek _
  store := .peek _
  declare _ _ := .modifyScope _
  assign _ _ := .modifyScope _
  declareFunction _ := .modifyScope _
  write := Alike.writeProperty hallowed
  callHost hcall callee _ _ _ hact :=
    Alike.callHost hallowed hcall (hhost.actOf hact) callee

/-! ### Evaluation to any depth -/

namespace Alike

variable {engine : Engine} (hcause : ∀ cause file, allowed (.execution cause file))
  (hhost : Relays engine allowed)
include hcause hhost

/-- Where every failure of an execution is allowed, the depths do not matter. -/
theorem evalAt (room : Nat) (tree : Tree) :
    Alike (fun _ _ => True) allowed (evalAt engine room tree) (evalAt engine room tree) := by
  have hexhausted : Alike (fun _ _ => True) allowed
      (Eval.fail engine (.evaluationDepth maxDepth) : Eval Value)
      (Eval.fail engine (.evaluationDepth maxDepth)) := by
    refine throw fun failure hexit => ?_
    obtain rfl : _ = failure := by simpa using hexit
    exact hcause _ _
  refine (congruence (fun _ _ => True) (fun cause file _ => hcause cause file) hhost).evalAt ?_
    hexhausted ?_ ?_ room tree
  · show Alike (fun _ _ => True) allowed _ _
    exact countStep fun _ => hcause _ _
  · intro x y hx
    have hinner : Alike (fun _ _ => True) allowed x y := hx
    show Alike (fun _ _ => True) allowed _ _
    exact hinner.deeper (fun _ => trivial) fun _ => trivial
  · intro eval eval' heval closure values
    have hbody : Alike (fun _ _ => True) allowed (eval closure.body) (eval' closure.body) :=
      heval closure.body
    show Alike (fun _ _ => True) allowed _ _
    exact hbody.callFunction (fun _ _ => trivial) (fun _ => trivial) (fun _ _ => hcause _ _) values

theorem execute (body : List Tree) :
    Alike (fun _ _ => True) allowed (execute engine body) (execute engine body) := by
  have heval : ∀ tree, Alike (fun _ _ => True) allowed (eval engine tree) (eval engine tree) :=
    fun tree state => evalAt hcause hhost (room state) tree state
  have hhoist := (congruence (fun _ _ => True) (fun cause file _ => hcause cause file) hhost).hoist body
  refine bind hhoist fun _ => stopAtReturn ?_
  exact (congruence (fun _ _ => True) (fun cause file _ => hcause cause file) hhost).evalSequence
    fun tree _ => heval tree

end Alike

/-- Where callables raise no failures of the script themselves, a program can fail only while it is
executed, and not as one that cannot be read. -/
theorem execute_failure {engine : Engine} (hhost : engine.host.Honest) {body : List Tree}
    {state after : State} {failure : Failure}
    (h : execute engine body state = .error (.failed (.script failure)) after) :
    ∃ cause file, failure = .execution cause file := by
  have hrelays : Relays engine fun failure => ∃ cause file, failure = .execution cause file :=
    fun callable values => (hhost callable values).mono fun _ h => h.elim
  have hbody := Alike.execute (fun cause file => ⟨cause, file, rfl⟩) hrelays body
  exact (hbody state trivial).2.failure failure (by rw [h]; rfl)

end Evaluation

end PageScript
