import PageScript.Proofs.Evaluation.ControlState
import PageScript.Proofs.Evaluation.Monitoring
import PageScript.Proofs.Evaluation.Truncation

/-!
# A failure ends the run

A script cannot catch a failure. Where a tree has met one, the evaluations around it and the calls
that are running are left, one after the other, and if no callable of the host holds the failure
back, the run ends with it. On the way out frames are dropped, and nothing else happens.

* `State.Remains` — what there is of a state when evaluations and calls have been left;
* `Stopped` — an ending with a failure that was met in a given state;
* `UnlessStopped` — two evaluations that end alike unless the second is stopped by the failure;
* `UnlessStopped.congruence` — whatever a layer does besides keeps evaluations so;
* `Reaches.stopped` — if a tree meets a failure at a moment of a run, then the run is stopped.
-/

namespace PageScript

/-- What there is of a state when evaluations and calls have been left that were running in it. -/
structure State.Remains (state after : State) : Prop where
  globals : after.scope.globals = state.scope.globals
  calls : after.scope.calls <:+ state.scope.calls
  steps : after.steps = state.steps
  world : after.world = state.world
  log : after.log = state.log

namespace State.Remains

theorem refl (state : State) : state.Remains state :=
  ⟨rfl, List.suffix_rfl, rfl, rfl, rfl⟩

variable {state after : State} (h : state.Remains after)
include h

theorem level : state.Remains { after with depth := after.depth - 1 } :=
  ⟨h.globals, h.calls, h.steps, h.world, h.log⟩

theorem leave : state.Remains after.leave :=
  ⟨h.globals, (List.tail_suffix _).trans h.calls, h.steps, h.world, h.log⟩

end State.Remains

namespace Evaluation

open Eval

variable {α β : Type}

/-- An ending with a failure that was met in a given state. -/
def Stopped (failure : Failure) (last : State) (result : EStateM.Result Exit State α) : Prop :=
  ∃ after, result = .error (.failed (.script failure)) after ∧ last.Remains after

/-- The second ending is at a depth, and the first is the same unless the second is stopped. -/
structure AgreeUnless (failure : Failure) (last : State) (depth : Nat)
    (first second : EStateM.Result Exit State α) : Prop where
  place : (final second).depth = depth
  ends : first = second ∨ Stopped failure last second

/-- From every state at a depth, two evaluations end alike and at that depth, unless the second is
stopped by the failure. -/
def UnlessStopped (failure : Failure) (last : State) (depth : Nat) (x y : Eval α) : Prop :=
  ∀ state, state.depth = depth → AgreeUnless failure last depth (x state) (y state)

variable {failure : Failure} {last : State} {depth : Nat}

theorem AgreeUnless.mapFinal {inner : Nat} {first second : EStateM.Result Exit State α}
    (h : AgreeUnless failure last inner first second) {change : State → State}
    (hdepth : ∀ state, state.depth = inner → (change state).depth = depth)
    (hchange : ∀ state, last.Remains state → last.Remains (change state)) :
    AgreeUnless failure last depth (mapFinal change first) (mapFinal change second) where
  place := by
    rw [final_mapFinal]
    exact hdepth _ h.place
  ends := by
    rcases h.ends with rfl | ⟨after, rfl, hremains⟩
    · exact .inl rfl
    · exact .inr ⟨change after, rfl, hchange after hremains⟩

/-- Whoever handles endings, and lets the failure pass, keeps them so. -/
theorem AgreeUnless.handled {first second : EStateM.Result Exit State α}
    (h : AgreeUnless failure last depth first second)
    (handle : EStateM.Result Exit State α → EStateM.Result Exit State β)
    (hdepth : ∀ result, (final (handle result)).depth = (final result).depth)
    (hpass : ∀ after, handle (.error (.failed (.script failure)) after) =
      .error (.failed (.script failure)) after) :
    AgreeUnless failure last depth (handle first) (handle second) where
  place := (hdepth second).trans h.place
  ends := by
    rcases h.ends with rfl | ⟨after, rfl, hremains⟩
    · exact .inl rfl
    · exact .inr ⟨after, hpass after, hremains⟩

namespace UnlessStopped

/-- What is the same anyway, so long as it comes back to its depth. -/
theorem same {x : Eval α} (h : Moves Restored x) : UnlessStopped failure last depth x x :=
  fun state hstate => ⟨(h state).depth.trans hstate, .inl rfl⟩

theorem bind {x y : Eval α} {f g : α → Eval β} (hx : UnlessStopped failure last depth x y)
    (hf : ∀ value, UnlessStopped failure last depth (f value) (g value)) :
    UnlessStopped failure last depth (x >>= f) (y >>= g) := by
  intro state hstate
  obtain ⟨hplace, hsame | ⟨after, hstop, hremains⟩⟩ := hx state hstate
  · rw [bind_eq, bind_eq, hsame]
    generalize y state = result at hplace
    cases result with
    | ok value after => exact hf value after hplace
    | error exit after => exact ⟨hplace, .inl rfl⟩
  · rw [hstop] at hplace
    rw [bind_of_error hstop]
    exact ⟨hplace, .inr ⟨after, rfl, hremains⟩⟩

/-- Going on after a fault, for one who lets the failure pass. -/
theorem attempt {x y : Eval α} {f g : Except Fault α → Eval β}
    (hx : UnlessStopped failure last depth x y)
    (hpass : ∀ state, g (.error (.script failure)) state =
      .error (.failed (.script failure)) state)
    (hfg : ∀ answer, UnlessStopped failure last depth (f answer) (g answer)) :
    UnlessStopped failure last depth (attempt x >>= f) (attempt y >>= g) := by
  intro state hstate
  obtain ⟨hplace, hsame | ⟨after, hstop, hremains⟩⟩ := hx state hstate
  · rw [attempt_bind_apply, attempt_bind_apply, hsame]
    generalize y state = result at hplace
    match result with
    | .ok value after => exact hfg (.ok value) after hplace
    | .error (.failed fault) after => exact hfg (.error fault) after hplace
    | .error (.returned value) after => exact ⟨hplace, .inl rfl⟩
  · rw [hstop] at hplace
    have hend : (Eval.attempt y >>= g) state = .error (.failed (.script failure)) after := by
      rw [attempt_bind_apply, hstop]
      exact hpass after
    rw [hend]
    exact ⟨hplace, .inr ⟨after, rfl, hremains⟩⟩

/-! ### Brackets -/

theorem deeper {x y : Eval α} (h : UnlessStopped failure last (depth + 1) x y) :
    UnlessStopped failure last depth (deeper x) (deeper y) := by
  intro state hstate
  rw [deeper_apply, deeper_apply]
  refine (h _ (congrArg (· + 1) hstate)).mapFinal (fun after hafter => ?_) fun _ => .level
  exact congrArg (· - 1) hafter

theorem inCall (frame : Frame) {x y : Eval α} (h : UnlessStopped failure last depth x y) :
    UnlessStopped failure last depth (inCall frame x) (inCall frame y) := by
  intro state hstate
  rw [inCall_apply, inCall_apply]
  exact (h (state.enter frame) hstate).mapFinal (fun _ hafter => hafter) fun _ => .leave

theorem returning {x y : Eval Value} (h : UnlessStopped failure last depth x y) :
    UnlessStopped failure last depth (returning x) (returning y) := by
  intro state hstate
  refine (h state hstate).handled (fun result => Eval.returning (fun _ => result) state)
    (fun result => ?_) fun _ => rfl
  match result with
  | .ok _ _ | .error (.returned _) _ | .error (.failed _) _ => rfl

theorem callFunction {engine : Engine} {eval eval' : Tree → Eval Value}
    (h : ∀ tree, UnlessStopped failure last depth (eval tree) (eval' tree)) (closure : Closure)
    (values : List Value) :
    UnlessStopped failure last depth (callFunction engine eval closure values)
      (callFunction engine eval' closure values) := by
  intro state hstate
  rw [callFunction_apply, callFunction_apply]
  split
  · exact ⟨hstate, .inl rfl⟩
  · exact (h closure.body).returning.inCall _ _ hstate

theorem stopAtReturn {engine : Engine} {x y : Eval Unit}
    (h : UnlessStopped failure last depth x y) :
    UnlessStopped failure last depth (stopAtReturn engine x) (stopAtReturn engine y) := by
  intro state hstate
  refine (h state hstate).handled (fun result => Evaluation.stopAtReturn engine (fun _ => result) state)
    (fun result => ?_) fun _ => rfl
  match result with
  | .ok _ _ | .error (.returned _) _ | .error (.failed _) _ => rfl

/-! ### Callables -/

theorem perform {call call' : Closure → List Value → Eval Value}
    (hcall : ∀ closure values,
      UnlessStopped failure last depth (call closure values) (call' closure values))
    {act : Act} (h : act.Passes (· = failure)) :
    UnlessStopped failure last depth (perform call act) (perform call' act) := by
  -- an act is a tree of steps: what holds behind every answer holds in front of the step
  induction act with
  | done value => exact same (drift_restored.moves_pure value)
  | fail fault => exact same (drift_restored.moves_throw _)
  | look next ih =>
    rw [perform_look, perform_look]
    exact (same (drift_restored.moves_peek _)).bind fun world => ih world (h world)
  | print text next ih =>
    exact (same (drift_restored.uniform.print text)).bind fun _ => ih h
  | record name values next ih =>
    exact (same (drift_restored.uniform.record name values)).bind fun _ => ih h
  | build blueprint next ih =>
    rw [perform_build, perform_build]
    exact (same (drift_restored.moves_peek _)).bind fun world =>
      (same (drift_restored.uniform.store _)).bind fun _ => ih _ (h _)
  | put id name value next ih =>
    exact (same (drift_restored.uniform.store _)).bind fun _ => ih h
  | invoke closure values next ih =>
    refine (hcall closure values).attempt (fun state => ?_) fun answer => ih answer (h.2 answer)
    rw [h.1 failure rfl]
    rfl

theorem callHost {engine : Engine} {eval eval' : Tree → Eval Value}
    (hcall : ∀ closure values, UnlessStopped failure last depth
      (Evaluation.callFunction engine eval closure values)
      (Evaluation.callFunction engine eval' closure values))
    (callee : Tree) {act : Act} (h : act.Passes (· = failure)) :
    UnlessStopped failure last depth (callHost engine eval callee act)
      (callHost engine eval' callee act) := by
  refine (perform hcall h).attempt (fun _ => rfl) fun answer => ?_
  split
  · exact same (drift_restored.moves_pure _)
  · exact same (drift_restored.moves_throw _)
  · split
    · exact same (drift_restored.moves_throw _)
    · exact same (drift_restored.moves_bind (drift_restored.uniform.describe callee) fun _ =>
        drift_restored.moves_throw _)

/-- What a layer does besides is the same anyway. -/
def congruence (failure : Failure) (last : State) {engine : Engine}
    (hhost : engine.host.Passes (· = failure)) (depth : Nat) : Congruence engine engine where
  Rel := UnlessStopped failure last depth
  host := host_refl engine
  pure value := same (drift_restored.moves_pure value)
  bind := bind
  giveBack _ := same (drift_restored.moves_throw _)
  tooLong := same (drift_restored.moves_throw _)
  fail _ _ := same (drift_restored.moves_throw _)
  refuse _ _ _ _ _ := same (drift_restored.moves_throw _)
  note text := same (drift_restored.moves_note text)
  resolve _ := same (drift_restored.moves_peek _)
  declared _ := same (drift_restored.moves_peek _)
  store := same (drift_restored.moves_peek _)
  declare name value := same fun state => drift_restored.declare state name value
  assign name value := same fun state => drift_restored.assign state name value
  declareFunction closure := same fun state => drift_restored.declareFunction state closure
  write target name value :=
    same (drift_restored.uniform.writeProperty (.refl engine) target name value)
  callHost h callee _ _ _ hact := callHost h callee (of_actOf Act.log_passes hhost hact)

end UnlessStopped

/-- A monitor who says nothing about an evaluation is not there. -/
theorem UnlessStopped.between {monitor : Monitor} {before : Event}
    {after : Except Exit Value → Event} (hafter : ∀ ending state, monitor (after ending) state = none)
    {x y : Eval Value} (h : UnlessStopped failure last depth x y)
    (hbefore : ∀ state, state.depth = depth → monitor before state ≠ none →
      Stopped failure last (y state)) :
    UnlessStopped failure last depth (between monitor before after x) y := by
  intro state hstate
  obtain ⟨hplace, hends⟩ := h state hstate
  refine ⟨hplace, ?_⟩
  by_cases hspoken : monitor before state = none
  · rw [between_of_none hspoken (hafter _ _)]
    exact hends
  · exact .inr (hbefore state hstate hspoken)

/-- A monitor who speaks only where a tree meets the failure is heard only if the run is stopped. -/
def Unheard.ofFailure {engine : Engine} {monitor : Monitor} {tree : Tree} {moment : State}
    (hhost : engine.host.Passes (· = failure))
    (hfails : layer engine (Evaluation.evalAt engine (room moment)) tree moment =
      .error (.failed (.script failure)) last)
    (hspeaks : ∀ event state, monitor event state ≠ none → event = .begun tree ∧ state = moment) :
    Unheard engine monitor :=
  have hsilent : ∀ event state, event ≠ .begun tree → monitor event state = none := by
    intro event state hevent
    cases hspoken : monitor event state with
    | none => rfl
    | some result =>
      exact absurd (hspeaks event state (by rw [hspoken]; exact Option.some_ne_none _)).1 hevent
  { level := UnlessStopped.congruence failure last hhost
    chosen := fun h state hstate => h state hstate state hstate
    count := fun _ => UnlessStopped.same (drift_restored.moves_countStep engine)
    exhausted := fun _ => UnlessStopped.same (drift_restored.moves_throw _)
    deeper := UnlessStopped.deeper
    call := UnlessStopped.callFunction
    stopAtReturn := UnlessStopped.stopAtReturn
    tree := by
      intro depth levels tree' x hlevels h
      refine UnlessStopped.between (fun _ state => hsilent _ state Event.noConfusion) h ?_
      intro state hstate hspoken
      obtain ⟨hevent, rfl⟩ := hspeaks _ state hspoken
      obtain rfl := Event.begun.inj hevent
      have hroom : room state = levels := by
        unfold room
        omega
      rw [hroom] at hfails
      exact ⟨last, hfails, .refl last⟩
    called := fun _ _ h => UnlessStopped.between (fun _ state => hsilent _ state Event.noConfusion) h
      fun state _ hspoken => absurd (hsilent _ state Event.noConfusion) hspoken }

/-- **A failure ends the run.** Suppose that a tree that has begun at a moment of a run meets a
failure, and that no callable of the host holds such a failure back. Then the run ends with it, and
but for frames that have been dropped, all is as it was when the failure was met. -/
theorem Reaches.stopped {engine : Engine} {body : List Tree} {start moment : State} {tree : Tree}
    (hreaches : Reaches engine body start (.begun tree) moment)
    (hhost : engine.host.Passes (· = failure))
    (hfails : layer engine (evalAt engine (room moment)) tree moment =
      .error (.failed (.script failure)) last) :
    Stopped failure last (execute engine body start) := by
  obtain ⟨monitor, hspeaks, hheard⟩ := hreaches
  have hunheard := (Unheard.ofFailure hhost hfails hspeaks).execute start.depth body start rfl
  exact hunheard.ends.resolve_left hheard

end Evaluation

end PageScript
