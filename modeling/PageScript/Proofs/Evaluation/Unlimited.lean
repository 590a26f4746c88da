import PageScript.Proofs.Evaluation.Piecemeal

/-!
# Runs without a bound on steps

A script cannot look at the count of its steps. It is there for the bound alone, and where there is
no bound, it may as well be any other.

* `State.recounted` — a state with another count of steps;
* `State.inside`, `State.outside` — the step and the level that a tree takes for its operands;
* `Recount` — two endings that differ in the counts of steps at most;
* `Recounts` — an evaluation, and another that does the same from any other count;
* `countStep_unlimited`, `evalAt_unlimited` — without a bound, every step may be taken;
* `recounting` — without a bound, every layer of evaluation does the same from any other count;
* `recounts_eval`, `recounts_evalSequence` — hence all evaluations do.

The acts of the host are covered as they stand, since a host cannot look at the count either.
-/

namespace PageScript

/-- A state with another count of steps. -/
def State.recounted (state : State) (steps : Nat) : State :=
  { state with steps }

/-- The state in which the operands of a tree are evaluated: one step and one level further. -/
def State.inside (state : State) : State :=
  { state.counted with depth := state.depth + 1 }

/-- The state after a tree, when the level of its operands is left. -/
def State.outside (state : State) : State :=
  { state with depth := state.depth - 1 }

namespace Evaluation

open Eval

variable {α β : Type} {engine : Engine}

/-! ### Without a bound -/

/-- Without a bound, every step may be taken. -/
theorem countStep_unlimited (h : engine.limits.maxSteps = none) (state : State) :
    countStep engine state = .ok () state.counted := by
  rw [countStep_apply, h]
  rfl

/-- A tree that is evaluated with a level to spare counts as a step, and then does what its layer
does one level deeper. -/
theorem evalAt_unlimited (h : engine.limits.maxSteps = none) (room : Nat) {tree : Tree}
    (hne : tree ≠ .hole) (state : State) :
    evalAt engine (room + 1) tree state =
      mapFinal State.outside (layer engine (evalAt engine room) tree state.inside) := by
  rw [evalAt_succ engine room hne, bind_of_ok (countStep_unlimited h state), deeper_apply]
  rfl

/-! ### Endings that differ in their counts -/

/-- The second ending is the first with another count of steps: the same value or the same exit,
with the same frames, the same depths, the same world and the same log. -/
inductive Recount : EStateM.Result Exit State α → EStateM.Result Exit State α → Prop
  | value (value : α) (state : State) (steps : Nat) :
      Recount (.ok value state) (.ok value (state.recounted steps))
  | exit (exit : Exit) (state : State) (steps : Nat) :
      Recount (.error exit state) (.error exit (state.recounted steps))

namespace Recount

variable {first second third : EStateM.Result Exit State α}

theorem refl (result : EStateM.Result Exit State α) : Recount result result := by
  cases result with
  | ok value state => exact .value value state state.steps
  | error exit state => exact .exit exit state state.steps

theorem symm (h : Recount first second) : Recount second first := by
  cases h with
  | value value state steps => exact .value value (state.recounted steps) state.steps
  | exit exit state steps => exact .exit exit (state.recounted steps) state.steps

theorem trans (h : Recount first second) (h' : Recount second third) : Recount first third := by
  cases h with
  | value value state steps =>
    cases h' with
    | value value _ steps' => exact .value value state steps'
  | exit exit state steps =>
    cases h' with
    | exit exit _ steps' => exact .exit exit state steps'

/-- A change of the ending state that the count has nothing to do with. -/
theorem mapFinal {change : State → State}
    (hchange : ∀ state steps, change (state.recounted steps) = (change state).recounted steps)
    (h : Recount first second) :
    Recount (Evaluation.mapFinal change first) (Evaluation.mapFinal change second) := by
  cases h with
  | value value state steps =>
    simp only [Evaluation.mapFinal, hchange]
    exact .value value (change state) steps
  | exit exit state steps =>
    simp only [Evaluation.mapFinal, hchange]
    exact .exit exit (change state) steps

/-- A value of its own takes the place of the value. -/
theorem bind_pure {x y : Eval α} {state other : State} (h : Recount (x state) (y other))
    (value : β) :
    Recount ((x >>= fun _ => Pure.pure value) state) ((y >>= fun _ => Pure.pure value) other) := by
  rw [bind_eq, bind_eq]
  generalize x state = rx, y other = ry at h
  cases h with
  | value _ after steps => exact .value value after steps
  | exit exit after steps => exact .exit exit after steps

/-- The end of a call. -/
theorem returning {x y : Eval Value} {state other : State} (h : Recount (x state) (y other)) :
    Recount (Eval.returning x state) (Eval.returning y other) := by
  rw [returning_apply, returning_apply]
  generalize x state = rx, y other = ry at h
  cases h with
  | value value after steps => exact .value Value.undefined after steps
  | exit exit after steps =>
    cases exit with
    | returned value => exact .value value after steps
    | failed fault => exact .exit (Exit.failed fault) after steps

/-- The end of a program. -/
theorem stopAtReturn {x y : Eval Unit} {state other : State} (h : Recount (x state) (y other)) :
    Recount (Evaluation.stopAtReturn engine x state) (Evaluation.stopAtReturn engine y other) := by
  unfold Evaluation.stopAtReturn
  generalize x state = rx, y other = ry at h
  cases h with
  | value value after steps => exact .value value after steps
  | exit exit after steps =>
    cases exit with
    | returned value => exact .value () { after with log := after.log.push _ } steps
    | failed fault => exact .exit (Exit.failed fault) after steps

end Recount

/-- The second evaluation does, from any count of steps, what the first does from another. -/
def Recounts (x y : Eval α) : Prop :=
  ∀ state steps, Recount (x state) (y (state.recounted steps))

namespace Recounts

theorem pure (value : α) : Recounts (Pure.pure value : Eval α) (Pure.pure value) :=
  fun state steps => .value value state steps

theorem throw (exit : Exit) : Recounts (throw exit : Eval α) (throw exit) :=
  fun state steps => .exit exit state steps

/-- A look at a part of the state that the count does not belong to. -/
theorem peek {view : State → α} (h : ∀ state steps, view (state.recounted steps) = view state) :
    Recounts (peek view) (Evaluation.peek view) := by
  intro state steps
  show Recount (.ok (view state) state) (.ok (view (state.recounted steps)) (state.recounted steps))
  rw [h]
  exact .value (view state) state steps

/-- A change of the state that the count has nothing to do with. -/
theorem modify {change : State → State}
    (h : ∀ state steps, change (state.recounted steps) = (change state).recounted steps) :
    Recounts (modify change : Eval Unit) (modify change) := by
  intro state steps
  show Recount (.ok () (change state)) (.ok () (change (state.recounted steps)))
  rw [h]
  exact .value () (change state) steps

theorem countStep (h : engine.limits.maxSteps = none) :
    Recounts (countStep engine) (countStep engine) := by
  intro state steps
  rw [countStep_unlimited h, countStep_unlimited h]
  exact .value () state.counted (steps + 1)

theorem bind {x y : Eval α} {f g : α → Eval β} (hx : Recounts x y)
    (hf : ∀ value, Recounts (f value) (g value)) : Recounts (x >>= f) (y >>= g) := by
  intro state steps
  have hfirst := hx state steps
  rw [bind_eq, bind_eq]
  generalize x state = rx, y (state.recounted steps) = ry at hfirst
  cases hfirst with
  | value value after steps => exact hf value after steps
  | exit exit after steps => exact .exit exit after steps

/-- Going on after a fault. -/
theorem attempt {x y : Eval α} (hx : Recounts x y) : Recounts (attempt x) (attempt y) := by
  intro state steps
  have hfirst := hx state steps
  unfold Eval.attempt
  generalize x state = rx, y (state.recounted steps) = ry at hfirst
  cases hfirst with
  | value value after steps => exact .value (Except.ok value) after steps
  | exit exit after steps =>
    cases exit with
    | returned value => exact .exit (Exit.returned value) after steps
    | failed fault => exact .value (Except.error fault) after steps

theorem returning {x y : Eval Value} (hx : Recounts x y) :
    Recounts (returning x) (returning y) :=
  fun state steps => (hx state steps).returning

theorem deeper {x y : Eval α} (hx : Recounts x y) : Recounts (deeper x) (deeper y) := by
  intro state steps
  rw [deeper_apply, deeper_apply]
  exact (hx { state with depth := state.depth + 1 } steps).mapFinal fun _ _ => rfl

theorem inCall (frame : Frame) {x y : Eval α} (hx : Recounts x y) :
    Recounts (inCall frame x) (inCall frame y) := by
  intro state steps
  rw [inCall_apply, inCall_apply]
  exact (hx (state.enter frame) steps).mapFinal fun _ _ => rfl

theorem callFunction {eval eval' : Tree → Eval Value} {closure : Closure}
    (hbody : Recounts (eval closure.body) (eval' closure.body)) (values : List Value) :
    Recounts (callFunction engine eval closure values)
      (callFunction engine eval' closure values) := by
  intro state steps
  rw [callFunction_apply, callFunction_apply]
  show Recount (if engine.limits.maxCallDepth ≤ state.callDepth then _ else _)
    (if engine.limits.maxCallDepth ≤ state.callDepth then _ else _)
  split
  · exact .exit _ state steps
  · exact inCall _ hbody.returning _ steps

/-- A host cannot look at the count. -/
theorem uniform : Uniform Recounts where
  pure := pure
  bind := bind
  throw := throw
  attempt := attempt
  world := peek fun _ _ => rfl
  store _ := modify fun _ _ => rfl
  print _ := modify fun _ _ => rfl
  record _ _ := modify fun _ _ => rfl

end Recounts

/-! ### Every layer -/

/-- **Recounting** as a relation that every layer of evaluation respects, if there is no bound. -/
def recounting (h : engine.limits.maxSteps = none) : Correspondence engine engine where
  Rel := Recounts
  agree := .refl engine
  pure := .pure
  bind := .bind
  throw := .throw
  note _ := .modify fun _ _ => rfl
  resolve _ := .peek fun _ _ => rfl
  declared _ := .peek fun _ _ => rfl
  world := .peek fun _ _ => rfl
  declare _ _ := .modify fun _ _ => rfl
  assign _ _ := .modify fun _ _ => rfl
  declareFunction _ := .modify fun _ _ => rfl
  write := Recounts.uniform.writeProperty (.refl engine)
  count := .countStep h
  deeper := .deeper
  call heval closure values := .callFunction (heval closure.body) values
  callHost {eval eval'} hcall callee _ _ act _ :=
    Recounts.uniform.callHost (.refl engine) eval eval' hcall callee act

theorem recounts_eval (h : engine.limits.maxSteps = none) (tree : Tree) :
    Recounts (eval engine tree) (eval engine tree) :=
  fun state steps => (recounting h).evalAt (room state) tree state steps

theorem recounts_evalSequence (h : engine.limits.maxSteps = none) (trees : List Tree) :
    Recounts (evalSequence (eval engine) trees) (evalSequence (eval engine) trees) :=
  (recounting h).evalSequence (recounts_eval h) trees

end Evaluation

end PageScript
