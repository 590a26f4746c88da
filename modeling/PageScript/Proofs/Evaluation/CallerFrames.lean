import PageScript.Proofs.Evaluation.ControlState

/-!
# Calls and the frames of their callers

A running call sees the global frame and a frame of its own. What waits beneath its frame has no say
in what it does, and it has no hold on what waits there.

* `State.above` — a state with more frames beneath its own, and more lines in front of its log;
* `Framed` — an evaluation that does the same above any frames, and leaves them as they are;
* `evalAt_framed` — every evaluation inside a call is of this kind;
* `callFunction_alone` — a call does what it would do if there were no caller;
* `call_isolated` — hence two calls whose callers differ do the same.
-/

namespace PageScript

/-- A state with more frames beneath its own, and more lines in front of its log. -/
def State.above (state : State) (base : List Frame) (lines : Array LogLine) : State :=
  { state with
    scope := { state.scope with calls := state.scope.calls ++ base }
    log := lines ++ state.log }

/-- A state whose running calls and whose log are forgotten. -/
def State.alone (state : State) : State :=
  { state with scope := { state.scope with calls := [] }, log := #[] }

/-- Two states that differ in the frames of the running calls and in the log at most. -/
structure State.SameOutside (state state' : State) : Prop where
  globals : state.scope.globals = state'.scope.globals
  steps : state.steps = state'.steps
  depth : state.depth = state'.depth
  callDepth : state.callDepth = state'.callDepth
  world : state.world = state'.world

theorem State.above_alone (state : State) :
    state.alone.above state.scope.calls state.log = state := by
  obtain ⟨⟨globals, calls⟩, steps, depth, callDepth, world, log⟩ := state
  simp only [above, alone, List.nil_append, Array.append_empty]

theorem State.SameOutside.alone {state state' : State} (h : state.SameOutside state') :
    state.alone = state'.alone := by
  obtain ⟨⟨globals, calls⟩, steps, depth, callDepth, world, log⟩ := state
  obtain ⟨⟨globals', calls'⟩, steps', depth', callDepth', world', log'⟩ := state'
  obtain ⟨rfl, rfl, rfl, rfl, rfl⟩ := h
  rfl

theorem State.sameOutside_above (state : State) (base base' : List Frame)
    (lines lines' : Array LogLine) :
    (state.above base lines).SameOutside (state.above base' lines') :=
  ⟨rfl, rfl, rfl, rfl, rfl⟩

namespace Evaluation

open Eval

variable {α β : Type}

/-- An evaluation that restores its control state and, inside a call, does not depend on what waits
beneath the frames of its state. -/
structure Framed (x : Eval α) : Prop where
  restores : Moves Restored x
  above : ∀ (state : State) base lines, state.scope.calls ≠ [] →
    x (state.above base lines) = mapFinal (·.above base lines) (x state)

namespace Framed

theorem calls_ne_nil {x : Eval α} (h : Framed x) {state : State} (hcalls : state.scope.calls ≠ []) :
    (final (x state)).scope.calls ≠ [] := by
  have hheight := (h.restores state).scope.height
  intro hnil
  rw [hnil] at hheight
  exact hcalls (List.length_eq_zero_iff.1 hheight.symm)

theorem pure (value : α) : Framed (pure value : Eval α) :=
  ⟨drift_restored.moves_pure value, fun _ _ _ _ => rfl⟩

theorem throw (exit : Exit) : Framed (throw exit : Eval α) :=
  ⟨drift_restored.moves_throw exit, fun _ _ _ _ => rfl⟩

theorem bind {x : Eval α} {f : α → Eval β} (hx : Framed x) (hf : ∀ value, Framed (f value)) :
    Framed (x >>= f) where
  restores := drift_restored.moves_bind hx.restores fun value => (hf value).restores
  above state base lines hcalls := by
    have hmap := hx.above state base lines hcalls
    have hafter := hx.calls_ne_nil hcalls
    cases h : x state with
    | ok value after =>
      rw [h] at hmap hafter
      rw [bind_of_ok h, bind_of_ok hmap]
      exact (hf value).above after base lines hafter
    | error exit after =>
      rw [h] at hmap
      rw [bind_of_error h, bind_of_error hmap]
      rfl

/-- A look at a part of the state that the waiting frames do not belong to. -/
theorem peek {view : State → α}
    (h : ∀ (state : State) base lines, state.scope.calls ≠ [] →
      view (state.above base lines) = view state) : Framed (peek view) where
  restores := drift_restored.moves_peek view
  above state base lines hcalls :=
    congrArg (EStateM.Result.ok · (state.above base lines)) (h state base lines hcalls)

/-- A change of frames that only the frame on top and the global one take part in. -/
theorem modifyScope {change : Scope → Scope}
    (hextends : ∀ scope : Scope, scope.Extends (change scope))
    (habove : ∀ (scope : Scope) base, scope.calls ≠ [] →
      change { scope with calls := scope.calls ++ base } =
        { change scope with calls := (change scope).calls ++ base }) :
    Framed (modifyScope change) where
  restores state := ⟨hextends state.scope, rfl, rfl, Nat.le_refl _⟩
  above state base lines hcalls := by
    show EStateM.Result.ok () _ = EStateM.Result.ok () _
    simp only [State.above, habove state.scope base hcalls]

theorem modifyWorld (change : World → World) : Framed (modifyWorld change) where
  restores _ := ⟨.refl _, rfl, rfl, Nat.le_refl _⟩
  above _ _ _ _ := rfl

theorem note (text : String) : Framed (note text) where
  restores := drift_restored.moves_note text
  above state base lines _ := by
    show EStateM.Result.ok () _ = EStateM.Result.ok () _
    simp only [State.above, Array.push_append]

theorem countStep (engine : Engine) : Framed (countStep engine) where
  restores := drift_restored.moves_countStep engine
  above state base lines _ := by
    rw [countStep_apply, countStep_apply]
    cases engine.limits.maxSteps with
    | none => rfl
    | some limit =>
      show (if limit < (state.steps + 1 : Nat) then _ else _) = _
      by_cases h : limit < (state.steps + 1 : Nat)
      · simp only [if_pos h, State.above, mapFinal]
      · simp only [if_neg h, State.above, mapFinal]

theorem deeper {x : Eval α} (h : Framed x) : Framed (deeper x) where
  restores := drift_restored.moves_deeper h.restores
  above state base lines hcalls := by
    have hmap := h.above { state with depth := state.depth + 1 } base lines hcalls
    rw [deeper_apply, deeper_apply]
    show mapFinal _ (x ({ state with depth := state.depth + 1 }.above base lines)) = _
    rw [hmap]
    cases x { state with depth := state.depth + 1 } <;> rfl

theorem returning {x : Eval Value} (h : Framed x) : Framed (returning x) where
  restores := Drift.moves_returning h.restores
  above state base lines hcalls := by
    unfold Eval.returning
    rw [h.above state base lines hcalls]
    cases x state with
    | ok value after => rfl
    | error exit after => cases exit <;> rfl

theorem attempt {x : Eval α} (h : Framed x) : Framed (attempt x) where
  restores := Drift.moves_attempt h.restores
  above state base lines hcalls := by
    unfold Eval.attempt
    rw [h.above state base lines hcalls]
    cases x state with
    | ok value after => rfl
    | error exit after => cases exit <;> rfl

/-- The frame of a call lies above whatever lies beneath its caller, so the caller may be any. -/
theorem inCall_above {x : Eval α} (h : Framed x) (frame : Frame) (state : State)
    (base : List Frame) (lines : Array LogLine) :
    inCall frame x (state.above base lines) = mapFinal (·.above base lines) (inCall frame x state) := by
  have hne : (state.enter frame).scope.calls ≠ [] := List.cons_ne_nil _ _
  have hmap := h.above (state.enter frame) base lines hne
  have hafter := h.calls_ne_nil hne
  rw [inCall_apply, inCall_apply]
  show mapFinal _ (x ((state.enter frame).above base lines)) = _
  rw [hmap]
  -- the frame on top is there on either side, so dropping it leaves the base alone
  have hleave : ∀ after : State, after.scope.calls ≠ [] →
      (after.above base lines).leave = after.leave.above base lines := by
    intro after hcalls
    simp only [State.leave, Scope.leave, State.above, List.tail_append_of_ne_nil hcalls]
  cases hx : x (state.enter frame) with
  | ok value after =>
    rw [hx] at hafter
    exact congrArg _ (hleave after hafter)
  | error exit after =>
    rw [hx] at hafter
    exact congrArg _ (hleave after hafter)

theorem callFunction_above {eval : Tree → Eval Value} (h : ∀ tree, Framed (eval tree))
    (engine : Engine) (closure : Closure) (values : List Value) (state : State)
    (base : List Frame) (lines : Array LogLine) :
    callFunction engine eval closure values (state.above base lines) =
      mapFinal (·.above base lines) (callFunction engine eval closure values state) := by
  rw [callFunction_apply, callFunction_apply]
  show (if engine.limits.maxCallDepth ≤ state.callDepth then _ else _) = _
  by_cases hlimit : engine.limits.maxCallDepth ≤ state.callDepth
  · rw [if_pos hlimit, if_pos hlimit]
    rfl
  · rw [if_neg hlimit, if_neg hlimit, ← inCall_above (returning (h closure.body))]
    simp only [State.above, Array.push_append]

theorem callFunction {eval : Tree → Eval Value} (h : ∀ tree, Framed (eval tree))
    (engine : Engine) (closure : Closure) (values : List Value) :
    Framed (callFunction engine eval closure values) where
  restores := drift_restored.moves_callFunction (fun tree => (h tree).restores) engine closure values
  above state base lines _ := callFunction_above h engine closure values state base lines

/-- Whether an evaluation is framed has nothing to do with the way in which it ends. -/
theorem uniform : Uniform fun x _ => Framed x where
  pure := pure
  bind := bind
  throw := throw
  attempt := attempt
  world := peek fun _ _ _ _ => rfl
  store _ := modifyWorld _
  print _ := modifyWorld _
  record _ _ := modifyWorld _

end Framed

/-- The scope of a state above other frames, seen through the frame on top and the global one. -/
theorem active_append (scope : Scope) (base : List Frame) (h : scope.calls ≠ []) :
    ({ scope with calls := scope.calls ++ base } : Scope).active = scope.active := by
  obtain ⟨globals, calls⟩ := scope
  cases calls with
  | nil => exact absurd rfl h
  | cons frame callers => rfl

theorem lookup_append (scope : Scope) (base : List Frame) (name : String) (h : scope.calls ≠ []) :
    ({ scope with calls := scope.calls ++ base } : Scope).lookup? name = scope.lookup? name := by
  rw [Scope.lookup?, Scope.lookup?, active_append scope base h]

theorem modifyActive_append (scope : Scope) (change : Frame → Frame) (base : List Frame)
    (h : scope.calls ≠ []) :
    ({ scope with calls := scope.calls ++ base } : Scope).modifyActive change =
      { scope.modifyActive change with calls := (scope.modifyActive change).calls ++ base } := by
  obtain ⟨globals, calls⟩ := scope
  cases calls with
  | nil => exact absurd rfl h
  | cons frame callers => rfl

theorem assign_append (scope : Scope) (name : String) (value : Value) (base : List Frame)
    (h : scope.calls ≠ []) :
    ({ scope with calls := scope.calls ++ base } : Scope).assign name value =
      { scope.assign name value with calls := (scope.assign name value).calls ++ base } := by
  unfold Scope.assign
  rw [active_append scope base h]
  split
  · rfl
  · exact modifyActive_append scope _ base h

/-- Independence of what waits beneath, as a relation that every layer of evaluation respects. -/
def framedCorrespondence (engine : Engine) : Correspondence engine engine where
  Rel x _ := Framed x
  agree := .refl engine
  pure := .pure
  bind := .bind
  throw := .throw
  note := .note
  resolve name := .peek fun state base _ h => lookup_append state.scope base name h
  declared name := .peek fun state base _ h =>
    congrArg (·.functions.contains name) (active_append state.scope base h)
  world := .peek fun _ _ _ _ => rfl
  declare name value := .modifyScope (·.extends_declare name value)
    fun scope base h => modifyActive_append scope _ base h
  assign name value := .modifyScope (·.extends_assign name value)
    fun scope base h => assign_append scope name value base h
  declareFunction closure := .modifyScope (·.extends_declareFunction closure)
    fun scope base h => modifyActive_append scope _ base h
  write := Framed.uniform.writeProperty (.refl engine)
  count := .countStep engine
  deeper := .deeper
  call h := .callFunction h engine
  callHost {eval _} h callee _ _ act _ :=
    Framed.uniform.callHost (.refl engine) eval eval h callee act

theorem evalAt_framed (engine : Engine) (room : Nat) (tree : Tree) :
    Framed (evalAt engine room tree) :=
  (framedCorrespondence engine).evalAt room tree

/-- **A call has no caller.** It does what it would do if no other call were running, and what is
running stays as it is. -/
theorem call_alone (engine : Engine) (closure : Closure) (values : List Value) (state : State) :
    call engine closure values state =
      mapFinal (·.above state.scope.calls state.log)
        (call engine closure values state.alone) := by
  have habove := Framed.callFunction_above (evalAt_framed engine (room state)) engine closure values
    state.alone state.scope.calls state.log
  rw [State.above_alone] at habove
  exact habove

/-- **Isolation of calls.** From two states that differ in the frames of the running calls only, a
call ends with the same value or the same failure and changes the globals, the counters and the
world in the same way, and either state keeps all its frames as they were. The debug lines are the
same, too. -/
theorem call_isolated (engine : Engine) (closure : Closure) (values : List Value)
    {state state' : State} (h : state.SameOutside state') :
    outcome (call engine closure values state) = outcome (call engine closure values state') ∧
    (final (call engine closure values state)).SameOutside
      (final (call engine closure values state')) ∧
    (final (call engine closure values state)).scope.calls = state.scope.calls ∧
    (final (call engine closure values state')).scope.calls = state'.scope.calls ∧
    ∃ lines, (final (call engine closure values state)).log = state.log ++ lines ∧
      (final (call engine closure values state')).log = state'.log ++ lines := by
  have hcalls : ∀ state, (final (call engine closure values state)).scope.calls =
      state.scope.calls := fun state =>
    calls_callFunction (drift_restored.moves_evalAt engine _) engine closure values state
  have halone := call_alone engine closure values state
  have halone' := call_alone engine closure values state'
  rw [← h.alone] at halone'
  refine ⟨?_, ?_, hcalls state, hcalls state', ?_⟩
  · rw [halone, halone', outcome_mapFinal, outcome_mapFinal]
  · rw [halone, halone', final_mapFinal, final_mapFinal]
    exact State.sameOutside_above _ _ _ _ _
  · refine ⟨(final (call engine closure values state.alone)).log, ?_, ?_⟩
    · rw [halone, final_mapFinal]
      rfl
    · rw [halone', final_mapFinal]
      rfl

/-- The state inside a call whose frame binds one name. -/
def inFrameOf (name : String) (value : Value) : State :=
  { State.initial [("x", .number 1)] (.ofStore .empty) with
    scope := ⟨⟨.ofList [("x", .number 1)], .empty⟩, [Frame.vacant.declare name value]⟩
    callDepth := 1 }

/-- `function f(y) { x = y; z = x; return z }`: the first assignment goes to the global name even
where the caller has an `x` of its own. -/
def assigning : Closure where
  name := "f"
  params := [some "y"]
  body := .block
    [.expressionStatement (.assignment .assign (.identifier "x") (.identifier "y")),
      .expressionStatement (.assignment .assign (.identifier "z") (.identifier "x")),
      .returnStatement (.identifier "z")]

theorem call_isolated_assigning :
    let engine : Engine := ⟨none, .standard, .idle⟩
    let state := inFrameOf "x" (.number 7)
    let state' := inFrameOf "z" (.string "a")
    state.SameOutside state' ∧
    outcome (call engine assigning [.number 5] state) =
      outcome (call engine assigning [.number 5] state') ∧
    (final (call engine assigning [.number 5] state)).SameOutside
      (final (call engine assigning [.number 5] state')) ∧
    (final (call engine assigning [.number 5] state)).scope.calls = state.scope.calls ∧
    (final (call engine assigning [.number 5] state')).scope.calls = state'.scope.calls := by
  intro engine state state'
  have hsame : state.SameOutside state' := ⟨rfl, rfl, rfl, rfl, rfl⟩
  obtain ⟨houtcome, houtside, hcalls, hcalls', -⟩ :=
    call_isolated engine assigning [.number 5] hsame
  exact ⟨hsame, houtcome, houtside, hcalls, hcalls'⟩

end Evaluation

end PageScript
