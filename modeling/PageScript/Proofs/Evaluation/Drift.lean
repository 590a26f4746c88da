import PageScript.Proofs.Evaluation.Correspondence

/-!
# What a run does to its state

A relation between an earlier and a later state holds across every run if it holds across the
single steps, can be put together, and survives the two brackets that put something back.

* `final` — the state that an evaluation ends in, whichever way it ends;
* `outcome` — how it ends, without the state;
* `mapFinal` — an ending with another state;
* `Drift` — a relation between states with these properties;
* `Moves` — the evaluation ends in a state that the relation allows;
* `Drift.moves_eval`, `Drift.moves_call`, `Drift.moves_execute` — a drift holds across every evaluation, every
  call and every program.

The acts of the host are covered as they stand: they may print, record, build, write and call back
in any order, and may go on after a fault of the function that they call.
-/

namespace PageScript.Evaluation

open Eval

variable {α β : Type}

/-- The state that an evaluation ends in. -/
def final : EStateM.Result Exit State α → State
  | .ok _ state => state
  | .error _ state => state

@[simp] theorem final_ok (value : α) (state : State) :
    final (.ok value state : EStateM.Result Exit State α) = state := rfl

@[simp] theorem final_error (exit : Exit) (state : State) :
    final (.error exit state : EStateM.Result Exit State α) = state := rfl

/-- An ending without its state: the value or the exit. -/
def outcome : EStateM.Result Exit State α → Except Exit α
  | .ok value _ => .ok value
  | .error exit _ => .error exit

theorem exists_of_outcome {result : EStateM.Result Exit State α} {exit : Exit}
    (h : outcome result = .error exit) : ∃ after, result = .error exit after := by
  cases result with
  | ok value after => cases h
  | error exit' after =>
    obtain rfl := Except.error.inj h
    exact ⟨after, rfl⟩

/-- An ending whose state is changed. -/
def mapFinal (change : State → State) :
    EStateM.Result Exit State α → EStateM.Result Exit State α
  | .ok value state => .ok value (change state)
  | .error exit state => .error exit (change state)

theorem final_mapFinal (change : State → State) (result : EStateM.Result Exit State α) :
    final (mapFinal change result) = change (final result) := by
  cases result <;> rfl

theorem outcome_mapFinal (change : State → State) (result : EStateM.Result Exit State α) :
    outcome (mapFinal change result) = outcome result := by
  cases result <;> rfl

theorem bind_eq (x : Eval α) (f : α → Eval β) (state : State) :
    (x >>= f) state = match x state with
      | .ok value state => f value state
      | .error exit state => .error exit state := by
  show EStateM.bind x f state = _
  unfold EStateM.bind
  cases x state <;> rfl

theorem bind_of_ok {x : Eval α} {state after : State} {value : α}
    (h : x state = .ok value after) (f : α → Eval β) : (x >>= f) state = f value after := by
  rw [bind_eq, h]

theorem bind_of_error {x : Eval α} {state after : State} {exit : Exit}
    (h : x state = .error exit after) (f : α → Eval β) :
    (x >>= f) state = .error exit after := by
  rw [bind_eq, h]

/-- Evaluations that come to an end one after the other have each come to theirs. -/
theorem exists_of_bind {x : Eval α} {f : α → Eval β} {state after : State} {value : β}
    (h : (x >>= f) state = .ok value after) :
    ∃ first middle, x state = .ok first middle ∧ f first middle = .ok value after := by
  rw [bind_eq] at h
  cases hx : x state with
  | ok first middle =>
    rw [hx] at h
    exact ⟨first, middle, rfl, h⟩
  | error exit middle =>
    rw [hx] at h
    cases h

theorem exists_of_mapFinal {change : State → State} {after : State}
    {result : EStateM.Result Exit State α} {exit : Exit}
    (h : mapFinal change result = .error exit after) : ∃ last, result = .error exit last := by
  cases result with
  | ok value last => cases h
  | error exit' last =>
    obtain ⟨rfl, -⟩ := EStateM.Result.error.inj h
    exact ⟨last, rfl⟩

theorem failure_of_throw {failure failure' : Failure} {state after : State}
    (h : (throw (.failed (.script failure)) : Eval α) state =
      .error (.failed (.script failure')) after) : failure = failure' := by
  cases h
  rfl

theorem textOf_of_some {value : Value} {text : String} {state : State}
    (h : state.world.store.text? value = some text) :
    textOf value state = .ok text state := by
  have hstore : peek (·.world.store) state = .ok state.world.store state := rfl
  rw [textOf_eq, bind_of_ok hstore, h]
  rfl

theorem textOf_of_none {value : Value} {state : State}
    (h : state.world.store.text? value = none) :
    textOf value state = .error (.failed (.host .numberTooLong)) state := by
  have hstore : peek (·.world.store) state = .ok state.world.store state := rfl
  rw [textOf_eq, bind_of_ok hstore, h]
  rfl

theorem deeper_apply (x : Eval α) (state : State) :
    deeper x state = mapFinal (fun after => { after with depth := after.depth - 1 })
      (x { state with depth := state.depth + 1 }) := by
  unfold deeper
  cases x { state with depth := state.depth + 1 } <;> rfl

theorem inCall_apply (frame : Frame) (x : Eval α) (state : State) :
    inCall frame x state = mapFinal State.leave (x (state.enter frame)) := by
  unfold inCall
  cases x (state.enter frame) <;> rfl

theorem returning_apply (body : Eval Value) (state : State) :
    returning body state = match body state with
      | .ok _ after => .ok .undefined after
      | .error (.returned value) after => .ok value after
      | .error (.failed fault) after => .error (.failed fault) after := rfl

theorem attempt_bind_apply (x : Eval α) (f : Except Fault α → Eval β) (state : State) :
    (attempt x >>= f) state = match x state with
      | .ok value after => f (.ok value) after
      | .error (.failed fault) after => f (.error fault) after
      | .error (.returned value) after => .error (.returned value) after := by
  rw [bind_eq]
  unfold attempt
  cases x state with
  | ok value after => rfl
  | error exit after => cases exit <;> rfl

theorem countStep_apply (engine : Engine) (state : State) :
    countStep engine state =
      match engine.limits.maxSteps with
      | none => .ok () { state with steps := state.steps + 1 }
      | some limit =>
        if limit < (state.steps + 1 : Nat) then
          .error (.failed (.script (.execution (.stepLimit limit) engine.file)))
            { state with steps := state.steps + 1 }
        else .ok () { state with steps := state.steps + 1 } := by
  show (match engine.limits.maxSteps with
    | none => pure ()
    | some limit => get >>= fun counted : State =>
      if limit < counted.steps then fail engine (.stepLimit limit) else pure () : Eval Unit) _ = _
  cases engine.limits.maxSteps with
  | none => rfl
  | some limit =>
    show (if limit < (state.steps + 1 : Nat) then fail engine (.stepLimit limit)
      else pure () : Eval Unit) _ = if limit < (state.steps + 1 : Nat) then _ else _
    by_cases h : limit < (state.steps + 1 : Nat)
    · rw [if_pos h, if_pos h]
      rfl
    · rw [if_neg h, if_neg h]
      rfl

/-- A call of a function of the script stops at the limit, or else takes a note and runs the body
in a frame of its own. -/
theorem callFunction_apply (engine : Engine) (eval : Tree → Eval Value) (closure : Closure)
    (values : List Value) (state : State) :
    callFunction engine eval closure values state =
      if engine.limits.maxCallDepth ≤ state.callDepth then
        .error (.failed (.script
          (.execution (.callDepth engine.limits.maxCallDepth closure.name) engine.file))) state
      else
        inCall (bindParams closure.params values .vacant) (returning (eval closure.body))
          { state with
            log := state.log.push ⟨.debug, .evaluation,
              s!"Calling {closure.name} with {values.length} argument(s)"⟩ } := by
  show (if engine.limits.maxCallDepth ≤ state.callDepth then _ else _ : Eval Value) state = _
  by_cases h : engine.limits.maxCallDepth ≤ state.callDepth
  · rw [if_pos h, if_pos h]
    rfl
  · rw [if_neg h, if_neg h]
    rfl

/-- A relation between an earlier and a later state that the steps of a run keep up. -/
structure Drift (R : State → State → Prop) : Prop where
  refl : ∀ state, R state state
  trans : ∀ {a b c}, R a b → R b c → R a c
  log : ∀ state line, R state { state with log := state.log.push line }
  declare : ∀ state name value,
    R state { state with scope := state.scope.declare name value }
  assign : ∀ state name value, R state { state with scope := state.scope.assign name value }
  declareFunction : ∀ state closure,
    R state { state with scope := state.scope.declareFunction closure }
  store : ∀ state store, R state { state with world := { state.world with store } }
  print : ∀ state text, R state { state with world := state.world.print text }
  record : ∀ state name values, R state { state with world := state.world.record name values }
  count : ∀ state, R state { state with steps := state.steps + 1 }
  level : ∀ {state after}, R { state with depth := state.depth + 1 } after →
    R state { after with depth := after.depth - 1 }
  frame : ∀ {state frame after}, R (state.enter frame) after → R state after.leave

/-- The evaluation ends in a state that the relation allows. -/
def Moves (R : State → State → Prop) (x : Eval α) : Prop :=
  ∀ state, R state (final (x state))

namespace Drift

variable {R : State → State → Prop} (D : Drift R)
include D

theorem moves_pure (value : α) : Moves R (pure value : Eval α) := fun state => D.refl state

theorem moves_throw (exit : Exit) : Moves R (throw exit : Eval α) := fun state => D.refl state

theorem moves_peek (view : State → α) : Moves R (peek view) := fun state => D.refl state

theorem moves_bind {x : Eval α} {f : α → Eval β} (hx : Moves R x) (hf : ∀ value, Moves R (f value)) :
    Moves R (x >>= f) := by
  intro state
  have hstate := hx state
  cases h : x state with
  | ok value after =>
    rw [bind_of_ok h]
    rw [h] at hstate
    exact D.trans hstate (hf value after)
  | error exit after =>
    rw [bind_of_error h]
    rwa [h] at hstate

theorem moves_note (text : String) : Moves R (note text) := fun state => D.log state _

theorem moves_countStep (engine : Engine) : Moves R (countStep engine) := by
  intro state
  rw [countStep_apply]
  split
  · exact D.count state
  · split <;> exact D.count state

theorem moves_deeper {x : Eval α} (hx : Moves R x) : Moves R (deeper x) := by
  intro state
  rw [deeper_apply, final_mapFinal]
  exact D.level (hx _)

theorem moves_inCall {x : Eval α} (hx : Moves R x) (frame : Frame) : Moves R (inCall frame x) := by
  intro state
  rw [inCall_apply, final_mapFinal]
  exact D.frame (hx _)

omit D in
theorem moves_returning {x : Eval Value} (hx : Moves R x) : Moves R (returning x) := by
  intro state
  have hstate := hx state
  unfold returning
  split <;> next h => rwa [h] at hstate

omit D in
theorem moves_attempt {x : Eval α} (hx : Moves R x) : Moves R (attempt x) := by
  intro state
  have hstate := hx state
  unfold attempt
  split <;> next h => rwa [h] at hstate

theorem moves_callFunction {eval : Tree → Eval Value} (h : ∀ tree, Moves R (eval tree))
    (engine : Engine) (closure : Closure) (values : List Value) :
    Moves R (callFunction engine eval closure values) := by
  intro state
  rw [callFunction_apply]
  split
  · exact D.refl state
  · exact D.trans (D.log state _) (D.moves_inCall (moves_returning (h closure.body)) _ _)

/-- A drift makes no difference between the ways in which an evaluation ends. -/
theorem uniform : Uniform fun x _ => Moves R x where
  pure := D.moves_pure
  bind := D.moves_bind
  throw := D.moves_throw
  attempt := moves_attempt
  world := D.moves_peek _
  store _ := fun state => D.store state _
  print text := fun state => D.print state text
  record name values := fun state => D.record state name values

/-- A drift as a relation that every layer of evaluation respects. -/
def correspondence (engine : Engine) : Correspondence engine engine where
  Rel x _ := Moves R x
  agree := .refl engine
  pure := D.moves_pure
  bind := D.moves_bind
  throw := D.moves_throw
  note := D.moves_note
  resolve _ := D.moves_peek _
  declared _ := D.moves_peek _
  world := D.moves_peek _
  declare name value := fun state => D.declare state name value
  assign name value := fun state => D.assign state name value
  declareFunction closure := fun state => D.declareFunction state closure
  write := D.uniform.writeProperty (.refl engine)
  count := D.moves_countStep engine
  deeper := D.moves_deeper
  call h := D.moves_callFunction h engine
  callHost {eval _} h callee _ _ act _ := D.uniform.callHost (.refl engine) eval eval h callee act

theorem moves_evalAt (engine : Engine) (room : Nat) (tree : Tree) : Moves R (evalAt engine room tree) :=
  (D.correspondence engine).evalAt room tree

theorem moves_eval (engine : Engine) (tree : Tree) : Moves R (eval engine tree) :=
  fun state => D.moves_evalAt engine (room state) tree state

theorem moves_call (engine : Engine) (closure : Closure) (values : List Value) :
    Moves R (call engine closure values) :=
  fun state => (D.correspondence engine).callAt (room state) closure values state

theorem moves_stopAtReturn (engine : Engine) {program : Eval Unit} (h : Moves R program) :
    Moves R (stopAtReturn engine program) := by
  intro state
  have hstate := h state
  unfold stopAtReturn
  split
  · next after heq =>
    rw [heq] at hstate
    exact D.trans hstate (D.log after _)
  · exact hstate

theorem moves_execute (engine : Engine) (body : List Tree) : Moves R (execute engine body) := by
  have htrees : ∀ tree, (D.correspondence engine).Rel (eval engine tree) (eval engine tree) :=
    D.moves_eval engine
  exact D.moves_bind ((D.correspondence engine).hoist body) fun _ =>
    D.moves_stopAtReturn engine ((D.correspondence engine).evalSequence htrees body)

end Drift

end PageScript.Evaluation
