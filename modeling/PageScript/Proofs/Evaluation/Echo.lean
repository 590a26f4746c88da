import PageScript.Proofs.Evaluation.Drift

/-!
# What has been printed has no say in a run

A script prints, but it cannot look at what has been printed, and the name of its file only goes
into the messages of failures. So a run does the same whatever lines stand in front of its output,
and in whatever file it is.

* `State.behind` — a state with more lines in front of its output;
* `Echo` — two endings that differ in these lines, and in failures that are taken for the same;
* `Echoes` — an evaluation, and another that does the same behind any lines;
* `Echoes.congruence` — every layer of evaluation keeps to this, if there is no host but the
  console;
* `Echoes.eval`, `Echoes.body`, `Echoes.execute` — hence all evaluations and programs do.

A callable of the host may look at the output, so there are none here that do.
-/

namespace PageScript

/-- A state with more lines in front of its output. -/
def State.behind (state : State) (lines : Array String) : State :=
  { state with world := { state.world with output := lines ++ state.world.output } }

namespace Evaluation

open Eval

variable {α β : Type} {same : Failure → Failure → Prop} {lines : Array String}

/-- The second ending is the first with more lines in front of its output, and with a failure that
is taken for the same. -/
inductive Echo (same : Failure → Failure → Prop) (lines : Array String) :
    EStateM.Result Exit State α → EStateM.Result Exit State α → Prop
  | value (value : α) (state : State) :
      Echo same lines (.ok value state) (.ok value (state.behind lines))
  | returned (value : Value) (state : State) :
      Echo same lines (.error (.returned value) state)
        (.error (.returned value) (state.behind lines))
  | failed {failure failure' : Failure} (state : State) : same failure failure' →
      Echo same lines (.error (.failed (.script failure)) state)
        (.error (.failed (.script failure')) (state.behind lines))
  | crashed (fault : HostFault) (state : State) :
      Echo same lines (.error (.failed (.host fault)) state)
        (.error (.failed (.host fault)) (state.behind lines))

/-- The second evaluation does, behind any lines, what the first does without them. -/
def Echoes (same : Failure → Failure → Prop) (x y : Eval α) : Prop :=
  ∀ state lines, Echo same lines (x state) (y (state.behind lines))

namespace Echoes

/-! ### Single steps -/

theorem pure (value : α) : Echoes same (Pure.pure value : Eval α) (Pure.pure value) :=
  fun state _ => .value value state

theorem refuse {failure failure' : Failure} (h : same failure failure') :
    Echoes same (throw (.failed (.script failure)) : Eval α) (throw (.failed (.script failure'))) :=
  fun state _ => .failed state h

theorem tooLong : Echoes same (failTooLong : Eval α) failTooLong :=
  fun state _ => .crashed .numberTooLong state

theorem giveBack (value : Value) :
    Echoes same (throw (.returned value) : Eval α) (throw (.returned value)) :=
  fun state _ => .returned value state

/-- A look at a part of the state that the output does not belong to. -/
theorem peek {view : State → α}
    (h : ∀ (state : State) lines, view (state.behind lines) = view state) :
    Echoes same (peek view) (Evaluation.peek view) := by
  intro state lines
  show Echo same lines (.ok (view state) state)
    (.ok (view (state.behind lines)) (state.behind lines))
  rw [h]
  exact .value (view state) state

/-- A change of the state that the lines in front of the output do not get in the way of. -/
theorem modify {change : State → State}
    (h : ∀ (state : State) lines, change (state.behind lines) = (change state).behind lines) :
    Echoes same (modify change : Eval Unit) (modify change) := by
  intro state lines
  show Echo same lines (.ok () (change state)) (.ok () (change (state.behind lines)))
  rw [h]
  exact .value () (change state)

theorem countStep {engine engine' : Engine} (hlimits : engine'.limits = engine.limits)
    (h : ∀ cause, same (.execution cause engine.file) (.execution cause engine'.file)) :
    Echoes same (countStep engine) (countStep engine') := by
  intro state lines
  rw [countStep_apply, countStep_apply, hlimits]
  cases engine.limits.maxSteps with
  | none => exact .value () { state with steps := state.steps + 1 }
  | some limit =>
    show Echo same lines (if limit < (state.steps + 1 : Nat) then _ else _)
      (if limit < (state.steps + 1 : Nat) then _ else _)
    split
    · exact .failed { state with steps := state.steps + 1 } (h _)
    · exact .value () { state with steps := state.steps + 1 }

/-! ### Putting evaluations together -/

theorem bind {x y : Eval α} {f g : α → Eval β} (hx : Echoes same x y)
    (hf : ∀ value, Echoes same (f value) (g value)) : Echoes same (x >>= f) (y >>= g) := by
  intro state lines
  have hfirst := hx state lines
  rw [bind_eq, bind_eq]
  generalize x state = rx, y (state.behind lines) = ry at hfirst
  cases hfirst with
  | value value after => exact hf value after lines
  | returned value after => exact .returned value after
  | failed after h => exact .failed after h
  | crashed fault after => exact .crashed fault after

/-- Going on after a fault, alike after failures that are taken for the same. -/
theorem attempt {x y : Eval α} {f g : Except Fault α → Eval β} (hx : Echoes same x y)
    (hvalue : ∀ value, Echoes same (f (.ok value)) (g (.ok value)))
    (hfailure : ∀ failure failure', same failure failure' →
      Echoes same (f (.error (.script failure))) (g (.error (.script failure'))))
    (hfault : ∀ fault, Echoes same (f (.error (.host fault))) (g (.error (.host fault)))) :
    Echoes same (attempt x >>= f) (attempt y >>= g) := by
  intro state lines
  have hfirst := hx state lines
  rw [attempt_bind_apply, attempt_bind_apply]
  generalize x state = rx, y (state.behind lines) = ry at hfirst
  cases hfirst with
  | value value after => exact hvalue value after lines
  | returned value after => exact .returned value after
  | failed after h => exact hfailure _ _ h after lines
  | crashed fault after => exact hfault fault after lines

/-- The brackets of an evaluation have nothing to do with the output. -/
theorem mapFinal {before after : State → State}
    (hbefore : ∀ (state : State) lines, before (state.behind lines) = (before state).behind lines)
    (hafter : ∀ (state : State) lines, after (state.behind lines) = (after state).behind lines)
    {x y : Eval α} (hx : Echoes same x y) :
    Echoes same (fun state => Evaluation.mapFinal after (x (before state)))
      fun state => Evaluation.mapFinal after (y (before state)) := by
  intro state lines
  have hinner := hx (before state) lines
  dsimp only
  rw [hbefore]
  generalize x (before state) = rx, y ((before state).behind lines) = ry at hinner
  cases hinner with
  | value value last =>
    simp only [Evaluation.mapFinal, hafter]
    exact .value value (after last)
  | returned value last =>
    simp only [Evaluation.mapFinal, hafter]
    exact .returned value (after last)
  | failed last h =>
    simp only [Evaluation.mapFinal, hafter]
    exact .failed (after last) h
  | crashed fault last =>
    simp only [Evaluation.mapFinal, hafter]
    exact .crashed fault (after last)

theorem deeper {x y : Eval α} (hx : Echoes same x y) : Echoes same (deeper x) (deeper y) := by
  rw [funext (deeper_apply x), funext (deeper_apply y)]
  exact mapFinal (fun _ _ => rfl) (fun _ _ => rfl) hx

theorem inCall (frame : Frame) {x y : Eval α} (hx : Echoes same x y) :
    Echoes same (inCall frame x) (inCall frame y) := by
  rw [funext (inCall_apply frame x), funext (inCall_apply frame y)]
  exact mapFinal (fun _ _ => rfl) (fun _ _ => rfl) hx

theorem returning {x y : Eval Value} (hx : Echoes same x y) :
    Echoes same (returning x) (returning y) := by
  intro state lines
  have hbody := hx state lines
  rw [returning_apply, returning_apply]
  generalize x state = rx, y (state.behind lines) = ry at hbody
  cases hbody with
  | value value after => exact .value Value.undefined after
  | returned value after => exact .value value after
  | failed after h => exact .failed after h
  | crashed fault after => exact .crashed fault after

theorem describe (tree : Tree) : Echoes same (describe tree) (describe tree) := by
  unfold Evaluation.describe
  split
  · exact pure _
  · exact tooLong

/-- The act of a log function prints a line, or fails because of a number in it. -/
theorem perform_log {call call' : Closure → List Value → Eval Value} (values : List Value) :
    Echoes same (perform call (.log values)) (perform call' (.log values)) := by
  intro state lines
  -- the store does not belong to the output, so both find the same line
  rw [Act.log, perform_look, perform_look]
  show Echo same lines (perform call _ state) (perform call' _ (state.behind lines))
  have hstore : (state.behind lines).world.store = state.world.store := rfl
  dsimp only
  rw [hstore]
  split
  · next text _ =>
    have hprint : Echoes same (modifyWorld (·.print text)) (modifyWorld (·.print text)) :=
      modify fun state lines => by simp only [State.behind, World.print, Array.append_push]
    exact hprint.bind (fun _ => pure Value.nothing) state lines
  · exact .crashed _ state

/-! ### Two engines -/

section

variable {engine engine' : Engine}
  (hcause : ∀ cause, same (.execution cause engine.file) (.execution cause engine'.file))
include hcause

theorem fail (cause : ExecutionCause) :
    Echoes same (Eval.fail engine cause : Eval α) (Eval.fail engine' cause) := refuse (hcause cause)

theorem callFunction (hlimits : engine'.limits = engine.limits) {eval eval' : Tree → Eval Value}
    {closure : Closure} (hbody : Echoes same (eval closure.body) (eval' closure.body))
    (values : List Value) :
    Echoes same (callFunction engine eval closure values)
      (callFunction engine' eval' closure values) := by
  intro state lines
  rw [callFunction_apply, callFunction_apply, hlimits]
  show Echo same lines (if engine.limits.maxCallDepth ≤ state.callDepth then _ else _)
    (if engine.limits.maxCallDepth ≤ state.callDepth then _ else _)
  split
  · exact .failed state (hcause _)
  · exact inCall _ hbody.returning _ lines

end

/-! ### Every layer -/

section

variable {engine engine' : Engine}
  (hcause : ∀ cause, same (.execution cause engine.file) (.execution cause engine'.file))
  (hrefl : ∀ failure, same failure failure)
include hcause hrefl

/-- An object that is foreign keeps its own file, and any other names that of the engine. -/
theorem refusal (refusal : Refusal) :
    Echoes same (throw (.failed (.script (refusal.inFile engine.file).failure)) : Eval α)
      (throw (.failed (.script (refusal.inFile engine'.file).failure))) := by
  obtain ⟨cause, file⟩ := refusal
  cases file with
  | none => exact refuse (hcause cause)
  | some file => exact refuse (hrefl _)

theorem writeProperty (target : Value) (name : String) (value : Value) :
    Echoes same (writeProperty engine target name value)
      (writeProperty engine' target name value) := by
  rw [writeProperty_eq, writeProperty_eq]
  refine (peek fun _ _ => rfl).bind fun store => ?_
  split
  · exact modify fun _ _ => rfl
  · exact refusal hcause hrefl _
  · refine bind ?_ fun _ => fail hcause _
    rw [textOf_eq]
    refine (peek fun _ _ => rfl).bind fun store => ?_
    split
    · exact pure _
    · exact tooLong

omit hrefl in
/-- A call of a console's log function, or of a callable that does nothing. -/
theorem callHost (hhost : engine.host = .idle) {eval eval' : Tree → Eval Value} (callee : Tree)
    {function : Value} {values : List Value} {act : Act}
    (hact : actOf? engine function values = some act) :
    Echoes same (callHost engine eval callee act) (callHost engine' eval' callee act) := by
  have hperform : Echoes same (perform (Evaluation.callFunction engine eval) act)
      (perform (Evaluation.callFunction engine' eval') act) := by
    cases function with
    | logger id =>
      obtain rfl := Option.some.inj hact
      exact perform_log values
    | callable callable =>
      unfold actOf? at hact
      rw [hhost] at hact
      obtain rfl := Option.some.inj hact
      exact pure _
    | _ => cases hact
  refine hperform.attempt (fun value => pure _) (fun failure failure' => refuse) fun fault => ?_
  show Echoes same (if fault.isFatal then throw (.failed (.host fault)) else _)
    (if fault.isFatal then throw (.failed (.host fault)) else _)
  split
  · exact fun state _ => .crashed fault state
  · exact (describe callee).bind fun _ => fail hcause _

/-- **Echoing** as a relation that every layer of evaluation respects, if there is no host but the
console. -/
def congruence (hhost : engine.host = .idle) (hhost' : engine'.host = .idle) :
    Congruence engine engine' where
  Rel := Echoes same
  host := hhost'.trans hhost.symm
  pure := pure
  bind := bind
  giveBack := giveBack
  tooLong := tooLong
  fail cause _ := fail hcause cause
  refuse _ _ _ reason _ := refusal hcause hrefl reason
  note _ := modify fun _ _ => rfl
  resolve _ := peek fun _ _ => rfl
  declared _ := peek fun _ _ => rfl
  store := peek fun _ _ => rfl
  declare _ _ := modify fun _ _ => rfl
  assign _ _ := modify fun _ _ => rfl
  declareFunction _ := modify fun _ _ => rfl
  write := writeProperty hcause hrefl
  callHost _ callee _ _ _ hact := callHost hcause hhost callee hact

variable (hlimits : engine'.limits = engine.limits) (hhost : engine.host = .idle)
  (hhost' : engine'.host = .idle)
include hlimits hhost hhost'

theorem evalAt (room : Nat) (tree : Tree) :
    Echoes same (evalAt engine room tree) (evalAt engine' room tree) := by
  refine (congruence hcause hrefl hhost hhost').evalAt ?_ (fail hcause _) deeper ?_ room tree
  · exact countStep hlimits hcause
  · exact fun heval closure values => callFunction hcause hlimits (heval closure.body) values

theorem eval (tree : Tree) : Echoes same (eval engine tree) (eval engine' tree) :=
  fun state lines => evalAt hcause hrefl hlimits hhost hhost' (room state) tree state lines

/-- The declarations of a body and then its trees, where a return may get out. -/
theorem body (body : List Tree) :
    Echoes same (hoist body >>= fun _ => evalSequence (Evaluation.eval engine) body)
      (hoist body >>= fun _ => evalSequence (Evaluation.eval engine') body) := by
  have heval := eval hcause hrefl hlimits hhost hhost'
  exact bind ((congruence hcause hrefl hhost hhost').hoist body) fun _ =>
    (congruence hcause hrefl hhost hhost').evalSequence fun tree _ => heval tree

end

theorem stopAtReturn (engine : Engine) {x y : Eval Unit} (hx : Echoes same x y) :
    Echoes same (stopAtReturn engine x) (stopAtReturn engine y) := by
  intro state lines
  have hbody := hx state lines
  unfold Evaluation.stopAtReturn
  generalize x state = rx, y (state.behind lines) = ry at hbody
  cases hbody with
  | value value after => exact .value value after
  | returned value after => exact modify (fun _ _ => rfl) after lines
  | failed after h => exact .failed after h
  | crashed fault after => exact .crashed fault after

/-- **A program does the same behind any output.** -/
theorem execute {engine : Engine} (hhost : engine.host = .idle) (body : List Tree) :
    Echoes Eq (execute engine body) (execute engine body) := by
  have hcause : ∀ cause, Failure.execution cause engine.file = .execution cause engine.file :=
    fun _ => rfl
  have heval := eval hcause (fun _ => rfl) rfl hhost hhost
  refine bind ((congruence hcause (fun _ => rfl) hhost hhost).hoist body) fun _ => ?_
  exact stopAtReturn engine
    ((congruence hcause (fun _ => rfl) hhost hhost).evalSequence fun tree _ => heval tree)

end Echoes

end Evaluation

end PageScript
