import PageScript.Embedding.Act
import PageScript.Log
import PageScript.Scope
import PageScript.Settings

/-!
# The state of a running script

* `Engine` — what stays fixed during a run: the file, the limits and the host;
* `State` — what changes: frames, counters, the world outside and the log;
* `Exit` — the two ways in which an evaluation ends without a value;
* `Eval` — an evaluation: it keeps the state that it ends in, whichever way it ends.

The rest of the module are the single steps: failing, counting and logging, the brackets `deeper` and
`inCall`, which put back what they changed on every way out, and the handlers `returning` and
`attempt`, which turn an exit into a value.
-/

namespace PageScript

/-- What stays fixed during a run. -/
structure Engine where
  /-- The file that failures name. -/
  file : Option String
  limits : Limits
  host : Host

/-- What changes during a run. -/
structure State where
  scope : Scope
  /-- The trees that have been evaluated so far. -/
  steps : Nat
  /-- The trees that are being evaluated, one inside the other. -/
  depth : Nat
  /-- The calls that are running, one inside the other. -/
  callDepth : Nat
  world : World
  log : Array LogLine
deriving DecidableEq

/-- The state before a run: the given globals in the given world. -/
def State.initial (globals : List (String × Value)) (world : World) : State where
  scope := ⟨⟨.ofList globals, .empty⟩, []⟩
  steps := 0
  depth := 0
  callDepth := 0
  world := world
  log := #[]

/-- The state in which a call with the given frame starts. -/
def State.enter (state : State) (frame : Frame) : State :=
  { state with scope := state.scope.enter frame, callDepth := state.callDepth + 1 }

/-- The state after the innermost call. -/
def State.leave (state : State) : State :=
  { state with scope := state.scope.leave, callDepth := state.callDepth - 1 }

/-- How an evaluation ends without a value. -/
inductive Exit where
  /-- A `return` is on its way to the call that it ends. -/
  | returned (value : Value)
  | failed (fault : Fault)
deriving DecidableEq

/-- An evaluation. -/
abbrev Eval := EStateM Exit State

namespace Eval

variable {α : Type}

/-- Fails with a cause, in the file of the engine. -/
def fail (engine : Engine) (cause : ExecutionCause) : Eval α :=
  throw (.failed (.script (.execution cause engine.file)))

/-- Fails because a number is too long to be written. -/
def failTooLong : Eval α :=
  throw (.failed (.host .numberTooLong))

/-- Writes a debug line. -/
def note (text : String) : Eval Unit :=
  modify fun state => { state with log := state.log.push ⟨.debug, .evaluation, text⟩ }

/-- Changes the world. -/
def modifyWorld (change : World → World) : Eval Unit :=
  modify fun state => { state with world := change state.world }

/-- Changes the frames. -/
def modifyScope (change : Scope → Scope) : Eval Unit :=
  modify fun state => { state with scope := change state.scope }

/-- Counts one more step, and fails when it is one too many. -/
def countStep (engine : Engine) : Eval Unit := do
  modify fun state => { state with steps := state.steps + 1 }
  match engine.limits.maxSteps with
  | none => return ()
  | some limit => if limit < (← get).steps then fail engine (.stepLimit limit)

/-- One level deeper. The level is left on every way out. -/
def deeper (evaluation : Eval α) : Eval α := fun state =>
  match evaluation { state with depth := state.depth + 1 } with
  | .ok value state => .ok value { state with depth := state.depth - 1 }
  | .error exit state => .error exit { state with depth := state.depth - 1 }

/-- A call with a frame of its own. The frame is dropped on every way out. -/
def inCall (frame : Frame) (evaluation : Eval α) : Eval α := fun state =>
  match evaluation (state.enter frame) with
  | .ok value state => .ok value state.leave
  | .error exit state => .error exit state.leave

/-- The value that a function body gives: what it returns, or else undefined. -/
def returning (body : Eval Value) : Eval Value := fun state =>
  match body state with
  | .ok _ state => .ok .undefined state
  | .error (.returned value) state => .ok value state
  | .error (.failed fault) state => .error (.failed fault) state

/-- The value or the fault of an evaluation, for one who can go on after a fault. -/
def attempt (evaluation : Eval α) : Eval (Except Fault α) := fun state =>
  match evaluation state with
  | .ok value state => .ok (.ok value) state
  | .error (.failed fault) state => .ok (.error fault) state
  | .error (.returned value) state => .error (.returned value) state

end Eval

end PageScript
