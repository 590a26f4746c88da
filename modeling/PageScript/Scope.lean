import PageScript.Scope.Frame

/-!
# The scope of a running script

A running script sees at most two frames: the frame of the call that is running, if one is, and the
global frame. The frames of the callers wait beneath and are out of sight.

* `Scope.lookup?` — what a name stands for;
* `Scope.declare`, `Scope.declareFunction` — bindings in the active frame;
* `Scope.assign` — the nearest frame that binds the name, or else the active one;
* `Scope.enter`, `Scope.leave` — the start and the end of a call.
-/

namespace PageScript

/-- The frames of a running script. -/
structure Scope where
  globals : Frame
  /-- The frames of the running calls, innermost first. -/
  calls : List Frame
deriving DecidableEq

namespace Scope

/-- The frame that declarations go to: that of the innermost call, or else the global one. -/
def active (scope : Scope) : Frame :=
  scope.calls.headD scope.globals

/-- Changes the active frame. -/
def modifyActive (scope : Scope) (change : Frame → Frame) : Scope :=
  match scope.calls with
  | [] => { scope with globals := change scope.globals }
  | frame :: callers => { scope with calls := change frame :: callers }

/-- What a name stands for: in the active frame, or else in the global one. -/
def lookup? (scope : Scope) (name : String) : Option Value :=
  (scope.active.get? name).or (scope.globals.get? name)

/-- Binds a name as a variable of the active frame. -/
def declare (scope : Scope) (name : String) (value : Value) : Scope :=
  scope.modifyActive (·.declare name value)

/-- Binds a function to its own name in the active frame. -/
def declareFunction (scope : Scope) (closure : Closure) : Scope :=
  scope.modifyActive (·.declareFunction closure)

/-- Binds a name as a variable of the nearest frame that binds it. A name that is bound nowhere is
bound in the active frame. -/
def assign (scope : Scope) (name : String) (value : Value) : Scope :=
  if !scope.active.binds name && scope.globals.binds name then
    { scope with globals := scope.globals.declare name value }
  else scope.declare name value

/-- Starts a call with a frame of its own. -/
def enter (scope : Scope) (frame : Frame) : Scope :=
  { scope with calls := frame :: scope.calls }

/-- Ends the innermost call. -/
def leave (scope : Scope) : Scope :=
  { scope with calls := scope.calls.tail }

end Scope

end PageScript
