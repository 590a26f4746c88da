import PageScript.Scope.Frame
import PageScript.Text.Quoted

/-!
# Forests of frames

Frames that stand in one another, to any depth. Every frame is known by its number and keeps the
numbers of the frames around it, nearest first.

* `Forest.add` — a new frame, inside an earlier one or at a root;
* `Forest.chain` — a frame and the frames around it;
* `Forest.find?` — the nearest frame that binds a name;
* `Forest.get?` — what a name stands for in one frame alone;
* `Forest.declare`, `Forest.declareFunction`, `Forest.assign` — the writes. Each changes the binding
  of one name in one frame.
-/

namespace PageScript

/-- A frame in its place. -/
structure Placed where
  frame : Frame
  /-- The frames around it, nearest first. -/
  around : List Nat
deriving DecidableEq

/-- Frames by number. -/
structure Forest where
  frames : Array Placed
deriving DecidableEq

namespace Forest

/-- No frames. -/
def empty : Forest := ⟨#[]⟩

/-- The frame of a number. A number that is not in use has a vacant frame. -/
def frame (forest : Forest) (id : Nat) : Frame :=
  (forest.frames[id]?.map (·.frame)).getD .vacant

/-- The numbers of the frames around a frame, nearest first. -/
def around (forest : Forest) (id : Nat) : List Nat :=
  (forest.frames[id]?.map (·.around)).getD []

/-- The number of a frame and those of the frames around it, nearest first. -/
def chain (forest : Forest) (id : Nat) : List Nat :=
  id :: forest.around id

/-- A new vacant frame inside `parent`, or at a root, and its number. -/
def add (forest : Forest) (parent : Option Nat) : Nat × Forest :=
  (forest.frames.size,
    ⟨forest.frames.push ⟨.vacant, (parent.map forest.chain).getD []⟩⟩)

/-- The nearest frame that binds a name. -/
def find? (forest : Forest) (id : Nat) (name : String) : Option Nat :=
  (forest.chain id).find? fun k => (forest.frame k).binds name

/-- Whether a name is bound in a frame or around it. -/
def contains (forest : Forest) (id : Nat) (name : String) : Bool :=
  (forest.find? id name).isSome

/-- What a name stands for in one frame alone. -/
def get? (forest : Forest) (id : Nat) (name : String) : Option Value :=
  (forest.frame id).get? name

/-- Changes one frame. -/
def modify (forest : Forest) (id : Nat) (change : Frame → Frame) : Forest :=
  ⟨forest.frames.modify id fun placed => { placed with frame := change placed.frame }⟩

/-- Binds a name as a variable of a frame. -/
def declare (forest : Forest) (id : Nat) (name : String) (value : Value) : Forest :=
  forest.modify id (·.declare name value)

/-- Binds a function to its own name in a frame. -/
def declareFunction (forest : Forest) (id : Nat) (closure : Closure) : Forest :=
  forest.modify id (·.declareFunction closure)

/-- Binds a name as a variable of the nearest frame that binds it, or of the given frame when none
does. -/
def assign (forest : Forest) (id : Nat) (name : String) (value : Value) : Forest :=
  forest.declare ((forest.find? id name).getD id) name value

/-- A frame as a listing shows it. -/
def shown (forest : Forest) (id : Nat) : String :=
  let place := if (forest.around id).isEmpty then "global" else "local"
  let vars := Text.listed ((forest.frame id).vars.names.map Text.quoted)
  let functions := Text.listed ((forest.frame id).functions.names.map Text.quoted)
  s!"Environment({place}, vars={vars}, functions={functions})"

end Forest

end PageScript
