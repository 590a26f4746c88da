import PageScript.Bindings
import PageScript.Value

/-!
# Frames

A frame binds names to variables and to functions, in two tables.

* `Frame.get?` — what a name stands for: a variable hides a function of its name;
* `Frame.declare`, `Frame.declareFunction` — binding a name in either table;
* `Frame.binds_iff` — a name is bound exactly if it stands for something;
* `Frame.binds_declare`, `Frame.binds_declareFunction` — what is bound afterwards.
-/

namespace PageScript

/-- One frame of bindings. -/
structure Frame where
  vars : Bindings Value
  functions : Bindings Closure
deriving DecidableEq

namespace Frame

/-- The frame that binds nothing. -/
def vacant : Frame := ⟨.empty, .empty⟩

/-- Whether a name is bound. -/
def binds (frame : Frame) (name : String) : Bool :=
  frame.vars.contains name || frame.functions.contains name

/-- What a name stands for. -/
def get? (frame : Frame) (name : String) : Option Value :=
  (frame.vars.get? name).or ((frame.functions.get? name).map .function)

/-- Binds a name as a variable. -/
def declare (frame : Frame) (name : String) (value : Value) : Frame :=
  { frame with vars := frame.vars.insert name value }

/-- Binds a function to its own name. -/
def declareFunction (frame : Frame) (closure : Closure) : Frame :=
  { frame with functions := frame.functions.insert closure.name closure }

theorem binds_iff (frame : Frame) (name : String) :
    frame.binds name = (frame.get? name).isSome := by
  simp [binds, get?, Bindings.contains]

theorem binds_declare (frame : Frame) (name other : String) (value : Value) :
    (frame.declare name value).binds other = (decide (other = name) || frame.binds other) := by
  simp [binds, declare, Bindings.contains_insert, Bool.or_assoc]

theorem binds_declareFunction (frame : Frame) (closure : Closure) (other : String) :
    (frame.declareFunction closure).binds other =
      (decide (other = closure.name) || frame.binds other) := by
  simp [binds, declareFunction, Bindings.contains_insert, Bool.or_left_comm]

end Frame

end PageScript
