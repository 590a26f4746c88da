import PageScript.Evaluation.Layer

/-!
# Evaluation to any depth

* `evalAt` — a tree, with a given number of levels left;
* `eval` — a tree, with the levels that are left in a state;
* `call`, `execute` — a function of the script and a whole program;
* `evalAt_zero` — without a level left, only a hole can be evaluated;
* `evalAt_succ` — one level of evaluation is one `layer` over the levels below.

Every tree but a hole counts as a step and takes a level. The step is counted before the level is
looked for, and both before anything else happens.
-/

namespace PageScript.Evaluation

open Eval

/-- The number of levels that evaluations may nest to. -/
def maxDepth : Nat := 256

/-- A tree, with the given number of levels left. -/
def evalAt (engine : Engine) : (room : Nat) → Tree → Eval Value
  | _, .hole => return .nothing
  | 0, _ => do
    countStep engine
    fail engine (.evaluationDepth maxDepth)
  | room + 1, tree => do
    countStep engine
    deeper (layer engine (evalAt engine room) tree)

/-- The levels that are left in a state. -/
def room (state : State) : Nat :=
  maxDepth - state.depth

/-- A tree. -/
def eval (engine : Engine) (tree : Tree) : Eval Value := fun state =>
  evalAt engine (room state) tree state

/-- A call of a function of the script. -/
def call (engine : Engine) (closure : Closure) (values : List Value) : Eval Value := fun state =>
  callFunction engine (evalAt engine (room state)) closure values state

/-- Ends a program that returns outside of every function, and takes a note of it. -/
def stopAtReturn (engine : Engine) (program : Eval Unit) : Eval Unit := fun state =>
  match program state with
  | .error (.returned _) state =>
    note s!"Top-level return in {fileInLog engine.file} ended the script" state
  | result => result

/-- A whole program: its declarations first, and then its trees in order. -/
def execute (engine : Engine) (body : List Tree) : Eval Unit := do
  hoist body
  stopAtReturn engine (evalSequence (eval engine) body)

theorem evalAt_zero (engine : Engine) {tree : Tree} (h : tree ≠ .hole) :
    evalAt engine 0 tree = (do countStep engine; fail engine (.evaluationDepth maxDepth)) := by
  cases tree <;> first | exact absurd rfl h | rfl

theorem evalAt_succ (engine : Engine) (room : Nat) {tree : Tree} (h : tree ≠ .hole) :
    evalAt engine (room + 1) tree =
      (do countStep engine; deeper (layer engine (evalAt engine room) tree)) := by
  cases tree <;> first | exact absurd rfl h | rfl

end PageScript.Evaluation
