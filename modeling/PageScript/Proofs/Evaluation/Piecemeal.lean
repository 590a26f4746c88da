import PageScript.Proofs.Evaluation.Drift

/-!
# A program, tree by tree

The functions of a program are declared before the first of its trees is evaluated. If they stand in
front of all other trees, it makes no difference when they are declared, and each tree may as well
be a program of its own.

* `Tree.isFunction` — the trees that are declared before a body runs;
* `executeEach` — trees as programs of their own, one after the other;
* `Foreruns` — what declaring functions leaves alone;
* `eval_function` — a function that is declared already counts as a step, and that is all;
* `executeEach_of_body` — a program that comes to its end does so tree by tree as well.

A whole program declares all of its functions before it counts the first of them as a step. A
declaration does not look at the steps, so it may as well come later.
-/

namespace PageScript

/-- Whether a tree is a function with a name, which is declared before its body runs. -/
def Tree.isFunction : Tree → Bool
  | .function (.identifier _) _ _ => true
  | _ => false

theorem Tree.eq_function {tree : Tree} (h : tree.isFunction = true) :
    ∃ name params block, tree = .function (.identifier name) params block := by
  unfold isFunction at h
  split at h
  · exact ⟨_, _, _, rfl⟩
  · cases h

/-- The state after one more step. -/
def State.counted (state : State) : State :=
  { state with steps := state.steps + 1 }

namespace Evaluation

open Eval

variable {engine : Engine} {state after : State} {name : String} {params : List Tree} {block : Tree}

/-- Executes trees as programs of their own, one after the other. -/
def executeEach (engine : Engine) : List Tree → Eval Unit
  | [] => return ()
  | tree :: rest => do
    execute engine [tree]
    executeEach engine rest

theorem executeEach_append (engine : Engine) (first second : List Tree) :
    executeEach engine (first ++ second) =
      (executeEach engine first >>= fun _ => executeEach engine second) := by
  induction first with
  | nil => rfl
  | cons tree rest ih => rw [List.cons_append, executeEach, executeEach, ih, bind_assoc]

/-- What comes to its end tree by tree has come through the first of the trees. -/
theorem executeEach_take {trees : List Tree} (h : executeEach engine trees state = .ok () after)
    (count : Nat) : ∃ middle, executeEach engine (trees.take count) state = .ok () middle := by
  rw [← List.take_append_drop count trees, executeEach_append] at h
  obtain ⟨_, middle, hfirst, -⟩ := exists_of_bind h
  exact ⟨middle, hfirst⟩

/-- A return gets out of a body, where there is no function that it could end. -/
def ReturnsOutside (engine : Engine) (body : List Tree) (state : State) : Prop :=
  ∃ value after, (hoist body >>= fun _ => evalSequence (eval engine) body) state =
    .error (.returned value) after

theorem body_of_execute {body : List Tree} (h : execute engine body state = .ok () after)
    (hreturn : ¬ ReturnsOutside engine body state) :
    (hoist body >>= fun _ => evalSequence (eval engine) body) state = .ok () after := by
  obtain ⟨_, middle, hhoist, hbody⟩ := exists_of_bind h
  rw [ReturnsOutside, bind_of_ok hhoist] at hreturn
  rw [bind_of_ok hhoist]
  unfold stopAtReturn at hbody
  split at hbody
  · next value last hreturned => exact absurd ⟨value, last, hreturned⟩ hreturn
  · exact hbody

/-! ### Declaring functions -/

/-- The state in which one more function is declared. -/
def declared (name : String) (params : List Tree) (block : Tree) (state : State) : State :=
  final (declareFunction name params block state)

/-- What declaring functions leaves alone: the steps, the levels, and the functions there are. -/
structure Foreruns (state after : State) : Prop where
  steps : after.steps = state.steps
  depth : after.depth = state.depth
  functions : ∀ name, state.scope.active.functions.contains name = true →
    after.scope.active.functions.contains name = true

theorem contains_declared (name other : String) (params : List Tree) (block : Tree)
    (state : State) :
    (declared name params block state).scope.active.functions.contains other =
      (decide (other = name) || state.scope.active.functions.contains other) := by
  obtain ⟨⟨globals, calls⟩, _, _, _, _, _⟩ := state
  cases calls <;> exact Bindings.contains_insert _ _ _ _

theorem contains_declared_self (name : String) (params : List Tree) (block : Tree) (state : State) :
    (declared name params block state).scope.active.functions.contains name = true := by
  simp [contains_declared]

theorem foreruns_declared (name : String) (params : List Tree) (block : Tree) (state : State) :
    Foreruns state (declared name params block state) where
  steps := rfl
  depth := rfl
  functions other h := by rw [contains_declared, h, Bool.or_true]

/-- **Functions are declared whatever the count of steps is.** -/
theorem hoist_counted (body : List Tree) (state : State) :
    ∃ after, hoist body state = .ok () after ∧ Foreruns state after ∧
      hoist body state.counted = .ok () after.counted := by
  induction body using hoist.induct generalizing state with
  | case1 => exact ⟨state, rfl, ⟨rfl, rfl, fun _ h => h⟩, rfl⟩
  | case2 name params block rest ih =>
    have hfirst := foreruns_declared name params block state
    obtain ⟨after, hrest, hafter, hcounted⟩ := ih (declared name params block state)
    exact ⟨after, hrest, ⟨hafter.steps.trans hfirst.steps, hafter.depth.trans hfirst.depth,
      fun other h => hafter.functions other (hfirst.functions other h)⟩, hcounted⟩
  | case3 tree rest hne ih =>
    rw [hoist]
    · exact ih state
    · exact hne

/-- Trees that are no functions are passed over. -/
theorem hoist_append_others (functions : List Tree) {others : List Tree}
    (hothers : ∀ tree ∈ others, tree.isFunction = false) :
    hoist (functions ++ others) = hoist functions := by
  have hnone : hoist others = pure () := by
    induction others with
    | nil => rfl
    | cons tree rest ih =>
      obtain ⟨htree, hrest⟩ := List.forall_mem_cons.1 hothers
      rw [hoist, ih hrest]
      rintro name params block rfl
      cases htree
  induction functions using hoist.induct with
  | case1 => exact hnone
  | case2 name params block rest ih => rw [List.cons_append, hoist, hoist, ih]
  | case3 tree rest hne ih =>
    rw [List.cons_append, hoist, hoist, ih]
    · exact hne
    · exact hne

/-! ### Evaluating them -/

/-- A step that is not one too many. -/
theorem countStep_counted (h : countStep engine state = .ok () after) : after = state.counted := by
  rw [countStep_apply] at h
  cases hlimit : engine.limits.maxSteps with
  | none =>
    rw [hlimit] at h
    cases h
    rfl
  | some limit =>
    rw [hlimit] at h
    dsimp only at h
    split at h
    · cases h
    · cases h
      rfl

/-- Whether a step is one too many depends on the count alone. -/
theorem countStep_of_steps {other : State} (hsteps : other.steps = state.steps)
    (h : countStep engine state = .ok () after) :
    countStep engine other = .ok () other.counted := by
  rw [countStep_apply] at h ⊢
  rw [hsteps]
  cases hlimit : engine.limits.maxSteps with
  | none =>
    rw [State.counted, hsteps]
  | some limit =>
    rw [hlimit] at h
    dsimp only at h ⊢
    split at h
    · cases h
    · next hless => rw [if_neg hless, State.counted, hsteps]

/-- Above the greatest depth, there is a level to spare. -/
theorem exists_room (hdepth : state.depth < maxDepth) : ∃ levels, room state = levels + 1 :=
  ⟨maxDepth - state.depth - 1, by unfold room; omega⟩

/-- **A function that is declared already** counts as a step, and that is all. -/
theorem eval_function (hdepth : state.depth < maxDepth)
    (hname : state.scope.active.functions.contains name = true) :
    eval engine (.function (.identifier name) params block) state =
      (countStep engine >>= fun _ => pure .nothing) state := by
  obtain ⟨levels, hlevels⟩ := exists_room hdepth
  have hne : Tree.function (.identifier name) params block ≠ .hole := Tree.noConfusion
  rw [eval, hlevels, evalAt_succ engine levels hne, bind_eq, bind_eq]
  cases hstep : countStep engine state with
  | error exit after => rfl
  | ok value after =>
    obtain rfl := countStep_counted hstep
    have hlayer : layer engine (evalAt engine levels) (.function (.identifier name) params block)
        { state.counted with depth := state.depth + 1 } =
          .ok .nothing { state.counted with depth := state.depth + 1 } := by
      rw [layer_function]
      show (if !state.scope.active.functions.contains name then _ else _ : Eval Value) _ = _
      rw [hname]
      rfl
    show deeper _ state.counted = _
    rw [deeper_apply]
    show mapFinal _ (layer engine _ _ { state.counted with depth := state.depth + 1 }) = _
    rw [hlayer]
    rfl

/-! ### Tree by tree -/

/-- A function on its own is declared, and then counted. -/
theorem execute_function (hdepth : state.depth < maxDepth)
    (hstep : countStep engine (declared name params block state) = .ok () after) :
    execute engine [.function (.identifier name) params block] state = .ok () after := by
  have hname := contains_declared_self name params block state
  have hroom : (declared name params block state).depth < maxDepth := hdepth
  show stopAtReturn engine (evalSequence (eval engine) [.function (.identifier name) params block])
    (declared name params block state) = _
  rw [stopAtReturn, evalSequence, bind_eq, eval_function hroom hname, bind_of_ok hstep]
  rfl

/-- Trees that are no functions do what they do, tree by tree. -/
theorem executeEach_others {others : List Tree} (hothers : ∀ tree ∈ others, tree.isFunction = false)
    (h : evalSequence (eval engine) others state = .ok () after) :
    executeEach engine others state = .ok () after := by
  induction others generalizing state with
  | nil => exact h
  | cons tree rest ih =>
    obtain ⟨htree, hrest⟩ := List.forall_mem_cons.1 hothers
    have hhoist : hoist [tree] = hoist [] := hoist_append_others [] (by simpa using htree)
    obtain ⟨value, last, hvalue, hothers⟩ := exists_of_bind h
    have hexecute : execute engine [tree] state = .ok () last := by
      rw [execute, hhoist]
      show stopAtReturn engine (evalSequence (eval engine) [tree]) state = _
      rw [stopAtReturn, evalSequence, bind_of_ok hvalue]
      rfl
    rw [executeEach, bind_of_ok hexecute]
    exact ih hrest hothers

/-- **A program that comes to its end,** with its functions in front of all other trees, comes to
the same end tree by tree. -/
theorem executeEach_of_body {functions others : List Tree}
    (hfunctions : ∀ tree ∈ functions, tree.isFunction = true)
    (hothers : ∀ tree ∈ others, tree.isFunction = false) (hdepth : state.depth < maxDepth)
    (h : (hoist (functions ++ others) >>= fun _ =>
      evalSequence (eval engine) (functions ++ others)) state = .ok () after) :
    executeEach engine (functions ++ others) state = .ok () after := by
  rw [hoist_append_others functions hothers] at h
  induction functions generalizing state with
  | nil => exact executeEach_others hothers h
  | cons tree functions ih =>
    obtain ⟨htree, hrest⟩ := List.forall_mem_cons.1 hfunctions
    obtain ⟨name, params, block, rfl⟩ := Tree.eq_function htree
    -- in the whole program, all functions are declared before this one is counted
    obtain ⟨all, hall, hforeruns, hcounted⟩ :=
      hoist_counted functions (declared name params block state)
    have hname := hforeruns.functions name (contains_declared_self name params block state)
    have hroom : all.depth < maxDepth := by rwa [hforeruns.depth]
    have hwhole : hoist (.function (.identifier name) params block :: functions) state =
        .ok () all := hall
    rw [bind_of_ok hwhole] at h
    obtain ⟨value, last, hvalue, hothers⟩ := exists_of_bind h
    rw [eval_function hroom hname] at hvalue
    obtain ⟨_, counted, hstep, hlast⟩ := exists_of_bind hvalue
    obtain rfl := countStep_counted hstep
    cases hlast
    have hexecute := execute_function hdepth (countStep_of_steps hforeruns.steps.symm hstep)
    rw [List.cons_append, executeEach, bind_of_ok hexecute]
    refine ih hrest hdepth ?_
    rw [bind_of_ok hcounted]
    exact hothers

end Evaluation

end PageScript
