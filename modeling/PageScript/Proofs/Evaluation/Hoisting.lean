import PageScript.Proofs.Evaluation.ControlState
import PageScript.Proofs.Evaluation.Unlimited

/-!
# Where functions are declared

The functions of a body are declared before any of its trees is evaluated, so it makes no difference
where in the body they stand. Neither does anything that stands behind a tree that stops the body.

* `Registered` — what a run does to the names of functions: none that is declared gets lost;
* `Hoisted` — a state in which the functions of a body are declared;
* `eval_declaration` — in such a state, a declaration counts as a step, and that is all;
* `evalSequence_others` — hence declarations may be left out of what is evaluated;
* `untilStop` — a body up to the tree that stops it;
* `gathered` — the declarations of a body, and then its other trees up to the one that stops it;
* `runs_gathered` — a body does the same in this order, as a program, as a block and in a function.

A declaration that is left out is a step that is not counted, so all of this takes place where there
is no bound on steps. At the depth where no tree can be evaluated, a declaration stops the body like
any other tree.
-/

namespace PageScript

/-- Whether a tree declares a function. A function without a name is never declared, but it is a
declaration all the same. -/
def Tree.isDeclaration : Tree → Bool
  | .function .. => true
  | _ => false

theorem Tree.isFunction_eq_false {tree : Tree} (h : tree.isDeclaration = false) :
    tree.isFunction = false := by
  cases tree with
  | function name params block => cases h
  | _ => rfl

/-! ### Names of functions -/

/-- The names of functions in the active frame and in the global one are still there. -/
structure Scope.Registers (scope scope' : Scope) : Prop where
  active : ∀ name, scope.active.functions.contains name = true →
    scope'.active.functions.contains name = true
  globals : ∀ name, scope.globals.functions.contains name = true →
    scope'.globals.functions.contains name = true

namespace Scope

theorem Registers.refl (scope : Scope) : scope.Registers scope :=
  ⟨fun _ h => h, fun _ h => h⟩

theorem Registers.trans {a b c : Scope} (hab : a.Registers b) (hbc : b.Registers c) :
    a.Registers c where
  active name h := hbc.active name (hab.active name h)
  globals name h := hbc.globals name (hab.globals name h)

theorem registers_modifyActive (scope : Scope) {change : Frame → Frame}
    (h : ∀ (frame : Frame) name, frame.functions.contains name = true →
      (change frame).functions.contains name = true) :
    scope.Registers (scope.modifyActive change) := by
  obtain ⟨globals, calls⟩ := scope
  cases calls with
  | nil => exact ⟨h globals, h globals⟩
  | cons frame callers => exact ⟨h frame, fun _ hname => hname⟩

theorem registers_declare (scope : Scope) (name : String) (value : Value) :
    scope.Registers (scope.declare name value) :=
  scope.registers_modifyActive fun _ _ h => h

theorem registers_declareFunction (scope : Scope) (closure : Closure) :
    scope.Registers (scope.declareFunction closure) :=
  scope.registers_modifyActive fun frame other h => by
    rw [Frame.declareFunction, Bindings.contains_insert, h, Bool.or_true]

/-- A variable may hide a function, but it does not take its place. -/
theorem registers_assign (scope : Scope) (name : String) (value : Value) :
    scope.Registers (scope.assign name value) := by
  unfold assign
  split
  · obtain ⟨globals, calls⟩ := scope
    cases calls <;> exact ⟨fun _ h => h, fun _ h => h⟩
  · exact scope.registers_declare name value

end Scope

/-- The state in which the body of a function is evaluated when the function is called. -/
def State.calling (state : State) (name : String) (params : List (Option String))
    (values : List Value) : State :=
  let line := s!"Calling {name} with {values.length} argument(s)"
  { state with log := state.log.push ⟨.debug, .evaluation, line⟩ }.enter
    (Evaluation.bindParams params values .vacant)

namespace Evaluation

open Eval

variable {engine : Engine} {state after : State} {body trees : List Tree}

/-- The second state has the control state of the first, and all of its functions. -/
structure Registered (state after : State) : Prop where
  restored : Restored state after
  names : state.scope.Registers after.scope

theorem Registered.leave {frame : Frame} (h : Registered (state.enter frame) after) :
    Registered state after.leave where
  restored := h.restored.leave
  names := by
    refine ⟨fun name hname => ?_, h.names.globals⟩
    -- the frames beneath that of the call are the very frames of before
    have hcalls := h.restored.calls_leave
    unfold Scope.active at hname ⊢
    rw [hcalls]
    cases hc : state.scope.calls with
    | nil =>
      rw [hc] at hname
      exact h.names.globals name hname
    | cons frame callers => rwa [hc] at hname

theorem drift_registered : Drift Registered where
  refl state := ⟨.refl state, .refl _⟩
  trans hab hbc := ⟨hab.restored.trans hbc.restored, hab.names.trans hbc.names⟩
  log state line := ⟨drift_restored.log state line, .refl _⟩
  declare state name value :=
    ⟨drift_restored.declare state name value, state.scope.registers_declare name value⟩
  assign state name value :=
    ⟨drift_restored.assign state name value, state.scope.registers_assign name value⟩
  declareFunction state closure :=
    ⟨drift_restored.declareFunction state closure, state.scope.registers_declareFunction closure⟩
  store state store := ⟨drift_restored.store state store, .refl _⟩
  print state text := ⟨drift_restored.print state text, .refl _⟩
  record state name values := ⟨drift_restored.record state name values, .refl _⟩
  count state := ⟨drift_restored.count state, .refl _⟩
  level h := ⟨drift_restored.level h.restored, h.names⟩
  frame h := h.leave

theorem registered_eval {tree : Tree} {value : Value}
    (h : eval engine tree state = .ok value after) : Registered state after := by
  have hmoves := drift_registered.moves_eval engine tree state
  rwa [h] at hmoves

/-! ### Declarations that have been hoisted -/

/-- The functions that are declared in a body are functions of the active frame. -/
def Hoisted (body : List Tree) (state : State) : Prop :=
  ∀ name params block, Tree.function (.identifier name) params block ∈ body →
    state.scope.active.functions.contains name = true

theorem Hoisted.subset (h : Hoisted body state) (htrees : ∀ tree ∈ trees, tree ∈ body) :
    Hoisted trees state :=
  fun name params block htree => h name params block (htrees _ htree)

/-- Functions are declared for good. -/
theorem Hoisted.registered (h : Hoisted body state) (hafter : Registered state after) :
    Hoisted body after :=
  fun name params block htree => hafter.names.active name (h name params block htree)

/-- **Hoisting declares all functions of a body,** and leaves the depth alone. -/
theorem exists_hoist (body : List Tree) (state : State) :
    ∃ after, hoist body state = .ok () after ∧ after.depth = state.depth ∧ Hoisted body after := by
  induction body using hoist.induct generalizing state with
  | case1 => exact ⟨state, rfl, rfl, fun _ _ _ h => absurd h List.not_mem_nil⟩
  | case2 name params block rest ih =>
    obtain ⟨after, hrest, hforeruns, -⟩ := hoist_counted rest (declared name params block state)
    obtain ⟨_, hagain, hdepth, hhoisted⟩ := ih (declared name params block state)
    cases hrest.symm.trans hagain
    refine ⟨after, hrest, hdepth, fun other params' block' hmem => ?_⟩
    rcases List.mem_cons.1 hmem with heq | hmem
    · cases heq
      exact hforeruns.functions name (contains_declared_self name params block state)
    · exact hhoisted other params' block' hmem
  | case3 tree rest hne ih =>
    obtain ⟨after, hrest, hdepth, hhoisted⟩ := ih state
    refine ⟨after, ?_, hdepth, fun name params block hmem => ?_⟩
    · rw [hoist]
      · exact hrest
      · exact hne
    · rcases List.mem_cons.1 hmem with rfl | hmem
      · exact absurd rfl (hne name params block)
      · exact hhoisted name params block hmem

/-- **A declaration that has been hoisted** counts as a step, and that is all. So does one that
declares nothing. -/
theorem eval_declaration (h : engine.limits.maxSteps = none) {tree : Tree}
    (htree : tree.isDeclaration = true) (hdepth : state.depth < maxDepth)
    (hhoisted : Hoisted [tree] state) : eval engine tree state = .ok .nothing state.counted := by
  cases tree with
  | function name params block =>
    cases name with
    | identifier name =>
      have hname := hhoisted name params block (List.mem_singleton.2 rfl)
      rw [eval_function hdepth hname, bind_of_ok (countStep_unlimited h state)]
      rfl
    | _ =>
      obtain ⟨levels, hlevels⟩ := exists_room hdepth
      rw [eval, hlevels, evalAt_unlimited h levels Tree.noConfusion]
      rfl
  | _ => cases htree

/-! ### One tree after the other -/

theorem evalSequence_of_ok {eval : Tree → Eval Value} {tree : Tree} {value : Value}
    (h : eval tree state = .ok value after) (rest : List Tree) :
    evalSequence eval (tree :: rest) state = evalSequence eval rest after :=
  bind_of_ok h _

theorem evalSequence_of_error {eval : Tree → Eval Value} {tree : Tree} {exit : Exit}
    (h : eval tree state = .error exit after) (rest : List Tree) :
    evalSequence eval (tree :: rest) state = .error exit after :=
  bind_of_error h _

/-- **Declarations that have been hoisted may be left out.** -/
theorem evalSequence_others (h : engine.limits.maxSteps = none) (hdepth : state.depth < maxDepth)
    (hhoisted : Hoisted trees state) :
    Recount (evalSequence (eval engine) trees state)
      (evalSequence (eval engine) (trees.filter (!·.isDeclaration)) state) := by
  induction trees generalizing state with
  | nil => exact .refl _
  | cons tree rest ih =>
    have hrest : Hoisted rest state := hhoisted.subset fun _ => List.mem_cons_of_mem tree
    by_cases htree : tree.isDeclaration = true
    · have hself : Hoisted [tree] state := hhoisted.subset fun other hother => by
        obtain rfl := List.mem_singleton.1 hother
        exact List.mem_cons_self ..
      have hvalue := eval_declaration h htree hdepth hself
      rw [List.filter_cons_of_neg (by simpa using htree), evalSequence_of_ok hvalue]
      -- what follows starts with one step more than it does without the declaration
      have hlater := @ih state.counted hdepth hrest
      exact hlater.trans (recounts_evalSequence h _ state (state.steps + 1)).symm
    · rw [List.filter_cons_of_pos (by simpa using htree)]
      cases hvalue : eval engine tree state with
      | ok value after =>
        have hafter := registered_eval hvalue
        rw [evalSequence_of_ok hvalue, evalSequence_of_ok hvalue]
        exact ih (by rwa [hafter.restored.depth]) (hrest.registered hafter)
      | error exit after =>
        rw [evalSequence_of_error hvalue, evalSequence_of_error hvalue]
        exact .refl _

/-! ### Up to the tree that stops a body -/

/-- The trees of a body up to the first one that is no declaration and that does not come to a value
when they are evaluated one after the other. -/
def untilStop (engine : Engine) : List Tree → State → List Tree
  | [], _ => []
  | tree :: rest, state =>
    match eval engine tree state with
    | .ok _ after => tree :: untilStop engine rest after
    | .error _ _ => if tree.isDeclaration then tree :: rest else [tree]

theorem mem_of_mem_untilStop {tree : Tree} (h : tree ∈ untilStop engine body state) :
    tree ∈ body := by
  induction body generalizing state with
  | nil => exact h
  | cons first rest ih =>
    rw [untilStop] at h
    split at h
    · rcases List.mem_cons.1 h with rfl | h
      · exact List.mem_cons_self ..
      · exact List.mem_cons_of_mem first (ih h)
    · split at h
      · exact h
      · obtain rfl := List.mem_singleton.1 h
        exact List.mem_cons_self ..

/-- **Nothing behind a stop is evaluated.** -/
theorem evalSequence_untilStop (engine : Engine) (body : List Tree) (state : State) :
    evalSequence (eval engine) (untilStop engine body state) state =
      evalSequence (eval engine) body state := by
  induction body generalizing state with
  | nil => rfl
  | cons tree rest ih =>
    rw [untilStop]
    cases hvalue : eval engine tree state with
    | ok value after =>
      dsimp only
      rw [evalSequence_of_ok hvalue, evalSequence_of_ok hvalue, ih]
    | error exit after =>
      dsimp only
      split
      · rfl
      · rw [evalSequence_of_error hvalue, evalSequence_of_error hvalue]

/-! ### At the depth where no tree can be evaluated -/

theorem eval_hole (engine : Engine) (state : State) :
    eval engine .hole state = .ok .nothing state := by
  unfold eval evalAt
  rfl

theorem evalSequence_holes (engine : Engine) (h : ∀ tree ∈ trees, tree = .hole) (state : State) :
    evalSequence (eval engine) trees state = .ok () state := by
  induction trees with
  | nil => rfl
  | cons tree rest ih =>
    obtain ⟨rfl, hrest⟩ := List.forall_mem_cons.1 h
    rw [evalSequence_of_ok (eval_hole engine state), ih hrest]

theorem eval_exhausted (h : engine.limits.maxSteps = none) (hdepth : maxDepth ≤ state.depth)
    {tree : Tree} (hne : tree ≠ .hole) :
    eval engine tree state =
      .error (.failed (.script (.execution (.evaluationDepth maxDepth) engine.file)))
        state.counted := by
  have hroom : room state = 0 := Nat.sub_eq_zero_of_le hdepth
  rw [eval, hroom, evalAt_zero engine hne, bind_of_ok (countStep_unlimited h state)]
  rfl

theorem evalSequence_exhausted (h : engine.limits.maxSteps = none)
    (hdepth : maxDepth ≤ state.depth) (htrees : ∃ tree ∈ trees, tree ≠ .hole) :
    evalSequence (eval engine) trees state =
      .error (.failed (.script (.execution (.evaluationDepth maxDepth) engine.file)))
        state.counted := by
  induction trees with
  | nil => simp at htrees
  | cons tree rest ih =>
    by_cases hne : tree = .hole
    · subst hne
      rw [evalSequence_of_ok (eval_hole engine state), ih (by simpa using htrees)]
    · exact evalSequence_of_error (eval_exhausted h hdepth hne) rest

/-- Where no tree can be evaluated, the trees up to the stop hold one that cannot. -/
theorem exists_untilStop (h : engine.limits.maxSteps = none) (hdepth : maxDepth ≤ state.depth)
    (hbody : ∃ tree ∈ body, tree ≠ .hole) : ∃ tree ∈ untilStop engine body state, tree ≠ .hole := by
  induction body with
  | nil => simp at hbody
  | cons tree rest ih =>
    by_cases hne : tree = .hole
    · subst hne
      have hrest := ih (by simpa using hbody)
      simpa [untilStop, eval_hole engine state] using hrest
    · refine ⟨tree, ?_, hne⟩
      rw [untilStop, eval_exhausted h hdepth hne]
      dsimp only
      split <;> exact List.mem_cons_self ..

/-! ### Declarations first -/

/-- The declarations of a body, and then its other trees up to the one that stops it. -/
def gathered (engine : Engine) (body : List Tree) (state : State) : List Tree :=
  body.filter (·.isDeclaration) ++
    (untilStop engine body (final (hoist body state))).filter (!·.isDeclaration)

theorem mem_of_mem_gathered {tree : Tree} (h : tree ∈ gathered engine body state) :
    tree ∈ body := by
  rcases List.mem_append.1 h with h | h
  · exact (List.mem_filter.1 h).1
  · exact mem_of_mem_untilStop ((List.mem_filter.1 h).1)

theorem mem_gathered {tree : Tree} (h : tree ∈ untilStop engine body (final (hoist body state))) :
    tree ∈ gathered engine body state := by
  by_cases htree : tree.isDeclaration = true
  · exact List.mem_append_left _ (List.mem_filter.2 ⟨mem_of_mem_untilStop h, htree⟩)
  · exact List.mem_append_right _ (List.mem_filter.2 ⟨h, by simpa using htree⟩)

/-- The same functions are declared, in the same order. -/
theorem hoist_gathered (engine : Engine) (body : List Tree) (state : State) :
    hoist (gathered engine body state) = hoist body := by
  have hdeclarations : hoist (body.filter (·.isDeclaration)) = hoist body := by
    induction body using hoist.induct with
    | case1 => rfl
    | case2 name params block rest ih =>
      rw [List.filter_cons_of_pos rfl, hoist, hoist, ih]
    | case3 tree rest hne ih =>
      by_cases htree : tree.isDeclaration = true
      · rw [List.filter_cons_of_pos htree, hoist, hoist, ih]
        · exact hne
        · exact hne
      · rw [List.filter_cons_of_neg htree, hoist, ih]
        exact hne
  rw [gathered, hoist_append_others, hdeclarations]
  intro tree htree
  exact Tree.isFunction_eq_false (by simpa using (List.mem_filter.1 htree).2)

/-- Without its declarations, what has been gathered is what stops the body. -/
theorem filter_gathered (engine : Engine) (body : List Tree) (state : State) :
    (gathered engine body state).filter (!·.isDeclaration) =
      (untilStop engine body (final (hoist body state))).filter (!·.isDeclaration) := by
  rw [gathered, List.filter_append, List.filter_filter, List.filter_filter]
  simp

/-- **Once its functions are declared, a body does the same in either order.** -/
theorem evalSequence_gathered (h : engine.limits.maxSteps = none)
    (hhoist : hoist body state = .ok () after) :
    Recount (evalSequence (eval engine) body after)
      (evalSequence (eval engine) (gathered engine body state) after) := by
  obtain ⟨_, hagain, -, hhoisted⟩ := exists_hoist body state
  cases hhoist.symm.trans hagain
  have hfinal : final (hoist body state) = after := by rw [hhoist, final_ok]
  by_cases hdepth : after.depth < maxDepth
  · have hstop : Hoisted (untilStop engine body after) after :=
      hhoisted.subset fun _ => mem_of_mem_untilStop
    have hgathered : Hoisted (gathered engine body state) after :=
      hhoisted.subset fun _ => mem_of_mem_gathered
    -- both orders come down to the trees up to the stop, without any declarations
    have hfirst := evalSequence_others h hdepth hstop
    have hsecond := evalSequence_others h hdepth hgathered
    rw [evalSequence_untilStop] at hfirst
    rw [filter_gathered, hfinal] at hsecond
    exact hfirst.trans hsecond.symm
  · have hdeep : maxDepth ≤ after.depth := Nat.le_of_not_lt hdepth
    by_cases hholes : ∀ tree ∈ body, tree = .hole
    · rw [evalSequence_holes engine hholes,
        evalSequence_holes engine fun tree htree => hholes tree (mem_of_mem_gathered htree)]
      exact .refl _
    · have hbody : ∃ tree ∈ body, tree ≠ .hole := by simpa using hholes
      obtain ⟨tree, htree, hne⟩ := exists_untilStop h hdeep hbody
      rw [← hfinal] at htree
      rw [evalSequence_exhausted h hdeep hbody,
        evalSequence_exhausted h hdeep ⟨tree, mem_gathered htree, hne⟩]
      exact .refl _

/-! ### Programs, blocks and functions -/

theorem recount_execute (h : engine.limits.maxSteps = none) (body : List Tree) (state : State) :
    Recount (execute engine body state) (execute engine (gathered engine body state) state) := by
  obtain ⟨after, hhoist, -, -⟩ := exists_hoist body state
  rw [execute, execute, hoist_gathered, bind_of_ok hhoist, bind_of_ok hhoist]
  exact (evalSequence_gathered h hhoist).stopAtReturn

/-- The levels that are left stay the same from one tree to the next. -/
theorem evalSequence_evalAt (engine : Engine) (trees : List Tree) (state : State) :
    evalSequence (evalAt engine (room state)) trees state =
      evalSequence (eval engine) trees state := by
  induction trees generalizing state with
  | nil => rfl
  | cons tree rest ih =>
    cases hvalue : eval engine tree state with
    | ok value after =>
      have hroom : room after = room state := by
        rw [room, room, (registered_eval hvalue).restored.depth]
      have hlevel : evalAt engine (room state) tree state = .ok value after := hvalue
      rw [evalSequence_of_ok hvalue, evalSequence_of_ok hlevel, ← ih, hroom]
    | error exit after =>
      have hlevel : evalAt engine (room state) tree state = .error exit after := hvalue
      rw [evalSequence_of_error hvalue, evalSequence_of_error hlevel]

/-- A block with a level to spare declares its functions, evaluates its trees, and has no value. -/
theorem eval_block (h : engine.limits.maxSteps = none) (hdepth : state.depth < maxDepth)
    (hhoist : hoist body state.inside = .ok () after) :
    eval engine (.block body) state = mapFinal State.outside
      ((evalSequence (eval engine) body >>= fun _ => pure .nothing) after) := by
  obtain ⟨levels, hlevels⟩ := exists_room hdepth
  obtain ⟨_, hagain, hafter, -⟩ := exists_hoist body state.inside
  cases hhoist.symm.trans hagain
  have hroom : room after = levels := by
    have hinside : after.depth = state.depth + 1 := hafter
    unfold room at hlevels ⊢
    omega
  have hlayer : layer engine (evalAt engine levels) (.block body) state.inside =
      (evalSequence (evalAt engine levels) body >>= fun _ => pure .nothing) after :=
    bind_of_ok hhoist _
  have htrees : (evalSequence (evalAt engine levels) body >>= fun _ => pure Value.nothing) after =
      (evalSequence (eval engine) body >>= fun _ => pure Value.nothing) after := by
    rw [bind_eq, bind_eq, ← hroom, evalSequence_evalAt]
  rw [eval, hlevels, evalAt_unlimited h levels Tree.noConfusion, hlayer, htrees]

theorem recount_block (h : engine.limits.maxSteps = none) (body : List Tree) (state : State) :
    Recount (eval engine (.block body) state)
      (eval engine (.block (gathered engine body state.inside)) state) := by
  by_cases hdepth : state.depth < maxDepth
  · obtain ⟨after, hhoist, -, -⟩ := exists_hoist body state.inside
    have hgathered : hoist (gathered engine body state.inside) state.inside = .ok () after := by
      rw [hoist_gathered, hhoist]
    rw [eval_block h hdepth hhoist, eval_block h hdepth hgathered]
    have hbody := (evalSequence_gathered h hhoist).bind_pure Value.nothing
    exact hbody.mapFinal fun _ _ => rfl
  · have hdeep : maxDepth ≤ state.depth := Nat.le_of_not_lt hdepth
    rw [eval_exhausted h hdeep Tree.noConfusion, eval_exhausted h hdeep Tree.noConfusion]
    exact .refl _

theorem recount_call (h : engine.limits.maxSteps = none) (body : List Tree) (state : State)
    (name : String) (params : List (Option String)) (values : List Value) :
    Recount (call engine ⟨name, params, .block body⟩ values state)
      (call engine ⟨name, params, .block
        (gathered engine body (state.calling name params values).inside)⟩ values state) := by
  have hcall : ∀ body, call engine ⟨name, params, .block body⟩ values state =
      if engine.limits.maxCallDepth ≤ state.callDepth then
        .error (.failed (.script (.execution (.callDepth engine.limits.maxCallDepth name)
          engine.file))) state
      else mapFinal State.leave
        (returning (eval engine (.block body)) (state.calling name params values)) := fun body => by
    rw [call, callFunction_apply, inCall_apply]
    rfl
  rw [hcall, hcall]
  split
  · exact .refl _
  · exact (recount_block h body _).returning.mapFinal fun _ _ => rfl

/-- **It makes no difference where in a body its functions are declared, and nothing behind a stop
is evaluated.** Without a bound on steps, a body and its declarations, followed by its other trees
up to the first of them that does not come to a value, end in the same way, with the same frames,
world and log: as a program, as a block, and as the body of a function that is called. -/
theorem runs_gathered (h : engine.limits.maxSteps = none) (body : List Tree) (state : State) :
    Recount (execute engine body state) (execute engine (gathered engine body state) state) ∧
    Recount (eval engine (.block body) state)
      (eval engine (.block (gathered engine body state.inside)) state) ∧
    ∀ name params values,
      Recount (call engine ⟨name, params, .block body⟩ values state)
        (call engine ⟨name, params, .block
          (gathered engine body (state.calling name params values).inside)⟩ values state) :=
  ⟨recount_execute h body state, recount_block h body state, recount_call h body state⟩

/-- `function later() { shown = 1; }`. -/
def later : Tree :=
  .function (.identifier "later") [] (.block [.expressionStatement
    (.assignment .assign (.identifier "shown") (.number 1))])

/-- `later();`. -/
def callLater : Tree :=
  .expressionStatement (.call (.identifier "later") [])

/-- `later(); function later() { shown = 1; } return; function later() {} missing;`. -/
def scattered : List Tree :=
  [callLater, later, .returnStatement .hole, .function (.identifier "later") [] (.block []),
    .expressionStatement (.identifier "missing")]

/-- Of two functions of one name, the one that stands behind the stop counts, here as well as when
both stand in front. What nothing declares is never looked for. -/
theorem runs_gathered_scattered :
    let engine : Engine := ⟨none, .standard, .idle⟩
    let state : State := .initial [] (.ofStore .empty)
    let ordered := [later, .function (.identifier "later") [] (.block []), callLater,
      .returnStatement .hole]
    engine.limits.maxSteps = none ∧
    Recount (execute engine scattered state) (execute engine ordered state) ∧
    Recount (eval engine (.block scattered) state) (eval engine (.block ordered) state) ∧
    Recount (call engine ⟨"f", [], .block scattered⟩ [] state)
      (call engine ⟨"f", [], .block ordered⟩ [] state) := by
  intro engine state ordered
  obtain ⟨hexecute, hblock, hcall⟩ := @runs_gathered engine rfl scattered state
  have hprogram : gathered engine scattered state = ordered := by decide +kernel
  have hinside : gathered engine scattered state.inside = ordered := by decide +kernel
  have hcalled : gathered engine scattered (state.calling "f" [] []).inside = ordered := by
    decide +kernel
  rw [hprogram] at hexecute
  rw [hinside] at hblock
  have hfunction := hcall "f" [] []
  rw [hcalled] at hfunction
  exact ⟨rfl, hexecute, hblock, hfunction⟩

end Evaluation

end PageScript
