import PageScript.Proofs.Evaluation.Failures

/-!
# Observed evaluation

How deep a run gets can be said through those who watch it: an observer is asked before each tree
takes its level, and may put an ending of its own in place of the evaluation. What an observer
cannot be brought to notice does not happen.

* `Observer` — what is put in place of the evaluation of a tree in a state, if anything;
* `observed`, `observedExecute` — evaluation and whole programs under an observer;
* `observed_of_silent` — a silent observer changes nothing;
* `Tree.reach` — the levels that a tree takes by its own text, however it is evaluated;
* `Indistinct.alike_observedAt` — two observers that agree wherever a tree's own text can lead, and
  inside calls, cannot be told apart.
-/

namespace PageScript

/-! ### The levels of a tree -/

mutual

/-- The levels that a tree takes, those of the functions that it calls left aside. The body of a
function takes none where it is declared, and neither does what stands on the left of an assignment,
but for the object of a member. -/
def Tree.reach : Tree → Nat
  | .hole => 0
  | .number _ | .string _ | .identifier _ | .function .. | .program _ => 1
  | .expressionStatement tree | .member tree _ | .declarator _ tree | .returnStatement tree =>
    tree.reach + 1
  | .additive _ left right => max left.reach right.reach + 1
  | .assignment _ left right => max left.targetReach right.reach + 1
  | .declaration trees | .block trees => Tree.reachAll trees + 1
  | .call callee arguments => max callee.reach (Tree.reachAll arguments) + 1

/-- The levels that the left side of an assignment takes. -/
def Tree.targetReach : Tree → Nat
  | .member object _ => object.reach
  | _ => 0

/-- The most levels that any of several trees takes. -/
def Tree.reachAll : List Tree → Nat
  | [] => 0
  | tree :: trees => max tree.reach (Tree.reachAll trees)

end

theorem Tree.reach_le_reachAll {trees : List Tree} {tree : Tree} (h : tree ∈ trees) :
    tree.reach ≤ Tree.reachAll trees := by
  induction trees with
  | nil => exact absurd h List.not_mem_nil
  | cons first others ih =>
    rcases List.mem_cons.1 h with rfl | h
    · exact Nat.le_max_left ..
    · exact Nat.le_trans (ih h) (Nat.le_max_right ..)

theorem Tree.reach_pos {tree : Tree} (h : tree ≠ .hole) : 0 < tree.reach := by
  cases tree <;> simp_all [Tree.reach]

/-- A tree takes one level more than any of the trees that are evaluated along with it. -/
theorem Tree.reach_operand {tree operand : Tree} (h : operand ∈ tree.operands) :
    operand.reach < tree.reach := by
  have hpair : ∀ {left right : Tree} {n : Nat}, operand ∈ [left, right] → left.reach = n →
      operand.reach < max n right.reach + 1 := by
    intro left right n hoperand hleft
    rcases List.mem_cons.1 hoperand with rfl | hoperand
    · omega
    · obtain rfl := List.mem_singleton.1 hoperand
      omega
  cases tree with
  | declaration trees | block trees => exact Nat.lt_succ_of_le (Tree.reach_le_reachAll h)
  | call callee arguments =>
    show operand.reach < max callee.reach (Tree.reachAll arguments) + 1
    rcases List.mem_cons.1 h with rfl | h
    · omega
    · have hle := Tree.reach_le_reachAll h
      omega
  | additive operator left right => exact hpair h rfl
  | assignment operator left right =>
    cases left with
    | member object property => exact hpair h rfl
    | _ =>
      obtain rfl := List.mem_singleton.1 h
      exact Nat.lt_succ_of_le (Nat.le_max_right ..)
  | expressionStatement inner | member inner property | declarator target inner
  | returnStatement inner =>
    obtain rfl := List.mem_singleton.1 h
    exact Nat.lt_succ_self _
  | _ => exact absurd h List.not_mem_nil

namespace Evaluation

open Eval

/-! ### Observers -/

/-- What is put in place of the evaluation of a tree in a state, if anything. -/
abbrev Observer := Tree → State → Option (EStateM.Result Exit State Value)

/-- The observer who never says anything. -/
def Observer.silent : Observer := fun _ _ => none

/-- An evaluation of a tree, unless the observer puts something in its place. -/
def watched (observer : Observer) (tree : Tree) (x : Eval Value) : Eval Value := fun state =>
  (observer tree state).getD (x state)

/-- A tree, with the given number of levels left, where each tree is watched from the moment that it
has been counted and looks for a level. -/
def observedAt (engine : Engine) (observer : Observer) : (room : Nat) → Tree → Eval Value
  | _, .hole => return .nothing
  | 0, tree => do
    countStep engine
    watched observer tree (fail engine (.evaluationDepth maxDepth))
  | room + 1, tree => do
    countStep engine
    watched observer tree (deeper (layer engine (observedAt engine observer room) tree))

/-- A tree under an observer. -/
def observed (engine : Engine) (observer : Observer) (tree : Tree) : Eval Value := fun state =>
  observedAt engine observer (room state) tree state

/-- A whole program under an observer. -/
def observedExecute (engine : Engine) (observer : Observer) (body : List Tree) : Eval Unit := do
  hoist body
  stopAtReturn engine (evalSequence (observed engine observer) body)

section

variable (engine : Engine) (observer : Observer)

theorem observedAt_zero {tree : Tree} (h : tree ≠ .hole) :
    observedAt engine observer 0 tree = (do
      countStep engine
      watched observer tree (fail engine (.evaluationDepth maxDepth))) := by
  cases tree <;> first | exact absurd rfl h | rfl

theorem observedAt_succ (room : Nat) {tree : Tree} (h : tree ≠ .hole) :
    observedAt engine observer (room + 1) tree = (do
      countStep engine
      watched observer tree (deeper (layer engine (observedAt engine observer room) tree))) := by
  cases tree <;> first | exact absurd rfl h | rfl

theorem observedAt_silent (room : Nat) : observedAt engine .silent room = evalAt engine room := by
  induction room with
  | zero =>
    funext tree
    by_cases hole : tree = .hole
    · subst hole
      rfl
    · rw [observedAt_zero engine .silent hole, evalAt_zero engine hole]
      rfl
  | succ room ih =>
    funext tree
    by_cases hole : tree = .hole
    · subst hole
      rfl
    · rw [observedAt_succ engine .silent room hole, evalAt_succ engine room hole, ih]
      rfl

theorem observed_silent : observed engine .silent = eval engine := by
  funext tree state
  exact congrFun (congrFun (observedAt_silent engine (room state)) tree) state

theorem observedExecute_silent (body : List Tree) :
    observedExecute engine .silent body = execute engine body := by
  rw [observedExecute, observed_silent]
  rfl

end

/-! ### Observers that cannot be told apart -/

/-- Exactly the given depths. -/
def At (depth calls : Nat) : Nat → Nat → Prop := fun depth' calls' =>
  depth' = depth ∧ calls' = calls

/-- Two observers that say the same above a ceiling of levels and inside of calls. What they say
there comes back to the state that it was said in, and brings in no failure that is not allowed. -/
structure Indistinct (engine : Engine) (ceiling base : Nat) (allowed : Failure → Prop)
    (watcher other : Observer) : Prop where
  below : ceiling < maxDepth
  causes : ∀ cause file, (∀ limit, cause ≠ .evaluationDepth limit) → allowed (.execution cause file)
  host : Relays engine allowed
  agree : ∀ tree state, state.depth < ceiling ∨ base < state.callDepth →
    watcher tree state = other tree state
  fair : ∀ tree state result, other tree state = some result →
    Fair (At state.depth state.callDepth) allowed result
  /-- Inside of calls, the levels can be exhausted. -/
  exhausted : ∀ tree state, maxDepth ≤ state.depth → base < state.callDepth →
    other tree state = none → allowed (.execution (.evaluationDepth maxDepth) engine.file)

namespace Indistinct

variable {engine : Engine} {ceiling base : Nat} {allowed : Failure → Prop}
  {watcher other : Observer} (I : Indistinct engine ceiling base allowed watcher other)
include I

/-- What a layer does besides goes on alike. -/
def congruence (depths : Nat → Nat → Prop) : Congruence engine engine :=
  Alike.congruence depths (fun cause file hcause => I.causes cause file fun limit h => by
    rw [h] at hcause
    cases hcause) I.host

theorem countStep (depth calls : Nat) :
    Alike (At depth calls) allowed (countStep engine) (countStep engine) :=
  .countStep fun _ => I.causes _ _ fun _ h => nomatch h

theorem watched {depth calls : Nat} (hplace : depth < ceiling ∨ base < calls) {x y : Eval Value}
    (tree : Tree) (h : Alike (At depth calls) allowed x y) :
    Alike (At depth calls) allowed (watched watcher tree x) (watched other tree y) := by
  rintro state ⟨rfl, rfl⟩
  unfold Evaluation.watched
  rw [I.agree tree state hplace]
  cases hother : other tree state with
  | none => exact h state ⟨rfl, rfl⟩
  | some result => exact ⟨rfl, I.fair tree state result hother⟩

/-- A layer, one level further down, where operands and bodies are alike. -/
theorem layer {depth calls : Nat} {eval eval' : Tree → Eval Value} {tree : Tree}
    (hoperands : ∀ operand ∈ tree.operands,
      Alike (At (depth + 1) calls) allowed (eval operand) (eval' operand))
    (hbodies : ∀ body, Alike (At (depth + 1) (calls + 1)) allowed (eval body) (eval' body)) :
    Alike (At depth calls) allowed (deeper (layer engine eval tree))
      (deeper (layer engine eval' tree)) := by
  have hlayer : Alike (At (depth + 1) calls) allowed (Evaluation.layer engine eval tree)
      (Evaluation.layer engine eval' tree) := by
    refine (I.congruence (At (depth + 1) calls)).layer ?_ tree hoperands
    intro closure values
    refine Alike.callFunction (hbodies closure.body) ?_ ?_ (fun _ _ => ?_) values
    · exact fun _ h => ⟨h.1, congrArg (· + 1) h.2⟩
    · exact fun h => ⟨h.1, congrArg (· - 1) h.2⟩
    · exact I.causes _ _ fun _ h => nomatch h
  refine hlayer.deeper ?_ ?_
  · exact fun h => ⟨congrArg (· + 1) h.1, h.2⟩
  · exact fun h => ⟨congrArg (· - 1) h.1, h.2⟩

/-- **Observers cannot be told apart** by a tree whose own text stays beneath the ceiling, nor by
any tree inside a call. -/
theorem alike_observedAt (room : Nat) (tree : Tree) (depth calls : Nat)
    (hroom : maxDepth ≤ depth + room)
    (hplace : base < calls ∨ calls = base ∧ depth + tree.reach ≤ ceiling) :
    Alike (At depth calls) allowed (observedAt engine watcher room tree)
      (observedAt engine other room tree) := by
  -- the induction is on the levels that are left, for all trees and places
  induction room generalizing tree depth calls with
  | zero =>
    by_cases hole : tree = .hole
    · subst hole
      exact .pure _
    · have hdeep : maxDepth ≤ depth := hroom
      -- where the levels are exhausted, a call must be running
      have hcalls : base < calls := by
        have := I.below
        omega
      rw [observedAt_zero engine watcher hole, observedAt_zero engine other hole]
      refine (I.countStep depth calls).bind fun _ => ?_
      rintro state ⟨rfl, rfl⟩
      unfold Evaluation.watched
      rw [I.agree tree state (.inr hcalls)]
      cases hother : other tree state with
      | none =>
        refine Alike.throw (fun failure hexit => ?_) state ⟨rfl, rfl⟩
        obtain rfl : _ = failure := by simpa using hexit
        exact I.exhausted tree state hdeep hcalls hother
      | some result => exact ⟨rfl, I.fair tree state result hother⟩
  | succ room ih =>
    by_cases hole : tree = .hole
    · subst hole
      exact .pure _
    · have hpos := Tree.reach_pos hole
      rw [observedAt_succ engine watcher room hole, observedAt_succ engine other room hole]
      refine (I.countStep depth calls).bind fun _ => I.watched ?_ tree (I.layer ?_ ?_)
      · omega
      · intro operand hoperand
        have hreach := Tree.reach_operand hoperand
        exact ih operand (depth + 1) calls (by omega) (by omega)
      · intro body
        exact ih body (depth + 1) (calls + 1) (by omega) (.inl (by omega))

theorem alike_observed {tree : Tree} {depth : Nat} (h : depth + tree.reach ≤ ceiling) :
    Alike (At depth base) allowed (observed engine watcher tree) (observed engine other tree) := by
  rintro state ⟨rfl, rfl⟩
  have hroom : maxDepth ≤ state.depth + room state := by
    unfold room
    omega
  exact I.alike_observedAt (room state) tree state.depth state.callDepth hroom (.inr ⟨rfl, h⟩) state
    ⟨rfl, rfl⟩

theorem alike_execute {body : List Tree} {depth : Nat}
    (h : ∀ tree ∈ body, depth + tree.reach ≤ ceiling) :
    Alike (At depth base) allowed (observedExecute engine watcher body)
      (observedExecute engine other body) := by
  have hbody := (I.congruence (At depth base)).evalSequence fun tree htree =>
    I.alike_observed (h tree htree)
  exact Alike.bind ((I.congruence (At depth base)).hoist body) fun _ => .stopAtReturn hbody

end Indistinct

end Evaluation

end PageScript
