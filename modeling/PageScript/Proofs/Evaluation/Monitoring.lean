import PageScript.Proofs.Evaluation.Drift

/-!
# Moments of a run

A statement about every moment of a run can be said through those who follow the run from moment to
moment: a monitor is told of each tree that begins and ends, and of each value that is called and
has answered, together with the state in which that happens. It may put an ending of its own in
place of whatever would follow. A moment is reached if a monitor is heard who speaks at that moment
and at no other: the state that it goes on from may have a log that no run could have without it,
and nothing that follows can make a log shorter.

* `Event` — what happens at a moment;
* `Monitor` — what is put in place of what follows, if anything;
* `monitoredAt`, `monitored`, `monitoredExecute` — evaluation and whole programs under a monitor;
* `Reaches` — a program comes to a moment;
* `Congruence.monitoredLayer` — one layer, where the trees inside and the calls are monitored;
* `Unheard` — relations, one for each depth, that a monitored run keeps to the run without a monitor;
* `Unheard.evalAt`, `Unheard.execute` — whole evaluations and programs then do, too;

Layers are the same with and without a monitor, but for the calls in them. A callable of the host
that calls back is followed through the bodies of the functions that it calls.
-/

namespace PageScript.Evaluation

open Eval

/-- What happens at a moment of a run. -/
inductive Event where
  /-- A tree has been counted and has taken its level. -/
  | begun (tree : Tree)
  /-- A tree has come to its ending, and has its level still. -/
  | ended (tree : Tree) (ending : Except Exit Value)
  /-- A value is called with arguments. -/
  | called (function : Value) (values : List Value)
  /-- A value that was called with arguments has come to its ending. -/
  | answered (function : Value) (values : List Value) (ending : Except Exit Value)

/-- What is put in place of what follows on an event in a state, if anything. -/
abbrev Monitor := Event → State → Option (EStateM.Result Exit State Value)

/-- The monitor who puts something in place of a tree that begins at a moment, and of nothing else. -/
def Monitor.ofBegun (tree : Tree) (moment : State) (result : EStateM.Result Exit State Value) :
    Monitor
  | .begun tree', state => if tree' = tree ∧ state = moment then some result else none
  | _, _ => none

/-- An evaluation between two events. -/
def between (monitor : Monitor) (before : Event) (after : Except Exit Value → Event)
    (x : Eval Value) : Eval Value := fun state =>
  match monitor before state with
  | some result => result
  | none => (monitor (after (outcome (x state))) (final (x state))).getD (x state)

section

variable (engine : Engine) (monitor : Monitor)

/-- What a tree does, where what it calls is monitored. -/
def monitoredLayer (eval : Tree → Eval Value) : Tree → Eval Value
  | .call callee arguments =>
    evalCallWith engine eval callee arguments fun function values =>
      between monitor (.called function values) (.answered function values)
        (callValue engine eval callee function values)
  | tree => layer engine eval tree

/-- A tree under a monitor, with the given number of levels left. -/
def monitoredAt : (room : Nat) → Tree → Eval Value
  | _, .hole => return .nothing
  | 0, _ => do
    countStep engine
    fail engine (.evaluationDepth maxDepth)
  | room + 1, tree => do
    countStep engine
    deeper (between monitor (.begun tree) (.ended tree)
      (monitoredLayer engine monitor (monitoredAt room) tree))

/-- A tree under a monitor. -/
def monitored (tree : Tree) : Eval Value := fun state =>
  monitoredAt engine monitor (room state) tree state

/-- A whole program under a monitor. -/
def monitoredExecute (body : List Tree) : Eval Unit := do
  hoist body
  stopAtReturn engine (evalSequence (monitored engine monitor) body)

theorem monitoredAt_zero {tree : Tree} (h : tree ≠ .hole) :
    monitoredAt engine monitor 0 tree = (do
      countStep engine
      fail engine (.evaluationDepth maxDepth)) := by
  cases tree <;> first | exact absurd rfl h | rfl

theorem monitoredAt_succ (room : Nat) {tree : Tree} (h : tree ≠ .hole) :
    monitoredAt engine monitor (room + 1) tree = (do
      countStep engine
      deeper (between monitor (.begun tree) (.ended tree)
        (monitoredLayer engine monitor (monitoredAt engine monitor room) tree))) := by
  cases tree <;> first | exact absurd rfl h | rfl

end

/-- A program comes to a moment: a monitor who speaks at that moment only is heard. -/
def Reaches (engine : Engine) (body : List Tree) (start : State) (event : Event) (moment : State) :
    Prop :=
  ∃ monitor : Monitor,
    (∀ event' state, monitor event' state ≠ none → event' = event ∧ state = moment) ∧
    monitoredExecute engine monitor body start ≠ execute engine body start

theorem Reaches.of_begun {engine : Engine} {body : List Tree} {start : State} {tree : Tree}
    {moment : State} (result : EStateM.Result Exit State Value)
    (h : monitoredExecute engine (.ofBegun tree moment result) body start ≠
      execute engine body start) :
    Reaches engine body start (.begun tree) moment := by
  refine ⟨.ofBegun tree moment result, fun event state hspoken => ?_, h⟩
  cases event with
  | begun tree' =>
    by_cases hthere : tree' = tree ∧ state = moment
    · exact ⟨congrArg Event.begun hthere.1, hthere.2⟩
    · exact absurd (if_neg hthere) hspoken
  | _ => exact absurd rfl hspoken

/-- What goes for all moments at which nobody is heard goes for those that are reached. -/
theorem Reaches.of_unheard {engine : Engine} {body : List Tree} {start : State} {event : Event}
    {moment : State} (h : Reaches engine body start event moment) {p : Event → State → Prop}
    (hunheard : ∀ monitor : Monitor,
      (∀ event state, p event state → monitor event state = none) →
      monitoredExecute engine monitor body start = execute engine body start) :
    p event moment := by
  obtain ⟨monitor, hspeaks, hheard⟩ := h
  by_cases hp : p event moment
  · exact hp
  · refine absurd (hunheard monitor fun event' state hstate => ?_) hheard
    cases hmonitor : monitor event' state with
    | none => rfl
    | some result =>
      obtain ⟨rfl, rfl⟩ := hspeaks event' state (by rw [hmonitor]; exact Option.some_ne_none _)
      exact absurd hstate hp

/-! ### Moments at which nobody speaks -/

theorem between_of_none {monitor : Monitor} {before : Event} {after : Except Exit Value → Event}
    {x : Eval Value} {state : State} (hbefore : monitor before state = none)
    (hafter : monitor (after (outcome (x state))) (final (x state)) = none) :
    between monitor before after x state = x state := by
  unfold between
  rw [hbefore, hafter]
  rfl

namespace Congruence

variable {engine : Engine} (C : Congruence engine engine) {monitor : Monitor}

/-- A layer respects what a layer without a monitor does, if the calls in it do. -/
theorem monitoredLayer {eval eval' : Tree → Eval Value}
    (hcall : ∀ closure values, C.Rel (callFunction engine eval closure values)
      (callFunction engine eval' closure values))
    (hcalled : ∀ {function : Value} {values : List Value} {x y : Eval Value}, C.Rel x y →
      C.Rel (between monitor (.called function values) (.answered function values) x) y)
    (tree : Tree) (h : ∀ operand ∈ tree.operands, C.Rel (eval operand) (eval' operand)) :
    C.Rel (Evaluation.monitoredLayer engine monitor eval tree)
      (Evaluation.layer engine eval' tree) := by
  cases tree with
  | call callee arguments =>
    exact C.evalCallWith h fun function values => hcalled (C.callValue hcall callee function values)
  | _ => exact C.layer hcall _ h

end Congruence

/-- Relations, one for each depth, between what is done under a monitor and what is done without.
Each is about evaluations that start at its depth. -/
structure Unheard (engine : Engine) (monitor : Monitor) where
  level : Nat → Congruence engine engine
  /-- What is done in other places may be something else. -/
  chosen : ∀ {depth : Nat} {α : Type} {x y : State → Eval α},
    (∀ state, state.depth = depth → (level depth).Rel (x state) (y state)) →
    (level depth).Rel (fun state => x state state) fun state => y state state
  count : ∀ depth, (level depth).Rel (countStep engine) (countStep engine)
  exhausted : ∀ depth, (level depth).Rel (fail engine (.evaluationDepth maxDepth) : Eval Value)
    (fail engine (.evaluationDepth maxDepth))
  deeper : ∀ {depth : Nat} {x y : Eval Value}, (level (depth + 1)).Rel x y →
    (level depth).Rel (deeper x) (deeper y)
  call : ∀ {depth : Nat} {eval eval' : Tree → Eval Value},
    (∀ tree, (level depth).Rel (eval tree) (eval' tree)) → ∀ closure values,
      (level depth).Rel (callFunction engine eval closure values)
        (callFunction engine eval' closure values)
  stopAtReturn : ∀ {depth : Nat} {x y : Eval Unit}, (level depth).Rel x y →
    (level depth).Rel (stopAtReturn engine x) (stopAtReturn engine y)
  /-- The tree is given the levels that are left at its depth. -/
  tree : ∀ {depth room : Nat} {tree : Tree} {x : Eval Value}, maxDepth - depth = room + 1 →
    (level (depth + 1)).Rel x (layer engine (evalAt engine room) tree) →
    (level (depth + 1)).Rel (between monitor (.begun tree) (.ended tree) x)
      (layer engine (evalAt engine room) tree)
  called : ∀ {depth : Nat} {function : Value} {values : List Value} {x y : Eval Value},
    0 < depth → depth ≤ maxDepth → (level depth).Rel x y →
    (level depth).Rel (between monitor (.called function values) (.answered function values) x) y

namespace Unheard

variable {engine : Engine} {monitor : Monitor} (U : Unheard engine monitor)

theorem evalAt {depth : Nat} (room : Nat) (hroom : maxDepth - depth = room) (tree : Tree) :
    (U.level depth).Rel (monitoredAt engine monitor room tree) (evalAt engine room tree) := by
  -- the induction is on the levels that are left, which go with the depth
  induction room generalizing depth tree with
  | zero =>
    by_cases hole : tree = .hole
    · subst hole
      exact (U.level depth).pure _
    · rw [monitoredAt_zero engine monitor hole, evalAt_zero engine hole]
      exact (U.level depth).bind (U.count depth) fun _ => U.exhausted depth
  | succ room ih =>
    by_cases hole : tree = .hole
    · subst hole
      exact (U.level depth).pure _
    · rw [monitoredAt_succ engine monitor room hole, evalAt_succ engine room hole]
      have hbelow : ∀ tree, (U.level (depth + 1)).Rel (monitoredAt engine monitor room tree)
          (Evaluation.evalAt engine room tree) := ih (by omega)
      have hlayer := (U.level (depth + 1)).monitoredLayer (U.call hbelow)
        (U.called (Nat.succ_pos depth) (by omega)) tree fun operand _ => hbelow operand
      exact (U.level depth).bind (U.count depth) fun _ => U.deeper (U.tree hroom hlayer)

theorem eval (depth : Nat) (tree : Tree) :
    (U.level depth).Rel (monitored engine monitor tree) (Evaluation.eval engine tree) := by
  have hlevels : ∀ state : State, state.depth = depth →
      (U.level depth).Rel (monitoredAt engine monitor (room state) tree)
        (Evaluation.evalAt engine (room state) tree) := by
    rintro state rfl
    exact U.evalAt (room state) rfl tree
  have hchosen := U.chosen hlevels
  exact hchosen

theorem execute (depth : Nat) (body : List Tree) :
    (U.level depth).Rel (monitoredExecute engine monitor body) (Evaluation.execute engine body) :=
  (U.level depth).bind ((U.level depth).hoist body) fun _ =>
    U.stopAtReturn ((U.level depth).evalSequence fun tree _ => U.eval depth tree)

end Unheard

end PageScript.Evaluation
