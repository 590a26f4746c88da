import PageScript.Embedding.Stock
import PageScript.Proofs.Evaluation.ControlState
import PageScript.Proofs.Evaluation.Failures
import PageScript.Proofs.Evaluation.Monitoring

/-!
# Nesting is bounded, so every run ends

Functions of a script can call each other and themselves, the host can call back, and steps need not
be limited. What ends a run all the same is that evaluations nest to a bounded depth: a tree takes a
level, and the body of a function takes one more, whoever calls it. Within its level a tree goes
through finite lists only, and so does an act of the host.

* `turn` — what a tree does, where evaluation is given for the trees inside of it and for the bodies
  of functions: the recursion of evaluation, without a bound on how often it is taken;
* `turns` — so many turns, and anything in place of what is nested deeper;
* `executeWithin` — a program in so many turns;
* `turns_eq` — beyond the levels that are left, turns are never taken;
* `turn_eq_self_iff` — so the recursion has one solution, which is evaluation;
* `run_bounded` — every run ends within `maxDepth + 1` turns, and at each of its moments the depth of
  evaluations and the number of calls are within their bounds.

The depth is counted in the state, and a tree looks it up there before it takes its level. That the
turns come to an end therefore rests on the count being right, in the bodies of functions that the
host calls as anywhere else.
-/

namespace PageScript.Evaluation

open Eval

/-! ### Turns of the recursion -/

/-- What a tree does, where `eval` does what is inside of it. -/
def turn (engine : Engine) (eval : Tree → Eval Value) : Tree → Eval Value
  | .hole => return .nothing
  | tree => do
    countStep engine
    if maxDepth ≤ (← get).depth then fail engine (.evaluationDepth maxDepth)
    else deeper (layer engine eval tree)

/-- What a tree does in a number of turns, one inside the other, and with `beyond` in place of all
evaluations that are nested deeper. -/
def turns (engine : Engine) (beyond : Tree → Eval Value) : Nat → Tree → Eval Value
  | 0 => beyond
  | levels + 1 => turn engine (turns engine beyond levels)

/-- A whole program, in a number of turns for each of its trees. -/
def executeWithin (engine : Engine) (beyond : Tree → Eval Value) (levels : Nat) (body : List Tree) :
    Eval Unit := do
  hoist body
  stopAtReturn engine (evalSequence (turns engine beyond levels) body)

theorem turn_of_ne (engine : Engine) (eval : Tree → Eval Value) {tree : Tree} (h : tree ≠ .hole) :
    turn engine eval tree = (countStep engine >>= fun _ => peek (·.depth) >>= fun depth =>
      if maxDepth ≤ depth then fail engine (.evaluationDepth maxDepth)
      else deeper (layer engine eval tree)) := by
  cases tree <;> first | exact absurd rfl h | rfl

/-- At a depth, with a number of calls that is good. -/
def Nested (good : Nat → Prop) (depth : Nat) : Nat → Nat → Prop := fun depth' calls =>
  depth' = depth ∧ good calls

/-- Evaluations at a depth that do the same there and come back to it. Whatever they fail with is
allowed. -/
abbrev AlikeAt {α : Type} (good : Nat → Prop) (depth : Nat) (x y : Eval α) : Prop :=
  Alike (Nested good depth) (fun _ => True) x y

namespace AlikeAt

variable {engine : Engine} {good : Nat → Prop} {depth : Nat}

/-- What a layer does besides goes on alike. -/
def congruence (engine : Engine) (good : Nat → Prop) (depth : Nat) : Congruence engine engine :=
  Alike.congruence (Nested good depth) (fun _ _ _ => trivial)
    fun _ _ => Act.relays_all _ fun _ => trivial

theorem deeper {x y : Eval Value} (h : AlikeAt good (depth + 1) x y) :
    AlikeAt good depth (deeper x) (deeper y) := by
  refine Alike.deeper h ?_ ?_
  · exact fun hplace => ⟨congrArg (· + 1) hplace.1, hplace.2⟩
  · exact fun hplace => ⟨congrArg (· - 1) hplace.1, hplace.2⟩

/-- The depth that is looked up is the depth of the place. -/
theorem look {f : Nat → Eval Value} {y : Eval Value} (h : AlikeAt good depth (f depth) y) :
    AlikeAt good depth (peek (·.depth) >>= f) y := by
  rintro state ⟨rfl, hcalls⟩
  exact h state ⟨rfl, hcalls⟩

theorem exhausted : AlikeAt good depth (fail engine (.evaluationDepth maxDepth) : Eval Value)
    (fail engine (.evaluationDepth maxDepth)) :=
  .throw fun _ _ => trivial

variable (hup : ∀ calls : Nat, ¬ engine.limits.maxCallDepth ≤ calls → good calls → good (calls + 1))
  (hdown : ∀ calls, good calls → good (calls - 1))
include hup hdown

/-- A body is nested no deeper than the call of its function. -/
theorem callFunction {eval eval' : Tree → Eval Value}
    (h : ∀ tree, AlikeAt good depth (eval tree) (eval' tree)) (closure : Closure)
    (values : List Value) :
    AlikeAt good depth (callFunction engine eval closure values)
      (callFunction engine eval' closure values) := by
  refine Alike.callFunction (h closure.body) ?_ ?_ (fun _ _ => trivial) values
  · exact fun hcalls hplace => ⟨hplace.1, hup _ hcalls hplace.2⟩
  · exact fun hplace => ⟨hplace.1, hdown _ hplace.2⟩

theorem layer {eval eval' : Tree → Eval Value}
    (h : ∀ tree, AlikeAt good depth (eval tree) (eval' tree)) (tree : Tree) :
    AlikeAt good depth (layer engine eval tree) (layer engine eval' tree) :=
  (congruence engine good depth).layer (callFunction hup hdown h) tree fun operand _ => h operand

end AlikeAt

/-- **Turns beyond the levels that are left are never taken.** -/
theorem turns_eq (engine : Engine) (beyond : Tree → Eval Value) {depth room levels : Nat}
    (hroom : maxDepth - depth = room) (hlevels : room < levels) (tree : Tree) :
    AlikeAt (fun _ => True) depth (turns engine beyond levels tree) (evalAt engine room tree) := by
  -- the induction is on the levels that are left: with each turn there is one less of them
  induction room generalizing depth levels tree with
  | zero =>
    obtain ⟨levels, rfl⟩ := Nat.exists_eq_succ_of_ne_zero (Nat.pos_iff_ne_zero.1 hlevels)
    by_cases hole : tree = .hole
    · subst hole
      exact .pure _
    · rw [turns, turn_of_ne engine _ hole, evalAt_zero engine hole]
      refine (Alike.countStep fun _ => trivial).bind fun _ => AlikeAt.look ?_
      have hdeep : maxDepth ≤ depth := by omega
      rw [if_pos hdeep]
      exact AlikeAt.exhausted
  | succ room ih =>
    obtain ⟨levels, rfl⟩ := Nat.exists_eq_succ_of_ne_zero (Nat.ne_zero_of_lt hlevels)
    by_cases hole : tree = .hole
    · subst hole
      exact .pure _
    · rw [turns, turn_of_ne engine _ hole, evalAt_succ engine room hole]
      have hbelow : ∀ tree, AlikeAt (fun _ => True) (depth + 1) (turns engine beyond levels tree)
          (evalAt engine room tree) := ih (by omega) (by omega)
      have hlayer : AlikeAt (fun _ => True) (depth + 1)
          (layer engine (turns engine beyond levels) tree) (layer engine (evalAt engine room) tree) :=
        AlikeAt.layer (fun _ _ _ => trivial) (fun _ _ => trivial) hbelow tree
      refine (Alike.countStep fun _ => trivial).bind fun _ => AlikeAt.look ?_
      have hshallow : ¬ maxDepth ≤ depth := by omega
      rw [if_neg hshallow]
      exact hlayer.deeper

theorem turns_eq_eval (engine : Engine) (beyond : Tree → Eval Value) {levels : Nat}
    (h : maxDepth < levels) : turns engine beyond levels = eval engine := by
  funext tree state
  have hroom : room state < levels := Nat.lt_of_le_of_lt (Nat.sub_le ..) h
  exact (turns_eq engine beyond rfl hroom tree state ⟨rfl, trivial⟩).1

/-- **Evaluation is the one solution of its recursion.** -/
theorem turn_eq_self_iff (engine : Engine) (eval' : Tree → Eval Value) :
    turn engine eval' = eval' ↔ eval' = eval engine := by
  constructor
  · intro hself
    have hturns : ∀ levels, turns engine eval' levels = eval' := by
      intro levels
      induction levels with
      | zero => rfl
      | succ levels ih => rw [turns, ih, hself]
    rw [← hturns (maxDepth + 1), turns_eq_eval engine eval' (Nat.lt_succ_self maxDepth)]
  · rintro rfl
    have hnext := turns_eq_eval engine (eval engine) (Nat.lt_succ_of_lt (Nat.lt_succ_self maxDepth))
    rwa [turns, turns_eq_eval engine _ (Nat.lt_succ_self maxDepth)] at hnext

/-! ### The depths at every moment -/

/-- A monitor who is silent at the beginning and at the end is not there. -/
theorem AlikeAt.between {good : Nat → Prop} {depth : Nat} {monitor : Monitor} {before : Event}
    {after : Except Exit Value → Event} {x y : Eval Value}
    (hbefore : ∀ state, Nested good depth state.depth state.callDepth →
      monitor before state = none)
    (hafter : ∀ state, Nested good depth (final (y state)).depth (final (y state)).callDepth →
      monitor (after (outcome (y state))) (final (y state)) = none)
    (h : AlikeAt good depth x y) : AlikeAt good depth (between monitor before after x) y := by
  intro state hstate
  obtain ⟨hsame, hfair⟩ := h state hstate
  refine ⟨?_, hfair⟩
  have hend := hafter state hfair.place
  rw [← hsame] at hend
  exact (between_of_none (hbefore state hstate) hend).trans hsame

/-- A monitor is never heard who is silent around whatever does the same at a depth. -/
def Unheard.ofAlike {engine : Engine} {monitor : Monitor} (good : Nat → Prop)
    (hup : ∀ calls : Nat, ¬ engine.limits.maxCallDepth ≤ calls → good calls → good (calls + 1))
    (hdown : ∀ calls, good calls → good (calls - 1))
    (htree : ∀ {depth room : Nat} {tree : Tree} {x : Eval Value}, maxDepth - depth = room + 1 →
      AlikeAt good (depth + 1) x (layer engine (Evaluation.evalAt engine room) tree) →
      AlikeAt good (depth + 1) (Evaluation.between monitor (.begun tree) (.ended tree) x)
        (layer engine (Evaluation.evalAt engine room) tree))
    (hcalled : ∀ {depth : Nat} {function : Value} {values : List Value} {x y : Eval Value},
      0 < depth → depth ≤ maxDepth → AlikeAt good depth x y →
      AlikeAt good depth (Evaluation.between monitor (.called function values)
        (.answered function values) x) y) : Unheard engine monitor where
  level depth := AlikeAt.congruence engine good depth
  chosen h state hstate := h state hstate.1 state hstate
  count _ := Alike.countStep fun _ => trivial
  exhausted _ := AlikeAt.exhausted
  deeper := AlikeAt.deeper
  call h := AlikeAt.callFunction hup hdown h
  stopAtReturn := Alike.stopAtReturn
  tree := htree
  called := hcalled

/-- The number of calls does not get beyond its bound. -/
def CallsBounded (engine : Engine) (calls : Nat) : Prop :=
  (calls : Int) ≤ max 0 engine.limits.maxCallDepth

theorem CallsBounded.up {engine : Engine} {calls : Nat}
    (hlimit : ¬ engine.limits.maxCallDepth ≤ calls) : CallsBounded engine (calls + 1) := by
  unfold CallsBounded
  omega

theorem CallsBounded.down {engine : Engine} {calls : Nat} (h : CallsBounded engine calls) :
    CallsBounded engine (calls - 1) := by
  unfold CallsBounded at *
  omega

/-- A moment within a level of evaluation, with both depths within their bounds. -/
structure Bounded (engine : Engine) (moment : State) : Prop where
  pos : 0 < moment.depth
  depth : moment.depth ≤ maxDepth
  calls : CallsBounded engine moment.callDepth

/-- A monitor who is silent within the bounds is never heard. -/
def Unheard.ofBounded {engine : Engine} {monitor : Monitor}
    (hsilent : ∀ event state, Bounded engine state → monitor event state = none) :
    Unheard engine monitor :=
  have hquiet : ∀ {depth : Nat}, 0 < depth → depth ≤ maxDepth → ∀ event state,
      Nested (CallsBounded engine) depth state.depth state.callDepth →
        monitor event state = none := by
    rintro depth hpos hdepth event state ⟨rfl, hcalls⟩
    exact hsilent event state ⟨hpos, hdepth, hcalls⟩
  .ofAlike (CallsBounded engine) (fun _ hlimit _ => .up hlimit) (fun _ => .down)
    (fun hroom h => h.between (hquiet (Nat.succ_pos _) (by omega) _)
      fun _ => hquiet (Nat.succ_pos _) (by omega) _ _)
    fun hpos hdepth h => h.between (hquiet hpos hdepth _) fun _ => hquiet hpos hdepth _ _

theorem reaches_bounded {engine : Engine} {body : List Tree} {start : State}
    (hstart : CallsBounded engine start.callDepth) {event : Event} {moment : State}
    (h : Reaches engine body start event moment) : Bounded engine moment :=
  h.of_unheard fun _ hsilent =>
    ((Unheard.ofBounded hsilent).execute start.depth body start ⟨rfl, hstart⟩).1

/-- **Nesting is bounded, so every run ends.** Take any program and any host, with or without a
limit on steps, and a state in which no more calls are running than may be. The program does in
`maxDepth + 1` turns of the recursion what it does at all, whatever is put in place of the turns
beyond. At every moment, some evaluation has its level, no more than `maxDepth` have theirs, and no
more calls are running than the limit on calls says, or none if that is negative. In the end, both
depths are what they were. -/
theorem run_bounded (engine : Engine) (body : List Tree) {start : State}
    (hstart : (start.callDepth : Int) ≤ max 0 engine.limits.maxCallDepth) :
    (∀ beyond, executeWithin engine beyond (maxDepth + 1) body start =
      execute engine body start) ∧
    (∀ event moment, Reaches engine body start event moment →
      0 < moment.depth ∧ moment.depth ≤ maxDepth ∧
        (moment.callDepth : Int) ≤ max 0 engine.limits.maxCallDepth) ∧
    (final (execute engine body start)).depth = start.depth ∧
    (final (execute engine body start)).callDepth = start.callDepth := by
  have hrestored := drift_restored.moves_execute engine body start
  refine ⟨fun beyond => ?_, fun event moment h => ?_, hrestored.depth, hrestored.callDepth⟩
  · rw [executeWithin, turns_eq_eval engine beyond (Nat.lt_succ_self maxDepth)]
    rfl
  · have hbounded := reaches_bounded hstart h
    exact ⟨hbounded.pos, hbounded.depth, hbounded.calls⟩

/-- `function f() { call(f) } f()`, where `call` calls what it is given. -/
def endless : List Tree :=
  [.function (.identifier "f") [] (.block [.expressionStatement
    (.call (.identifier "call") [.identifier "f"])]),
    .expressionStatement (.call (.identifier "f") [])]

/-- The levels are exhausted long before the calls are. -/
theorem run_bounded_endless :
    let engine : Engine := ⟨none, ⟨none, 1000⟩, .ofStock #[.invoke]⟩
    let start := State.initial [("call", .callable ⟨"invoke", 0⟩)] (.ofStore .empty)
    (start.callDepth : Int) ≤ max 0 engine.limits.maxCallDepth ∧
    executeWithin engine (fun _ => pure .nothing) (maxDepth + 1) endless start =
      execute engine endless start ∧
    (∀ event moment, Reaches engine endless start event moment →
      moment.depth ≤ 256 ∧ moment.callDepth ≤ 1000) ∧
    (final (execute engine endless start)).steps = 342 := by
  intro engine start
  have hstart : (start.callDepth : Int) ≤ max 0 engine.limits.maxCallDepth := by decide
  obtain ⟨hturns, hmoments, -⟩ := run_bounded engine endless hstart
  refine ⟨hstart, hturns _, fun event moment h => ?_, by decide +kernel⟩
  obtain ⟨-, hdepth, hcalls⟩ := hmoments event moment h
  exact ⟨hdepth, Int.ofNat_le.1 hcalls⟩

end PageScript.Evaluation
