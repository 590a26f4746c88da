import PageScript.Proofs.Evaluation.Drift

/-!
# Control state is put back

An evaluation enters frames, takes levels and starts calls, and it has six ways to end: with a
value, with a return on its way, with a failure of the script, with a fault of the host, and at one
of the three limits. Whichever way it takes, the three pieces of control state are afterwards what
they were before.

* `Scope.Extends` — the same frames in the same order, the callers untouched, no name unbound;
* `Restored` — that, the same two depths, and at least as many steps;
* `control_state_restored` — every evaluation, every call and every program restores its state.

A frame is known by its place: the stack has as many frames as before, all those beneath the active
one are the very frames of before, and the active one has at most gained names.
-/

namespace PageScript

/-- The frames of the second scope are those of the first, the active one and the global one with
more names bound at most, the waiting ones as they were. -/
structure Scope.Extends (scope scope' : Scope) : Prop where
  height : scope'.calls.length = scope.calls.length
  callers : scope'.calls.tail = scope.calls.tail
  active : ∀ name, scope.active.binds name → scope'.active.binds name
  globals : ∀ name, scope.globals.binds name → scope'.globals.binds name

namespace Scope

theorem Extends.refl (scope : Scope) : scope.Extends scope :=
  ⟨rfl, rfl, fun _ h => h, fun _ h => h⟩

theorem Extends.trans {a b c : Scope} (hab : a.Extends b) (hbc : b.Extends c) : a.Extends c where
  height := hbc.height.trans hab.height
  callers := hbc.callers.trans hab.callers
  active name h := hbc.active name (hab.active name h)
  globals name h := hbc.globals name (hab.globals name h)

theorem extends_modifyActive (scope : Scope) {change : Frame → Frame}
    (h : ∀ (frame : Frame) name, frame.binds name → (change frame).binds name) :
    scope.Extends (scope.modifyActive change) := by
  obtain ⟨globals, calls⟩ := scope
  cases calls with
  | nil => exact ⟨rfl, rfl, h globals, h globals⟩
  | cons frame callers => exact ⟨rfl, rfl, h frame, fun _ hname => hname⟩

theorem extends_declare (scope : Scope) (name : String) (value : Value) :
    scope.Extends (scope.declare name value) :=
  scope.extends_modifyActive fun frame other h => by rw [Frame.binds_declare, h, Bool.or_true]

theorem extends_declareFunction (scope : Scope) (closure : Closure) :
    scope.Extends (scope.declareFunction closure) :=
  scope.extends_modifyActive fun frame other h => by
    rw [Frame.binds_declareFunction, h, Bool.or_true]

theorem extends_assign (scope : Scope) (name : String) (value : Value) :
    scope.Extends (scope.assign name value) := by
  unfold assign
  split
  · have hglobals : ∀ other, scope.globals.binds other →
        (scope.globals.declare name value).binds other := fun other h => by
      rw [Frame.binds_declare, h, Bool.or_true]
    refine ⟨rfl, rfl, fun other h => ?_, hglobals⟩
    obtain ⟨globals, calls⟩ := scope
    -- only where no call is running is the global frame the active one
    cases calls with
    | nil => exact hglobals other h
    | cons frame callers => exact h
  · exact scope.extends_declare name value

end Scope

namespace Evaluation

/-- The second state has the control state of the first: the same frames, the same depths, and at
least as many steps counted. -/
structure Restored (state state' : State) : Prop where
  scope : state.scope.Extends state'.scope
  callDepth : state'.callDepth = state.callDepth
  depth : state'.depth = state.depth
  steps : state.steps ≤ state'.steps

namespace Restored

theorem refl (state : State) : Restored state state := ⟨.refl _, rfl, rfl, Nat.le_refl _⟩

theorem trans {a b c : State} (hab : Restored a b) (hbc : Restored b c) : Restored a c where
  scope := hab.scope.trans hbc.scope
  callDepth := hbc.callDepth.trans hab.callDepth
  depth := hbc.depth.trans hab.depth
  steps := Nat.le_trans hab.steps hbc.steps

/-- The frame that a call ends with is its own, and beneath it lie the frames of its caller. -/
theorem calls_leave {state after : State} {frame : Frame} (h : Restored (state.enter frame) after) :
    after.leave.scope.calls = state.scope.calls :=
  h.scope.callers

theorem leave {state after : State} {frame : Frame} (h : Restored (state.enter frame) after) :
    Restored state after.leave where
  scope := by
    have hcalls := h.calls_leave
    refine ⟨congrArg List.length hcalls, congrArg List.tail hcalls, fun name hname => ?_,
      h.scope.globals⟩
    unfold Scope.active at hname ⊢
    rw [hcalls]
    cases hc : state.scope.calls with
    | nil =>
      rw [hc] at hname
      exact h.scope.globals name hname
    | cons frame callers => rwa [hc] at hname
  callDepth := by
    have := h.callDepth
    simp only [State.enter, State.leave] at this ⊢
    omega
  depth := h.depth
  steps := h.steps

end Restored

theorem drift_restored : Drift Restored where
  refl := .refl
  trans := .trans
  log state line := ⟨.refl _, rfl, rfl, Nat.le_refl _⟩
  declare state name value := ⟨state.scope.extends_declare name value, rfl, rfl, Nat.le_refl _⟩
  assign state name value := ⟨state.scope.extends_assign name value, rfl, rfl, Nat.le_refl _⟩
  declareFunction state closure :=
    ⟨state.scope.extends_declareFunction closure, rfl, rfl, Nat.le_refl _⟩
  store state store := ⟨.refl _, rfl, rfl, Nat.le_refl _⟩
  print state text := ⟨.refl _, rfl, rfl, Nat.le_refl _⟩
  record state name values := ⟨.refl _, rfl, rfl, Nat.le_refl _⟩
  count state := ⟨.refl _, rfl, rfl, Nat.le_succ _⟩
  level h := ⟨h.scope, h.callDepth, by have := h.depth; simp only at this ⊢; omega, h.steps⟩
  frame h := h.leave

/-! ### Calls give the whole stack back -/

open Eval

theorem calls_inCall {x : Eval Value} (hx : Moves Restored x) (frame : Frame) (state : State) :
    (final (inCall frame x state)).scope.calls = state.scope.calls := by
  rw [inCall_apply, final_mapFinal]
  exact (hx (state.enter frame)).calls_leave

theorem calls_callFunction {eval : Tree → Eval Value} (h : ∀ tree, Moves Restored (eval tree))
    (engine : Engine) (closure : Closure) (values : List Value) (state : State) :
    (final (callFunction engine eval closure values state)).scope.calls = state.scope.calls := by
  rw [callFunction_apply]
  split
  · rfl
  · exact calls_inCall (Drift.moves_returning (h closure.body)) _ _

/-- **Every exit restores the control state.** However an evaluation, a call of a function or a
program ends, the active frame, the number of running calls and the depth are those at its start,
and no step has been taken back. After a call even the active frame itself is as it was, unless it
is the global one. -/
theorem control_state_restored (engine : Engine) (state : State) :
    (∀ tree, Restored state (final (eval engine tree state))) ∧
    (∀ closure values, Restored state (final (call engine closure values state)) ∧
      (final (call engine closure values state)).scope.calls = state.scope.calls) ∧
    ∀ body, Restored state (final (execute engine body state)) := by
  refine ⟨fun tree => ?_, fun closure values => ⟨?_, ?_⟩, fun body => ?_⟩
  · exact drift_restored.moves_eval engine tree state
  · exact drift_restored.moves_call engine closure values state
  · exact calls_callFunction (drift_restored.moves_evalAt engine _) engine closure values state
  · exact drift_restored.moves_execute engine body state

end Evaluation

end PageScript
