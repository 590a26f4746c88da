import PageScript.Proofs.Evaluation.Drift

/-!
# A call adds no global names

A function may assign to a global name, and it may declare and assign names of its own. Whatever it
does, and whatever the functions do that it calls, the global frame binds the names afterwards that
it has bound before.

* `Frame.Revalued` — a frame with other values at most: the same names, and the same functions;
* `Scope.Shelters` — inside of a call, the global frame is changed in that way only;
* `drift_shelters` — so it is across every evaluation;
* `call_keeps_global_names` — hence a call changes values of global names at most, even where no
  other call is running.

A global name that is bound as a function only becomes a variable when it is assigned. It is the
same name still, and the function stays in its table.
-/

namespace PageScript

/-- The second frame binds the same names as the first, and has the same functions. -/
structure Frame.Revalued (frame frame' : Frame) : Prop where
  functions : frame'.functions = frame.functions
  binds : ∀ name, frame'.binds name = frame.binds name

namespace Frame

theorem Revalued.refl (frame : Frame) : frame.Revalued frame := ⟨rfl, fun _ => rfl⟩

theorem Revalued.trans {a b c : Frame} (hab : a.Revalued b) (hbc : b.Revalued c) : a.Revalued c where
  functions := hbc.functions.trans hab.functions
  binds name := (hbc.binds name).trans (hab.binds name)

/-- A name that is bound can be given a value. -/
theorem revalued_declare {frame : Frame} {name : String} (h : frame.binds name = true)
    (value : Value) : frame.Revalued (frame.declare name value) where
  functions := rfl
  binds other := by
    rw [binds_declare]
    by_cases hname : other = name
    · rw [hname, h, Bool.or_true]
    · rw [decide_eq_false hname, Bool.false_or]

/-- A name has the value that it has had, unless it is bound. -/
theorem Revalued.get {frame frame' : Frame} (h : frame.Revalued frame') (name : String) :
    frame'.get? name = frame.get? name ∨ frame.binds name = true := by
  cases hbound : frame.binds name with
  | true => exact .inr rfl
  | false =>
    have hfree := (h.binds name).trans hbound
    rw [binds_iff, Option.isSome_eq_false_iff, Option.isNone_iff_eq_none] at hbound hfree
    exact .inl (hfree.trans hbound.symm)

end Frame

/-- The second scope has as many frames as the first, and if a call is running there, the globals of
the first with other values at most. -/
structure Scope.Shelters (scope scope' : Scope) : Prop where
  height : scope'.calls.length = scope.calls.length
  globals : scope.calls ≠ [] → scope.globals.Revalued scope'.globals

namespace Scope

theorem Shelters.refl (scope : Scope) : scope.Shelters scope := ⟨rfl, fun _ => .refl _⟩

theorem Shelters.trans {a b c : Scope} (hab : a.Shelters b) (hbc : b.Shelters c) : a.Shelters c where
  height := hbc.height.trans hab.height
  globals ha := by
    have hb : b.calls ≠ [] := by
      rw [← List.length_pos_iff] at ha ⊢
      rwa [hab.height]
    exact (hab.globals ha).trans (hbc.globals hb)

/-- The frame on top of a call is not the global one. -/
theorem shelters_modifyActive (scope : Scope) (change : Frame → Frame) :
    scope.Shelters (scope.modifyActive change) := by
  obtain ⟨globals, calls⟩ := scope
  cases calls with
  | nil => exact ⟨rfl, fun h => absurd rfl h⟩
  | cons frame callers => exact ⟨rfl, fun _ => .refl globals⟩

/-- Only a name that the global frame binds is assigned there. -/
theorem shelters_assign (scope : Scope) (name : String) (value : Value) :
    scope.Shelters (scope.assign name value) := by
  unfold assign
  split
  · next hbound =>
    have hglobal : scope.globals.binds name = true := ((Bool.and_eq_true _ _).mp hbound).2
    exact ⟨rfl, fun _ => Frame.revalued_declare hglobal value⟩
  · exact scope.shelters_modifyActive _

end Scope

namespace Evaluation

/-- Across every evaluation inside of a call, the global frame keeps its names. -/
theorem drift_shelters : Drift fun state state' => state.scope.Shelters state'.scope where
  refl state := .refl state.scope
  trans := .trans
  log state _ := .refl state.scope
  declare state name value := state.scope.shelters_modifyActive (·.declare name value)
  assign state name value := state.scope.shelters_assign name value
  declareFunction state closure := state.scope.shelters_modifyActive (·.declareFunction closure)
  store state _ := .refl state.scope
  print state _ := .refl state.scope
  record state _ _ := .refl state.scope
  count state := .refl state.scope
  level h := h
  frame {state frame after} h := by
    refine ⟨?_, fun _ => h.globals (List.cons_ne_nil _ _)⟩
    show after.scope.calls.tail.length = state.scope.calls.length
    rw [List.length_tail, h.height]
    rfl

/-- A call that has been started shelters the globals, whether or not it has a caller. -/
theorem revalued_inCall {α : Type} {x : Eval α}
    (hx : Moves (fun state state' => state.scope.Shelters state'.scope) x) (frame : Frame)
    {globals : Frame} {state : State} (h : state.scope.globals = globals) :
    globals.Revalued (final (Eval.inCall frame x state)).scope.globals := by
  rw [inCall_apply, final_mapFinal, ← h]
  exact (hx (state.enter frame)).globals (List.cons_ne_nil _ _)

/-- **A call neither creates nor removes a global name.** However it ends, the global frame binds
the same names as before, as variables or as functions; only a name that it has bound can have
another value, and its table of functions is the same. -/
theorem call_keeps_global_names (engine : Engine) (closure : Closure) (values : List Value)
    (state : State) :
    let globals := (final (call engine closure values state)).scope.globals
    (∀ name, globals.binds name = state.scope.globals.binds name) ∧
    (∀ name, globals.get? name = state.scope.globals.get? name ∨
      state.scope.globals.binds name = true) ∧
    globals.functions = state.scope.globals.functions := by
  have hbody := drift_shelters.moves_evalAt engine (room state) closure.body
  have hglobals : state.scope.globals.Revalued
      (final (call engine closure values state)).scope.globals := by
    unfold call
    rw [callFunction_apply]
    split
    · exact .refl _
    · exact revalued_inCall (Drift.moves_returning hbody) _ rfl
  exact ⟨hglobals.binds, hglobals.get, hglobals.functions⟩

end Evaluation

end PageScript
