import PageScript.Proofs.Evaluation.CallerFrames

/-!
# Arguments by position

A call hands over its arguments by position: one to each parameter, whether or not the parameter has
a name. Arguments in excess are never seen, and missing ones are undefined.

* `positional` — arguments as so many parameters take them;
* `Frame.Seats` — a frame that holds the parameters of a call and nothing else;
* `bindParams_positional`, `seats_bindParams` — the frame of a call depends on these arguments only,
  and holds each of them under the name that stands last in its place;
* `State.silenced` — a state whose log is forgotten;
* `call_silenced` — from two states that differ in their logs, a body does the same;
* `call_by_position` — hence a call does the same with its arguments as they are and with those that
  its parameters take, and this is where its body starts.

The two calls differ in one line of the log, which tells how many arguments there were.
-/

namespace PageScript

/-- Arguments as the given number of parameters take them: the first ones, and undefined ones in the
place of those that are missing. -/
def positional (count : Nat) (values : List Value) : List Value :=
  values.take count ++ List.replicate (count - values.length) .undefined

theorem positional_succ (count : Nat) (values : List Value) :
    positional (count + 1) values =
      values.headD .undefined :: positional count values.tail := by
  cases values with
  | nil => simp [positional, List.replicate_succ]
  | cons value values => simp [positional]

theorem length_positional (count : Nat) (values : List Value) :
    (positional count values).length = count := by
  rw [positional, List.length_append, List.length_take, List.length_replicate]
  omega

/-- A frame that holds parameters and nothing else. A name that is given to several parameters stands
for the argument of the last of them. -/
structure Frame.Seats (params : List (Option String)) (values : List Value) (frame : Frame) :
    Prop where
  functions : frame.functions = .empty
  named : ∀ name, frame.vars.contains name = true ↔ some name ∈ params
  last : ∀ (place : Nat) name, params[place]? = some (some name) →
    (∀ later, place < later → params[later]? ≠ some (some name)) →
    frame.vars.get? name = values[place]?

/-- A state whose log is forgotten. -/
def State.silenced (state : State) : State :=
  { state with log := #[] }

namespace Evaluation

open Eval

/-! ### The frame of a call -/

/-- Parameters take no notice of arguments that they have no place for, nor of whether an undefined
one has been given. -/
theorem bindParams_positional (params : List (Option String)) (values : List Value)
    (frame : Frame) :
    bindParams params (positional params.length values) frame = bindParams params values frame := by
  induction params generalizing values frame with
  | nil => rfl
  | cons param params ih =>
    rw [List.length_cons, positional_succ]
    cases param with
    | none => exact ih values.tail frame
    | some name => exact ih values.tail (frame.declare name (values.headD .undefined))

theorem functions_bindParams (params : List (Option String)) (values : List Value)
    (frame : Frame) : (bindParams params values frame).functions = frame.functions := by
  induction params generalizing values frame with
  | nil => rfl
  | cons param params ih =>
    cases param with
    | none => exact ih values.tail frame
    | some name => exact ih values.tail (frame.declare name (values.headD .undefined))

theorem contains_bindParams (params : List (Option String)) (values : List Value) (frame : Frame)
    (name : String) :
    (bindParams params values frame).vars.contains name = true ↔
      some name ∈ params ∨ frame.vars.contains name = true := by
  induction params generalizing values frame with
  | nil => simp [bindParams]
  | cons param params ih =>
    cases param with
    | none => simpa [bindParams] using ih values.tail frame
    | some bound =>
      have hrest := ih values.tail (frame.declare bound (values.headD .undefined))
      rw [Frame.declare, Bindings.contains_insert, Bool.or_eq_true, decide_eq_true_eq] at hrest
      rw [bindParams, Frame.declare, hrest, List.mem_cons, Option.some.injEq, or_left_comm, or_assoc]

/-- A name that no parameter has keeps what it stands for. -/
theorem get_bindParams_of_not_mem {params : List (Option String)} {name : String}
    (h : some name ∉ params) (values : List Value) (frame : Frame) :
    (bindParams params values frame).vars.get? name = frame.vars.get? name := by
  induction params generalizing values frame with
  | nil => rfl
  | cons param params ih =>
    rw [List.mem_cons, not_or] at h
    obtain ⟨hfirst, hrest⟩ := h
    cases param with
    | none => exact ih hrest values.tail frame
    | some bound =>
      have hne : name ≠ bound := fun heq => hfirst (congrArg some heq)
      rw [bindParams, ih hrest, Frame.declare, Bindings.get?_insert_of_ne _ hne]

/-- A name stands for the argument in the last place that has it. -/
theorem get_bindParams {params : List (Option String)} {place : Nat} {name : String}
    (hplace : params[place]? = some (some name))
    (hlast : ∀ later, place < later → params[later]? ≠ some (some name)) (values : List Value)
    (frame : Frame) :
    (bindParams params values frame).vars.get? name = (positional params.length values)[place]? := by
  -- the induction is on the parameters, so that each of them is in first place once
  induction params generalizing place values frame with
  | nil => exact absurd hplace (by simp)
  | cons param params ih =>
    rw [List.length_cons, positional_succ]
    cases place with
    | zero =>
      obtain rfl : param = some name := by simpa using hplace
      have hrest : some name ∉ params := by
        intro hmem
        obtain ⟨later, hlater⟩ := List.mem_iff_getElem?.1 hmem
        exact hlast (later + 1) (Nat.succ_pos later) hlater
      rw [bindParams, get_bindParams_of_not_mem hrest, Frame.declare, Bindings.get?_insert_self]
      rfl
    | succ place =>
      have hrest : ∀ later, place < later → params[later]? ≠ some (some name) :=
        fun later hlater => hlast (later + 1) (Nat.succ_lt_succ hlater)
      cases param with
      | none => exact ih hplace hrest values.tail frame
      | some bound => exact ih hplace hrest values.tail _

/-- **The frame of a call** holds its parameters, each with the argument in its place. -/
theorem seats_bindParams (params : List (Option String)) (values : List Value) :
    (bindParams params values .vacant).Seats params (positional params.length values) where
  functions := functions_bindParams params values .vacant
  named name := by
    have hnone : ¬(Frame.vacant.vars.contains name = true) := Bool.false_ne_true
    rw [contains_bindParams, or_iff_left hnone]
  last _ _ hplace hlast := get_bindParams hplace hlast values .vacant

/-! ### Logs -/

/-- The body of a called function is evaluated in the given state, whatever evaluates it, and its
ending is that of the call, but for the frame, which is dropped. -/
def StartsIn (engine : Engine) (closure : Closure) (values : List Value) (state inside : State) :
    Prop :=
  ∀ eval : Tree → Eval Value,
    callFunction engine eval closure values state =
      mapFinal State.leave (returning (eval closure.body) inside)

theorem silenced_above (state : State) (lines : Array LogLine) :
    (state.above [] lines).silenced = state.silenced := by
  simp only [State.above, State.silenced, List.append_nil]

/-- A state with lines in its log is one with none behind these lines. -/
theorem above_silenced (state : State) (lines : Array LogLine) :
    state.silenced.above [] lines = { state with log := lines } := by
  simp only [State.above, State.silenced, List.append_nil, Array.append_empty]

/-- Whatever has been logged, a body that runs in a frame of its own does the same. -/
theorem inCall_silenced {x : Eval Value} (h : Framed x) (frame : Frame) (state : State)
    (lines : Array LogLine) :
    inCall frame x { state with log := lines } =
      mapFinal (·.above [] lines) (inCall frame x state.silenced) := by
  rw [← above_silenced, h.inCall_above]

/-- Arguments that make for the same frame make for the same call, but for the log. -/
theorem call_silenced (engine : Engine) {closure : Closure} {values values' : List Value}
    (hframe : bindParams closure.params values .vacant =
      bindParams closure.params values' .vacant) (state : State) :
    outcome (call engine closure values state) = outcome (call engine closure values' state) ∧
      (final (call engine closure values state)).silenced =
        (final (call engine closure values' state)).silenced := by
  have hbody : Framed (returning (evalAt engine (room state) closure.body)) :=
    (evalAt_framed engine (room state) closure.body).returning
  unfold call
  rw [callFunction_apply, callFunction_apply, ← hframe]
  split
  · exact ⟨rfl, rfl⟩
  · rw [inCall_silenced hbody _ state, inCall_silenced hbody _ state]
    simp only [outcome_mapFinal, final_mapFinal, silenced_above, and_self]

/-- The body of a call starts behind a line in the log, in the frame of its parameters. -/
theorem startsIn_enter {engine : Engine} {state : State}
    (h : state.callDepth < engine.limits.maxCallDepth) (closure : Closure) (values : List Value) :
    StartsIn engine closure values state
      (State.enter
        { state with
          log := state.log.push ⟨.debug, .evaluation,
            s!"Calling {closure.name} with {values.length} argument(s)"⟩ }
        (bindParams closure.params values .vacant)) := by
  intro eval
  rw [callFunction_apply, if_neg (Int.not_le.2 h), inCall_apply]

/-- **Arguments are taken by position.** A call with any arguments ends in the same way as one with
those that its parameters take, and in the same state but for the log. If there is a call left, the
body starts in a frame that holds the parameters with these arguments, and no functions; behind this
frame lies the global one, and nothing else has been changed. -/
theorem call_by_position (engine : Engine) (closure : Closure) (values : List Value)
    (state : State) :
    let taken := positional closure.params.length values
    outcome (call engine closure values state) = outcome (call engine closure taken state) ∧
    (final (call engine closure values state)).silenced =
      (final (call engine closure taken state)).silenced ∧
    (state.callDepth < engine.limits.maxCallDepth →
      ∃ frame : Frame, frame.Seats closure.params taken ∧
        ∃ inside : State, StartsIn engine closure values state inside ∧
          inside.silenced = (state.enter frame).silenced ∧
          ∀ name, inside.scope.lookup? name =
            (frame.vars.get? name).or (state.scope.globals.get? name)) := by
  intro taken
  have hframe : bindParams closure.params values .vacant =
      bindParams closure.params taken .vacant :=
    (bindParams_positional closure.params values .vacant).symm
  obtain ⟨houtcome, hfinal⟩ := call_silenced engine hframe state
  refine ⟨houtcome, hfinal, fun hcall => ?_⟩
  have hseats := seats_bindParams closure.params values
  refine ⟨_, hseats, _, startsIn_enter hcall closure values, rfl, fun name => ?_⟩
  show ((bindParams closure.params values .vacant).get? name).or _ = _
  have hfree : (Bindings.empty : Bindings Closure).get? name = none := Bindings.get?_empty name
  rw [Frame.get?, hseats.functions, hfree, Option.map_none, Option.or_none]
  rfl

/-- `function f(a, , b, a) { return a + b; }` -/
def repeating : Closure where
  name := "f"
  params := [some "a", none, some "b", some "a"]
  body := .block [.returnStatement (.additive .add (.identifier "a") (.identifier "b"))]

/-- With five arguments, the first is hidden behind the fourth, and the last is not seen. -/
theorem call_by_position_repeating :
    let engine : Engine := ⟨none, .standard, .idle⟩
    let state := State.initial [] (.ofStore .empty)
    let values : List Value := [.number 1, .number 2, .number 3, .number 4, .number 5]
    let taken : List Value := [.number 1, .number 2, .number 3, .number 4]
    state.callDepth < engine.limits.maxCallDepth ∧
    (outcome (call engine repeating taken state)).toOption = some (.number 7) ∧
    outcome (call engine repeating values state) = outcome (call engine repeating taken state) ∧
    ∃ frame : Frame, frame.Seats repeating.params taken ∧
      frame.vars.get? "a" = some (.number 4) ∧
      ∃ inside : State, StartsIn engine repeating values state inside ∧
        inside.silenced = (state.enter frame).silenced := by
  intro engine state values taken
  have hcall : state.callDepth < engine.limits.maxCallDepth := by decide
  obtain ⟨houtcome, -, hbody⟩ := call_by_position engine repeating values state
  obtain ⟨frame, hseats, inside, hstarts, hinside, -⟩ := hbody hcall
  refine ⟨hcall, by decide +kernel, houtcome, frame, hseats, ?_, inside, hstarts, hinside⟩
  refine hseats.last 3 "a" rfl fun later hlater => ?_
  rw [List.getElem?_eq_none_iff.2 hlater]
  simp

end Evaluation

end PageScript
