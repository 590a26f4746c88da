import PageScript.Proofs.Evaluation.Drift

/-!
# Contracts of evaluations

Many statements about a run have one shape: from every state of a certain kind, an evaluation ends
in such a state again, its value has a property that depends on what is evaluated, and what it
returns or fails with is confined as well. Often there is a second evaluation, which does the same
from every such state.

* `Confined` — an ending of this shape;
* `Tracks` — two evaluations that end alike and so, from whichever state of the kind they start in;
* `Upholds` — one evaluation that ends so;
* `Tracks.bind`, `Tracks.mono` — putting evaluations together, and asking for less;
* `Tracks.deeper`, `Tracks.callFunction`, `Tracks.attempt` — levels, calls, and going on after a
  fault;
* `Blind` — a kind of state that does not look at the counters or at the log.

The rules hold for every kind of state; the properties are chosen where they are used.
-/

namespace PageScript.Evaluation

open Eval

variable {α β : Type}

/-- An ending with a value that has a property, with a return, or with one of certain faults, in a
state of a certain kind. -/
inductive Confined (kind : State → Prop) (returned : Value → Prop) (faults : Fault → Prop)
    (p : α → Prop) : EStateM.Result Exit State α → Prop
  | value {value : α} {state : State} : p value → kind state →
      Confined kind returned faults p (.ok value state)
  | returned {value : Value} {state : State} : returned value → kind state →
      Confined kind returned faults p (.error (.returned value) state)
  | failed {fault : Fault} {state : State} : faults fault → kind state →
      Confined kind returned faults p (.error (.failed fault) state)

/-- From a state, two evaluations come to the same ending, and it is confined. -/
structure TracksFrom (kind : State → Prop) (returned : Value → Prop) (faults : Fault → Prop)
    (p : α → Prop) (x y : Eval α) (state : State) : Prop where
  same : x state = y state
  confined : Confined kind returned faults p (y state)

/-- From every state of a kind, two evaluations come to the same ending, and it is confined. -/
def Tracks (kind : State → Prop) (returned : Value → Prop) (faults : Fault → Prop)
    (p : α → Prop) (x y : Eval α) : Prop :=
  ∀ state, kind state → TracksFrom kind returned faults p x y state

/-- An evaluation whose ending is confined if the state is that it starts in. -/
abbrev Upholds (kind : State → Prop) (returned : Value → Prop) (faults : Fault → Prop)
    (p : α → Prop) (x : Eval α) : Prop :=
  Tracks kind returned faults p x x

/-- A kind of state that looks at the frames and at the world only. -/
def Blind (kind : State → Prop) : Prop :=
  ∀ state state' : State, state'.scope = state.scope → state'.world = state.world →
    kind state → kind state'

variable {kind : State → Prop} {returned : Value → Prop} {faults : Fault → Prop}
  {p : α → Prop} {q : β → Prop}

namespace Confined

variable {result : EStateM.Result Exit State α} (h : Confined kind returned faults p result)
include h

theorem last : kind (final result) := by
  cases h <;> assumption

theorem mono {kind' : State → Prop} {faults' : Fault → Prop} {p' : α → Prop}
    (hkind : ∀ state, kind state → kind' state) (hfaults : ∀ fault, faults fault → faults' fault)
    (himp : ∀ value, p value → p' value) : Confined kind' returned faults' p' result := by
  cases h with
  | value hvalue hafter => exact .value (himp _ hvalue) (hkind _ hafter)
  | returned hvalue hafter => exact .returned hvalue (hkind _ hafter)
  | failed hfault hafter => exact .failed (hfaults _ hfault) (hkind _ hafter)

theorem mapFinal {change : State → State} (hchange : ∀ state, kind state → kind (change state)) :
    Confined kind returned faults p (Evaluation.mapFinal change result) := by
  cases h with
  | value hvalue hlast => exact .value hvalue (hchange _ hlast)
  | returned hvalue hlast => exact .returned hvalue (hchange _ hlast)
  | failed hfault hlast => exact .failed hfault (hchange _ hlast)

end Confined

/-- A frame that is made for a call has a property, if declaring parameters does not break it. -/
theorem bindParams_of_declare {p : Frame → Prop} {r : Value → Prop}
    (hdeclare : ∀ frame name value, p frame → r value → p (frame.declare name value))
    (hundefined : r .undefined) {params : List (Option String)} {values : List Value} {frame : Frame}
    (hvalues : ∀ value ∈ values, r value) (hframe : p frame) :
    p (bindParams params values frame) := by
  have htail : ∀ values : List Value, (∀ value ∈ values, r value) →
      ∀ value ∈ values.tail, r value :=
    fun values h value hvalue => h value (List.mem_of_mem_tail hvalue)
  induction params generalizing values frame with
  | nil => exact hframe
  | cons param params ih =>
    cases param with
    | none => exact ih (htail values hvalues) hframe
    | some name =>
      refine ih (htail values hvalues) (hdeclare frame name _ hframe ?_)
      cases values with
      | nil => exact hundefined
      | cons value values => exact hvalues value (List.mem_cons_self ..)

/-- Evaluations one behind the other. What comes second may know what has come first. -/
theorem TracksFrom.bind {x y : Eval α} {f g : α → Eval β} {state : State}
    (hx : TracksFrom kind returned faults p x y state)
    (hf : ∀ value after, y state = .ok value after → p value → kind after →
      TracksFrom kind returned faults q (f value) (g value) after) :
    TracksFrom kind returned faults q (x >>= f) (y >>= g) state := by
  obtain ⟨hsame, hconfined⟩ := hx
  cases hy : y state with
  | ok value after =>
    rw [hy] at hsame hconfined
    cases hconfined with
    | value hvalue hafter =>
      obtain ⟨hthen, hend⟩ := hf value after hy hvalue hafter
      refine ⟨?_, ?_⟩
      · rw [bind_of_ok hsame, bind_of_ok hy, hthen]
      · rw [bind_of_ok hy]
        exact hend
  | error exit after =>
    rw [hy] at hsame hconfined
    refine ⟨?_, ?_⟩
    · rw [bind_of_error hsame, bind_of_error hy]
    · rw [bind_of_error hy]
      cases hconfined with
      | returned hvalue hafter => exact .returned hvalue hafter
      | failed hfault hafter => exact .failed hfault hafter

/-- A look at the state, and what comes of what is seen there. -/
theorem TracksFrom.look {view : State → α} {f g : α → Eval β} {state : State}
    (h : TracksFrom kind returned faults q (f (view state)) (g (view state)) state) :
    TracksFrom kind returned faults q (peek view >>= f) (peek view >>= g) state :=
  ⟨h.same, h.confined⟩

namespace Tracks

/-! ### Single steps -/

theorem pure {value : α} (h : p value) :
    Upholds kind returned faults p (Pure.pure value : Eval α) :=
  fun _ hstate => ⟨rfl, .value h hstate⟩

theorem refuse {fault : Fault} (h : faults fault) :
    Upholds kind returned faults p (throw (.failed fault) : Eval α) :=
  fun _ hstate => ⟨rfl, .failed h hstate⟩

theorem fail {engine : Engine} {cause : ExecutionCause}
    (h : faults (.script (.execution cause engine.file))) :
    Upholds kind returned faults p (fail engine cause : Eval α) := refuse h

theorem giveBack {value : Value} (h : returned value) :
    Upholds kind returned faults p (throw (.returned value) : Eval α) :=
  fun _ hstate => ⟨rfl, .returned h hstate⟩

theorem peek {view : State → α} (h : ∀ state, kind state → p (view state)) :
    Upholds kind returned faults p (peek view) :=
  fun state hstate => ⟨rfl, .value (h state hstate) hstate⟩

theorem modify {change : State → State} (h : ∀ state, kind state → kind (change state)) :
    Upholds kind returned faults (fun _ => True) (modify change : Eval Unit) :=
  fun state hstate => ⟨rfl, .value trivial (h state hstate)⟩

theorem note (hblind : Blind kind) (text : String) :
    Upholds kind returned faults (fun _ => True) (note text) :=
  modify fun state => hblind state _ rfl rfl

theorem countStep (hblind : Blind kind) (engine : Engine)
    (h : ∀ limit, faults (.script (.execution (.stepLimit limit) engine.file))) :
    Upholds kind returned faults (fun _ => True) (countStep engine) := by
  intro state hstate
  have hcounted : kind { state with steps := state.steps + 1 } := hblind state _ rfl rfl hstate
  refine ⟨rfl, ?_⟩
  rw [countStep_apply]
  split
  · exact .value trivial hcounted
  · split
    · exact .failed (h _) hcounted
    · exact .value trivial hcounted

/-! ### Putting evaluations together -/

theorem mono {x y : Eval α} (h : Tracks kind returned faults p x y) {p' : α → Prop}
    (himp : ∀ value, p value → p' value) : Tracks kind returned faults p' x y :=
  fun state hstate => ⟨(h state hstate).same,
    (h state hstate).confined.mono (fun _ h => h) (fun _ h => h) himp⟩

/-- Evaluations of which more faults are allowed. -/
theorem allow {x y : Eval α} (h : Tracks kind returned faults p x y) {faults' : Fault → Prop}
    (himp : ∀ fault, faults fault → faults' fault) : Tracks kind returned faults' p x y :=
  fun state hstate => ⟨(h state hstate).same,
    (h state hstate).confined.mono (fun _ h => h) himp fun _ h => h⟩

/-- The fault that an evaluation ends with is one of those that it may end with. -/
theorem fault {x : Eval α} (h : Upholds kind returned faults p x) {state after : State}
    (hstate : kind state) {fault : Fault} (hend : x state = .error (.failed fault) after) :
    faults fault := by
  have hconfined := (h state hstate).confined
  rw [hend] at hconfined
  cases hconfined with
  | failed hfault _ => exact hfault

theorem bind {x y : Eval α} {f g : α → Eval β} (hx : Tracks kind returned faults p x y)
    (hf : ∀ value, p value → Tracks kind returned faults q (f value) (g value)) :
    Tracks kind returned faults q (x >>= f) (y >>= g) :=
  fun state hstate => (hx state hstate).bind fun value after _ hvalue hafter =>
    hf value hvalue after hafter

/-- Evaluations one behind the other, if the second does without the value of the first. -/
theorem andThen {x y : Eval α} {x' y' : Eval β} (h : Tracks kind returned faults p x y)
    (h' : Tracks kind returned faults q x' y') :
    Tracks kind returned faults q (x >>= fun _ => x') (y >>= fun _ => y') :=
  h.bind fun _ _ => h'

/-- What a name stands for, or else a failure. -/
theorem lookup {r : Value → Prop} {name : String} {x : Eval Value}
    (hfound : ∀ state value, kind state → state.scope.lookup? name = some value → r value)
    (hx : Upholds kind returned faults r x) :
    Upholds kind returned faults r
      (Evaluation.peek (·.scope.lookup? name) >>= fun
        | some value => Pure.pure value
        | none => x) := by
  have hpeek : Upholds kind returned faults (fun found => ∀ value ∈ found, r value)
      (Evaluation.peek (·.scope.lookup? name)) :=
    peek fun state hstate value hvalue => hfound state value hstate hvalue
  refine hpeek.bind fun found h => ?_
  cases found with
  | none => exact hx
  | some value => exact pure (h value rfl)

/-! ### Brackets and handlers -/

theorem mapFinal {x y : Eval α} {before after : State → State}
    (hbefore : ∀ state, kind state → kind (before state))
    (hafter : ∀ state, kind state → kind (after state)) (h : Tracks kind returned faults p x y) :
    Tracks kind returned faults p (fun state => Evaluation.mapFinal after (x (before state)))
      fun state => Evaluation.mapFinal after (y (before state)) := by
  intro state hstate
  obtain ⟨hsame, hinner⟩ := h (before state) (hbefore state hstate)
  exact ⟨congrArg (Evaluation.mapFinal after) hsame, hinner.mapFinal hafter⟩

theorem deeper (hblind : Blind kind) {x y : Eval α} (h : Tracks kind returned faults p x y) :
    Tracks kind returned faults p (deeper x) (deeper y) := by
  rw [funext (deeper_apply x), funext (deeper_apply y)]
  exact mapFinal (fun state => hblind state _ rfl rfl) (fun state => hblind state _ rfl rfl) h

theorem inCall {x y : Eval α} {frame : Frame}
    (henter : ∀ state, kind state → kind (state.enter frame))
    (hleave : ∀ state, kind state → kind state.leave) (h : Tracks kind returned faults p x y) :
    Tracks kind returned faults p (inCall frame x) (inCall frame y) := by
  rw [funext (inCall_apply frame x), funext (inCall_apply frame y)]
  exact mapFinal henter hleave h

/-- A body gives what it returns, or else undefined. -/
theorem returning {r : Value → Prop} {x y : Eval Value} (h : Tracks kind returned faults r x y)
    (hundefined : returned .undefined) :
    Tracks kind returned faults returned (returning x) (returning y) := by
  intro state hstate
  obtain ⟨hsame, hbody⟩ := h state hstate
  refine ⟨?_, ?_⟩
  · rw [returning_apply, returning_apply, hsame]
  · rw [returning_apply]
    generalize y state = result at hbody
    cases hbody with
    | value _ hafter => exact .value hundefined hafter
    | returned hvalue hafter => exact .value hvalue hafter
    | failed hfault hafter => exact .failed hfault hafter

/-- A call of a function, if its frame does not lead out of the states of the kind. -/
theorem callFunction (hblind : Blind kind) {engine : Engine} {eval eval' : Tree → Eval Value}
    {closure : Closure} {values : List Value}
    (henter : ∀ state, kind state → kind (state.enter (bindParams closure.params values .vacant)))
    (hleave : ∀ state, kind state → kind state.leave)
    (hlimit : ∀ limit, faults (.script (.execution (.callDepth limit closure.name) engine.file)))
    {r : Value → Prop}
    (hbody : Tracks kind returned faults r (eval closure.body) (eval' closure.body))
    (hundefined : returned .undefined) :
    Tracks kind returned faults returned (callFunction engine eval closure values)
      (callFunction engine eval' closure values) := by
  have hcall := inCall henter hleave (hbody.returning hundefined)
  intro state hstate
  have hlogged : ∀ log, kind { state with log } := fun log => hblind state _ rfl rfl hstate
  refine ⟨?_, ?_⟩
  · rw [callFunction_apply, callFunction_apply]
    split
    · rfl
    · exact (hcall _ (hlogged _)).same
  · rw [callFunction_apply]
    split
    · exact .failed (hlimit _) hstate
    · exact (hcall _ (hlogged _)).confined

/-- Evaluations that are chosen by the state in which they start. -/
theorem chosen {f g : State → Eval α}
    (h : ∀ state, Tracks kind returned faults p (f state) (g state)) :
    Tracks kind returned faults p (fun state => f state state) fun state => g state state := by
  intro state hstate
  obtain ⟨hsame, hconfined⟩ := h state state hstate
  exact ⟨hsame, hconfined⟩

/-- Whoever goes on after a fault is handed a value of the kind or one of the faults. -/
theorem attempt {x y : Eval α} (h : Tracks kind returned faults p x y)
    {answers : Except Fault α → Prop} (hvalue : ∀ value, p value → answers (.ok value))
    (hfault : ∀ fault, faults fault → answers (.error fault)) {faults' : Fault → Prop} :
    Tracks kind returned faults' answers (attempt x) (attempt y) := by
  intro state hstate
  obtain ⟨hsame, hinner⟩ := h state hstate
  refine ⟨?_, ?_⟩
  · unfold Eval.attempt
    rw [hsame]
  · unfold Eval.attempt
    generalize y state = result at hinner
    cases hinner with
    | value h hafter => exact .value (hvalue _ h) hafter
    | returned h hafter => exact .returned h hafter
    | failed h hafter => exact .value (hfault _ h) hafter

/-- A program that returns outside of every function ends there. -/
theorem stopAtReturn (hblind : Blind kind) {engine : Engine} {x y : Eval Unit}
    (h : Tracks kind returned faults (fun _ => True) x y) :
    Tracks kind returned faults (fun _ => True) (stopAtReturn engine x)
      (stopAtReturn engine y) := by
  intro state hstate
  obtain ⟨hsame, hbody⟩ := h state hstate
  refine ⟨?_, ?_⟩
  · unfold Evaluation.stopAtReturn
    rw [hsame]
  · unfold Evaluation.stopAtReturn
    generalize y state = result at hbody ⊢
    cases hbody with
    | value hvalue hafter => exact .value hvalue hafter
    | returned hvalue hafter => exact (note hblind _ _ hafter).confined
    | failed hfault hafter => exact .failed hfault hafter

end Tracks

end PageScript.Evaluation
