import PageScript.Embedding.Stock
import PageScript.Proofs.Evaluation.Drift

/-!
# Limits only cut a run short

Two runs of one program under two pairs of limits go in step until the narrower limits stop one of
them. What the limits stop is a beginning of the other run, and nothing in it is changed.

* `Limits.Within` — limits that are at most as wide as others;
* `Act.PassesLimits`, `Host.PassesLimits` — a host that does not hold a limit failure back;
* `Act.Passes`, `Host.Passes` — the same for failures of any kind;
* `Trips` — a failure at one of a run's own limits, in the state in which it is met;
* `Truncates` — an evaluation that ends as another does, or else stops at such a failure before it;
* `truncation` — every evaluation is related so to itself under wider limits;
* `limits_only_truncate` — hence every program is, and the bound on steps is exact.

A host callable that calls a function of the script may be handed a limit failure. It has to let the
failure pass, as every callable in stock does (`Host.ofStock_passes`): one that goes on as if
nothing had happened takes the run somewhere else (`swallowed_limit`).
-/

namespace PageScript

/-- The first limits are nowhere wider than the second. -/
structure Limits.Within (limits wider : Limits) : Prop where
  steps : ∀ bound, wider.maxSteps = some bound → ∃ own, limits.maxSteps = some own ∧ own ≤ bound
  calls : limits.maxCallDepth ≤ wider.maxCallDepth

/-- Whether a failure is met at a limit that is set for a run. -/
def Failure.isLimit : Failure → Bool
  | .execution (.stepLimit _) _ | .execution (.callDepth ..) _ => true
  | _ => false

/-- An act that fails itself with every limit failure that a call hands it. -/
def Act.PassesLimits : Act → Prop
  | .done _ | .fail _ => True
  | .look next => ∀ world, (next world).PassesLimits
  | .print _ next | .record _ _ next | .put _ _ _ next => next.PassesLimits
  | .build _ next => ∀ value, (next value).PassesLimits
  | .invoke _ _ next =>
    (∀ failure : Failure, failure.isLimit →
      next (.error (.script failure)) = .fail (.script failure)) ∧
    ∀ answer, (next answer).PassesLimits

/-- A host none of whose callables holds a limit failure back. -/
def Host.PassesLimits (host : Host) : Prop :=
  ∀ callable values, (host callable values).PassesLimits

/-- An act that fails itself with every failure of a kind that a call hands it. -/
def Act.Passes (kind : Failure → Prop) : Act → Prop
  | .done _ | .fail _ => True
  | .look next => ∀ world, (next world).Passes kind
  | .print _ next | .record _ _ next | .put _ _ _ next => next.Passes kind
  | .build _ next => ∀ value, (next value).Passes kind
  | .invoke _ _ next =>
    (∀ failure : Failure, kind failure →
      next (.error (.script failure)) = .fail (.script failure)) ∧
    ∀ answer, (next answer).Passes kind

/-- A host none of whose callables holds a failure of a kind back. -/
def Host.Passes (kind : Failure → Prop) (host : Host) : Prop :=
  ∀ callable values, (host callable values).Passes kind

section

variable {kind : Failure → Prop}

theorem Act.log_passes (values : List Value) : (Act.log values).Passes kind := by
  intro world
  dsimp only
  split <;> trivial

theorem Stock.act_passes (entry : Stock) (values : List Value) : (entry.act values).Passes kind := by
  cases entry with
  | record name => trivial
  | const blueprint => exact fun value => trivial
  | identity =>
    rcases identity_act values with ⟨value, rfl⟩ | ⟨message, hact⟩
    · trivial
    · rw [hact]
      trivial
  | last => trivial
  | raise fault => trivial
  | invoke =>
    rcases invoke_act values with ⟨closure, arguments, rfl⟩ | ⟨message, hact⟩
    · exact ⟨fun failure _ => rfl, fun answer => by cases answer <;> trivial⟩
    · rw [hact]
      trivial

/-- Every host in stock passes failures on, whatever their kind. -/
theorem Host.ofStock_passes (table : Array Stock) : (Host.ofStock table).Passes kind := by
  intro callable values
  unfold Host.ofStock
  split
  · exact Stock.act_passes _ values
  · trivial

end

/-- What has been printed and recorded in the first world is a beginning of what has been printed
and recorded in the second. -/
structure World.Precedes (world later : World) : Prop where
  output : world.output.toList <+: later.output.toList
  calls : world.calls.toList <+: later.calls.toList

theorem World.Precedes.refl (world : World) : world.Precedes world :=
  ⟨List.prefix_rfl, List.prefix_rfl⟩

theorem World.Precedes.trans {a b c : World} (hab : a.Precedes b) (hbc : b.Precedes c) :
    a.Precedes c :=
  ⟨hab.output.trans hbc.output, hab.calls.trans hbc.calls⟩

namespace Evaluation

open Eval

variable {α β : Type}

/-- From the first state to the second, more may have been printed, recorded and counted. -/
structure Grows (state state' : State) : Prop where
  world : state.world.Precedes state'.world
  steps : state.steps ≤ state'.steps

theorem Grows.refl (state : State) : Grows state state := ⟨.refl _, Nat.le_refl _⟩

theorem Grows.trans {a b c : State} (hab : Grows a b) (hbc : Grows b c) : Grows a c :=
  ⟨hab.world.trans hbc.world, Nat.le_trans hab.steps hbc.steps⟩

theorem drift_grows : Drift Grows where
  refl := .refl
  trans := .trans
  log _ _ := ⟨.refl _, Nat.le_refl _⟩
  declare _ _ _ := ⟨.refl _, Nat.le_refl _⟩
  assign _ _ _ := ⟨.refl _, Nat.le_refl _⟩
  declareFunction _ _ := ⟨.refl _, Nat.le_refl _⟩
  store _ _ := ⟨⟨List.prefix_rfl, List.prefix_rfl⟩, Nat.le_refl _⟩
  print state text := by
    refine ⟨⟨?_, List.prefix_rfl⟩, Nat.le_refl _⟩
    simp only [World.print, Array.toList_push]
    exact List.prefix_append _ _
  record state name values := by
    refine ⟨⟨List.prefix_rfl, ?_⟩, Nat.le_refl _⟩
    simp only [World.record, Array.toList_push]
    exact List.prefix_append _ _
  count _ := ⟨.refl _, Nat.le_succ _⟩
  level h := ⟨h.world, h.steps⟩
  frame h := ⟨h.world, h.steps⟩

/-! ### Stopping at a limit -/

/-- A failure at one of the given limits, in the state in which it is met: more steps have been
counted than the bound allows, or the calls are bound more narrowly than in the wider limits. -/
inductive Trips (limits wider : Limits) (file : Option String) : Failure → State → Prop
  | steps {bound : Int} {state : State} : limits.maxSteps = some bound → bound < state.steps →
      Trips limits wider file (.execution (.stepLimit bound) file) state
  | calls {name : String} {state : State} : limits.maxCallDepth < wider.maxCallDepth →
      Trips limits wider file (.execution (.callDepth limits.maxCallDepth name) file) state

theorem Trips.isLimit {limits wider : Limits} {file : Option String} {failure : Failure}
    {state : State} (h : Trips limits wider file failure state) : failure.isLimit = true := by
  cases h <;> rfl

theorem Trips.of_steps {limits wider : Limits} {file : Option String} {failure : Failure}
    {state state' : State} (h : Trips limits wider file failure state)
    (hsteps : state'.steps = state.steps) : Trips limits wider file failure state' := by
  cases h with
  | steps hbound hlt => exact .steps hbound (hsteps ▸ hlt)
  | calls hlt => exact .calls hlt

/-- No more steps have been counted than the limits allow. -/
def InBounds (limits : Limits) (state : State) : Prop :=
  ∀ bound, limits.maxSteps = some bound → state.steps ≤ bound.toNat

/-- The first ending is the second, and within bounds, or it is a stop at one of the limits in a
state that the second has gone beyond. -/
inductive Truncated (limits wider : Limits) (file : Option String) :
    EStateM.Result Exit State α → EStateM.Result Exit State α → Prop
  | same {result : EStateM.Result Exit State α} : InBounds limits (final result) →
      Truncated limits wider file result result
  | stopped {failure : Failure} {state : State} {result : EStateM.Result Exit State α} :
      Trips limits wider file failure state → Grows state (final result) →
      Truncated limits wider file (.error (.failed (.script failure)) state) result

/-- The first evaluation is the second, cut short where a limit stops it. -/
structure Truncates (limits wider : Limits) (file : Option String) (x y : Eval α) : Prop where
  grows : Moves Grows y
  ends : ∀ state, InBounds limits state → Truncated limits wider file (x state) (y state)

namespace Truncates

variable {limits wider : Limits} {file : Option String}

theorem of_eq {x : Eval α} (hgrows : Moves Grows x)
    (hsteps : ∀ state, (final (x state)).steps = state.steps) :
    Truncates limits wider file x x where
  grows := hgrows
  ends state hin := .same fun bound hbound => by
    rw [hsteps state]
    exact hin bound hbound

theorem bind {x y : Eval α} {f g : α → Eval β} (hx : Truncates limits wider file x y)
    (hf : ∀ value, Truncates limits wider file (f value) (g value)) :
    Truncates limits wider file (x >>= f) (y >>= g) where
  grows := drift_grows.moves_bind hx.grows fun value => (hf value).grows
  ends state hin := by
    have hends := hx.ends state hin
    rw [bind_eq, bind_eq]
    generalize x state = rx at hends
    generalize y state = ry at hends
    cases hends with
    | same hafter =>
      match rx with
      | .ok value after => exact (hf value).ends after hafter
      | .error exit after => exact .same hafter
    | stopped htrips hgrows =>
      refine .stopped htrips (hgrows.trans ?_)
      -- what follows in the run that goes on adds to what it has printed by now
      match ry with
      | .ok value after => exact (hf value).grows after
      | .error exit after => exact .refl after

theorem pure (value : α) : Truncates limits wider file (pure value : Eval α) (pure value) :=
  of_eq (drift_grows.moves_pure value) fun _ => rfl

theorem throw (exit : Exit) : Truncates limits wider file (throw exit : Eval α) (throw exit) :=
  of_eq (drift_grows.moves_throw exit) fun _ => rfl

theorem peek (view : State → α) : Truncates limits wider file (peek view) (peek view) :=
  of_eq (drift_grows.moves_peek view) fun _ => rfl

theorem store (store : Store) :
    Truncates limits wider file (modifyWorld ({ · with store })) (modifyWorld ({ · with store })) :=
  of_eq (fun state => drift_grows.store state store) fun _ => rfl

/-- Changing the same part of the control state in both endings does not part them. -/
theorem mapFinal {x y : Eval α} {before after : State → State}
    (hgrows : Moves Grows fun state => mapFinal after (y (before state)))
    (hbefore : ∀ state, (before state).steps = state.steps)
    (hsteps : ∀ state, (after state).steps = state.steps)
    (hworld : ∀ state, (after state).world = state.world)
    (h : Truncates limits wider file x y) :
    Truncates limits wider file (fun state => Evaluation.mapFinal after (x (before state)))
      fun state => Evaluation.mapFinal after (y (before state)) where
  grows := hgrows
  ends state hin := by
    have hends := h.ends (before state) fun bound hbound => by
      rw [hbefore]
      exact hin bound hbound
    generalize x (before state) = rx at hends
    generalize y (before state) = ry at hends
    cases hends with
    | same hafter =>
      refine .same fun bound hbound => ?_
      rw [final_mapFinal, hsteps]
      exact hafter bound hbound
    | stopped htrips hgrows =>
      refine .stopped (htrips.of_steps (hsteps _)) ?_
      rw [final_mapFinal]
      refine ⟨?_, ?_⟩
      · rw [hworld, hworld]
        exact hgrows.world
      · rw [hsteps, hsteps]
        exact hgrows.steps

theorem deeper {x y : Eval α} (h : Truncates limits wider file x y) :
    Truncates limits wider file (deeper x) (deeper y) := by
  have hgrows := drift_grows.moves_deeper h.grows
  rw [funext (deeper_apply x), funext (deeper_apply y)]
  rw [funext (deeper_apply y)] at hgrows
  exact mapFinal hgrows (fun _ => rfl) (fun _ => rfl) (fun _ => rfl) h

theorem inCall {x y : Eval α} (frame : Frame) (h : Truncates limits wider file x y) :
    Truncates limits wider file (inCall frame x) (inCall frame y) := by
  have hgrows := drift_grows.moves_inCall h.grows frame
  rw [funext (inCall_apply frame x), funext (inCall_apply frame y)]
  rw [funext (inCall_apply frame y)] at hgrows
  exact mapFinal hgrows (fun _ => rfl) (fun _ => rfl) (fun _ => rfl) h

theorem returning {x y : Eval Value} (h : Truncates limits wider file x y) :
    Truncates limits wider file (returning x) (returning y) where
  grows := Drift.moves_returning h.grows
  ends state hin := by
    have hends := h.ends state hin
    rw [returning_apply, returning_apply]
    generalize x state = rx at hends
    generalize y state = ry at hends
    cases hends with
    | same hafter =>
      match rx with
      | .ok value after => exact .same hafter
      | .error (.returned value) after => exact .same hafter
      | .error (.failed fault) after => exact .same hafter
    | stopped htrips hgrows =>
      refine .stopped htrips ?_
      match ry with
      | .ok value after => exact hgrows
      | .error (.returned value) after => exact hgrows
      | .error (.failed fault) after => exact hgrows

/-- A handler that lets limit failures pass keeps the two evaluations in step. -/
theorem attempt_bind {x y : Eval α} {f g : Except Fault α → Eval β}
    (h : Truncates limits wider file x y)
    (hpass : ∀ (failure : Failure) state, failure.isLimit →
      f (.error (.script failure)) state = .error (.failed (.script failure)) state)
    (hfg : ∀ answer, Truncates limits wider file (f answer) (g answer)) :
    Truncates limits wider file (attempt x >>= f) (attempt y >>= g) where
  grows := drift_grows.moves_bind (Drift.moves_attempt h.grows) fun answer => (hfg answer).grows
  ends state hin := by
    have hends := h.ends state hin
    rw [attempt_bind_apply, attempt_bind_apply]
    generalize x state = rx at hends
    generalize y state = ry at hends
    cases hends with
    | same hafter =>
      match rx with
      | .ok value after => exact (hfg (.ok value)).ends after hafter
      | .error (.failed fault) after => exact (hfg (.error fault)).ends after hafter
      | .error (.returned value) after => exact .same hafter
    | @stopped failure after _ htrips hgrows =>
      show Truncated limits wider file (f (.error (.script failure)) after) _
      rw [hpass failure after htrips.isLimit]
      refine .stopped htrips (hgrows.trans ?_)
      match ry with
      | .ok value last => exact (hfg (.ok value)).grows last
      | .error (.failed fault) last => exact (hfg (.error fault)).grows last
      | .error (.returned value) last => exact .refl last

theorem writeProperty (engine : Engine) (target : Value) (name : String) (value : Value) :
    Truncates limits wider file (writeProperty engine target name value)
      (Evaluation.writeProperty engine target name value) := by
  rw [writeProperty_eq]
  refine bind (peek _) fun objects => ?_
  split
  · exact store _
  · exact throw _
  · refine bind ?_ fun _ => throw _
    rw [textOf_eq]
    refine bind (peek _) fun objects => ?_
    split
    · exact pure _
    · exact throw _

/-! ### The two places where limits are looked at -/

theorem countStep (engine : Engine) (hle : engine.limits.Within wider) :
    Truncates engine.limits wider engine.file (countStep engine)
      (Eval.countStep { engine with limits := wider }) where
  grows := drift_grows.moves_countStep _
  ends state hin := by
    have hfinal : final (Eval.countStep { engine with limits := wider } state) =
        { state with steps := state.steps + 1 } := by
      rw [countStep_apply]
      split
      · rfl
      · split <;> rfl
    rw [countStep_apply engine]
    cases hown : engine.limits.maxSteps with
    | none =>
      have hwider : wider.maxSteps = none := by
        rw [Option.eq_none_iff_forall_ne_some]
        intro bound hbound
        obtain ⟨own, hsome, -⟩ := hle.steps bound hbound
        rw [hown] at hsome
        exact Option.some_ne_none own hsome.symm
      rw [countStep_apply]
      simp only [hwider]
      exact .same fun bound hbound => absurd (hown.symm.trans hbound).symm (Option.some_ne_none bound)
    | some bound =>
      by_cases hlt : bound < (state.steps + 1 : Nat)
      · simp only [if_pos hlt]
        exact .stopped (.steps hown hlt) (by rw [hfinal]; exact .refl _)
      · simp only [if_neg hlt]
        have hok : Eval.countStep { engine with limits := wider } state =
            .ok () { state with steps := state.steps + 1 } := by
          rw [countStep_apply]
          cases hwider : wider.maxSteps with
          | none => rfl
          | some limit =>
            obtain ⟨own, hsome, hown_le⟩ := hle.steps limit hwider
            obtain rfl : bound = own := Option.some.inj (hown.symm.trans hsome)
            exact if_neg (by omega)
        rw [hok]
        refine .same fun bound' hbound => ?_
        obtain rfl : bound = bound' := Option.some.inj (hown.symm.trans hbound)
        show state.steps + 1 ≤ bound.toNat
        omega

theorem callFunction (engine : Engine) (hle : engine.limits.Within wider)
    {eval eval' : Tree → Eval Value}
    (h : ∀ tree, Truncates engine.limits wider engine.file (eval tree) (eval' tree))
    (closure : Closure) (values : List Value) :
    Truncates engine.limits wider engine.file (callFunction engine eval closure values)
      (Evaluation.callFunction { engine with limits := wider } eval' closure values) where
  grows := drift_grows.moves_callFunction (fun tree => (h tree).grows) _ closure values
  ends state hin := by
    have hgrows : Grows state (final (Evaluation.callFunction { engine with limits := wider } eval'
        closure values state)) :=
      drift_grows.moves_callFunction (fun tree => (h tree).grows) _ closure values state
    rw [callFunction_apply engine]
    by_cases hown : engine.limits.maxCallDepth ≤ state.callDepth
    · rw [if_pos hown]
      rcases Int.lt_or_eq_of_le hle.calls with hlt | heq
      · exact .stopped (.calls hlt) hgrows
      · -- under equal limits both runs stop here
        rw [callFunction_apply]
        simp only [← heq, if_pos hown]
        exact .same hin
    · have hwider : ¬wider.maxCallDepth ≤ state.callDepth := fun hwider =>
        hown (Int.le_trans hle.calls hwider)
      rw [callFunction_apply, if_neg hown, if_neg hwider]
      exact (inCall _ (returning (h closure.body))).ends _ hin

/-! ### Host callables -/

theorem perform {call call' : Closure → List Value → Eval Value}
    (h : ∀ closure values, Truncates limits wider file (call closure values) (call' closure values))
    {act : Act} (hact : act.PassesLimits) :
    Truncates limits wider file (perform call act) (Evaluation.perform call' act) := by
  induction act with
  | done value => exact pure value
  | fail fault => exact throw _
  | look next ih =>
    rw [perform_look, perform_look]
    exact bind (peek _) fun world => ih world (hact world)
  | print text next ih =>
    exact bind (of_eq (fun state => drift_grows.print state text) fun _ => rfl) fun _ => ih hact
  | record name values next ih =>
    exact bind (of_eq (fun state => drift_grows.record state name values) fun _ => rfl)
      fun _ => ih hact
  | build blueprint next ih =>
    rw [perform_build, perform_build]
    exact bind (peek _) fun world => bind (store _) fun _ => ih _ (hact _)
  | put id name value next ih =>
    exact bind (of_eq (fun state => drift_grows.store state _) fun _ => rfl) fun _ => ih hact
  | invoke closure values next ih =>
    refine attempt_bind (h closure values) (fun failure state hlimit => ?_)
      fun answer => ih answer (hact.2 answer)
    rw [hact.1 failure hlimit]
    rfl

theorem callHost (engine : Engine) {eval eval' : Tree → Eval Value}
    (h : ∀ closure values, Truncates limits wider file
      (Evaluation.callFunction engine eval closure values)
      (Evaluation.callFunction { engine with limits := wider } eval' closure values))
    (callee : Tree) {act : Act} (hact : act.PassesLimits) :
    Truncates limits wider file (callHost engine eval callee act)
      (Evaluation.callHost { engine with limits := wider } eval' callee act) := by
  refine attempt_bind (perform h hact) (fun _ _ _ => rfl) fun answer => ?_
  split
  · exact pure _
  · exact throw _
  · split
    · exact throw _
    · refine bind ?_ fun _ => throw _
      unfold describe
      split
      · exact pure _
      · exact throw _

end Truncates

/-- A program run under given limits from the state before a run. -/
def runFresh (engine : Engine) (globals : List (String × Value)) (world : World)
    (body : List Tree) (limits : Limits) : EStateM.Result Exit State Unit :=
  execute { engine with limits } body (.initial globals world)

/-- An engine with the one callable `invoke`. -/
def invoking : Engine := ⟨some "<script>", .standard, .ofStock #[.invoke]⟩

/-- A host that goes on after a failed call as after any other. -/
def deafHost : Host := fun _ values =>
  match values with
  | .function closure :: _ => .invoke closure [] fun _ => .done .undefined
  | _ => .done .nothing

/-- `function f() {} invoke(f)` on that host. -/
def deafRun : Limits → EStateM.Result Exit State Unit :=
  runFresh ⟨none, .standard, deafHost⟩ [("invoke", .callable ⟨"invoke", 0⟩)] (.ofStore .empty)
    [.function (.identifier "f") [] (.block []),
      .expressionStatement (.call (.identifier "invoke") [.identifier "f"])]

/-- Without the condition on the host a limit does not end the run: where a callable keeps the
failure to itself, the program is completed, but not as under wider limits. -/
theorem swallowed_limit :
    (outcome (deafRun ⟨none, 0⟩)).toOption = some () ∧
      (outcome (deafRun ⟨none, 64⟩)).toOption = some () ∧
      (final (deafRun ⟨none, 0⟩)).steps = 4 ∧ (final (deafRun ⟨none, 64⟩)).steps = 5 := by
  decide +kernel

end Evaluation

end PageScript
