import PageScript.Proofs.Evaluation.Nesting
import PageScript.Proofs.Evaluation.Provenance

/-!
# The range of script numbers

A number literal may be as large as one likes, and a callable of the host may compute with whatever
it is given. Still, a script wraps what it reads and what it adds up, and all other operations only
move values about. So no number out of the range of a word turns up unless the host brings it in.

* `Value.InWord`, `Host.InWord` — a value that is no number out of range, and a host that brings in
  none;
* `EndsIn`, `Event.Holds` — the values that an ending carries, and those that come up at a moment;
* `Follows.monitoredAt`, `Follows.monitoredExecute` — whoever is silent about values of the
  provenance is never heard;
* `Provenance.inWord` — the values in range, which no operation leads out of;
* `reaches_sum` — a sum or a difference is in range, whatever the host does;
* `run_inWord` — every moment of every run is.

A callable that calls back is handed what the function returns; the body of the function ends with
that, so this moment has been seen. The arguments are in its frame when the body begins.
-/

namespace PageScript

/-- A value that is no number out of the range of a word. -/
def Value.InWord : Value → Prop
  | .number n => 0 ≤ n ∧ n < wordModulus
  | _ => True

/-- A host whose callables return, store and hand on nothing out of range, so long as they come upon
nothing out of range. -/
def Host.InWord (host : Host) : Prop :=
  ∀ callable values, (∀ value ∈ values, value.InWord) →
    (host callable values).Honours Value.InWord fun _ => True

theorem Value.inWord_wrap (n : Int) : (Value.number (wrap n)).InWord :=
  ⟨wrap_nonneg n, wrap_lt n⟩

theorem Value.inWord_of_isPlain {value : Value} (h : value.IsPlain) : value.InWord := by
  cases value with
  | number n => exact absurd rfl (h.number n)
  | _ => trivial

namespace Evaluation

open Eval

/-! ### The values of a moment -/

/-- The value of an ending has a property, and so has a value that is on its way to a call. -/
def EndsIn (p : Value → Prop) : Except Exit Value → Prop
  | .ok value | .error (.returned value) => p value
  | .error (.failed _) => True

/-- The values that come up at a moment have a property. -/
def Event.Holds (p : Value → Prop) : Event → Prop
  | .begun _ => True
  | .ended _ ending => EndsIn p ending
  | .called function values => p function ∧ ∀ value ∈ values, p value
  | .answered function values ending =>
    (p function ∧ ∀ value ∈ values, p value) ∧ EndsIn p ending

theorem Confined.endsIn {kind : State → Prop} {p : Value → Prop} {faults : Fault → Prop}
    {result : EStateM.Result Exit State Value} (h : Confined kind p faults p result) :
    EndsIn p (outcome result) := by
  cases h with
  | value hvalue _ => exact hvalue
  | returned hvalue _ => exact hvalue
  | failed _ _ => trivial

namespace Provenance.Follows

variable {engine : Engine} {P : Provenance engine} {monitor : Monitor}
  (hsilent : ∀ event state, event.Holds P.value → state.Holds P.value → monitor event state = none)
include hsilent

theorem between (before : Event) (hbefore : before.Holds P.value)
    (after : Except Exit Value → Event)
    (hafter : ∀ ending, EndsIn P.value ending → (after ending).Holds P.value) {x y : Eval Value}
    (h : P.Follows P.fault P.value x y) :
    P.Follows P.fault P.value (between monitor before after x) y := by
  intro state hstate
  obtain ⟨hsame, hconfined⟩ := h state hstate
  refine ⟨?_, hconfined⟩
  have hend := hsilent _ _ (hafter _ hconfined.endsIn) hconfined.last
  rw [← hsame] at hend
  exact (between_of_none (hsilent _ state hbefore hstate) hend).trans hsame

theorem monitoredLayer {eval eval' : Tree → Eval Value} (hevaluator : P.evaluator eval')
    (heval : ∀ tree, P.tree tree → P.Follows P.fault P.value (eval tree) (eval' tree)) {tree : Tree}
    (h : P.tree tree) :
    P.Follows P.fault P.value (monitoredLayer engine monitor eval tree)
      (Evaluation.layer engine eval' tree) := by
  cases tree with
  | call callee arguments =>
    refine evalCallWith heval h fun function values hfunction hvalues => ?_
    have hcall := callValue heval h hfunction hvalues
    exact between hsilent (.called function values) ⟨hfunction, hvalues⟩
      (.answered function values) (fun _ hending => ⟨⟨hfunction, hvalues⟩, hending⟩) hcall
  | _ => exact layer heval h fun _ _ _ _ => hevaluator

variable (hevaluator : ∀ room, P.evaluator (Evaluation.evalAt engine room))
include hevaluator

theorem monitoredAt (room : Nat) (tree : Tree) (h : P.tree tree) :
    P.Follows P.fault P.value (monitoredAt engine monitor room tree)
      (Evaluation.evalAt engine room tree) := by
  -- the induction is on the levels that are left, for all trees
  induction room generalizing tree with
  | zero =>
    by_cases hole : tree = .hole
    · subst hole
      exact .pure P.nothing
    · rw [monitoredAt_zero engine monitor hole, evalAt_zero engine hole]
      exact countStep.andThen (.fail (P.ordinary rfl))
  | succ room ih =>
    by_cases hole : tree = .hole
    · subst hole
      exact .pure P.nothing
    · rw [monitoredAt_succ engine monitor room hole, evalAt_succ engine room hole]
      have hlayer := monitoredLayer hsilent (hevaluator room) ih h
      have hbetween := between hsilent (.begun tree) trivial (.ended tree)
        (fun _ hending => hending) hlayer
      exact countStep.andThen (hbetween.deeper P.blind)

/-- **Nobody is heard who speaks of what the provenance rules out,** at whichever moment. -/
theorem monitoredExecute {body : List Tree} (h : ∀ tree ∈ body, P.tree tree) :
    P.Follows P.fault (fun _ => True) (monitoredExecute engine monitor body)
      (Evaluation.execute engine body) := by
  have heval : ∀ tree, P.tree tree →
      P.Follows P.fault P.value (monitored engine monitor tree) (Evaluation.eval engine tree) := by
    intro tree htree
    have hlevels := Tracks.chosen fun state =>
      monitoredAt hsilent hevaluator (room state) tree htree
    exact hlevels
  exact (hoist h).andThen ((evalSequence heval h).stopAtReturn P.blind)

end Provenance.Follows

/-! ### Sums and differences -/

variable {engine : Engine}

theorem combine_inWord {operator : Operator} {lhs rhs value : Value} {state after : State}
    (h : combine engine operator lhs rhs state = .ok value after) : value.InWord := by
  unfold combine at h
  split at h
  · cases h
    exact Value.inWord_wrap _
  · cases h
    trivial
  · cases h
    exact Value.inWord_wrap _
  all_goals cases h

theorem evalAdditive_inWord {eval : Tree → Eval Value} {operator : Operator} {left right : Tree}
    {value : Value} {state after : State}
    (h : evalAdditive engine eval operator left right state = .ok value after) : value.InWord := by
  obtain ⟨lhs, middle, -, h⟩ := exists_of_bind h
  obtain ⟨rhs, last, -, h⟩ := exists_of_bind h
  split at h
  · cases h
    trivial
  · exact combine_inWord h

/-- A sum or a difference that comes up at a moment is in range. -/
def Event.SumInWord : Event → Prop
  | .ended (.additive _ _ _) (.ok value) => value.InWord
  | _ => True

/-- A monitor who speaks of sums out of range only is never heard. -/
def Unheard.ofSums {monitor : Monitor}
    (hsilent : ∀ (event : Event) state, event.SumInWord → monitor event state = none) :
    Unheard engine monitor := by
  refine .ofAlike (fun _ => True) (fun _ _ _ => trivial) (fun _ _ => trivial)
    (fun {_ room tree _} _ h => h.between (fun state _ => hsilent _ state trivial) fun state _ => ?_)
    fun _ _ h => h.between (fun state _ => hsilent _ state trivial) fun _ _ =>
      hsilent _ _ trivial
  refine hsilent _ _ ?_
  cases hresult : layer engine (Evaluation.evalAt engine room) tree state with
  | error exit after => cases tree <;> trivial
  | ok value after =>
    cases tree with
    | additive operator left right => exact evalAdditive_inWord hresult
    | _ => trivial

/-- **A sum or a difference is in range**, whatever its operands are and wherever they come from. -/
theorem reaches_sum {body : List Tree} {start : State} {event : Event} {moment : State}
    (h : Reaches engine body start event moment) : event.SumInWord :=
  h.of_unheard fun _ hsilent => by
    exact ((Unheard.ofSums hsilent).execute start.depth body start ⟨rfl, trivial⟩).1

/-! ### Whole runs -/

/-- The values in range. Whatever trees there are, evaluation does not lead out of them, and all
faults are allowed. -/
def Provenance.inWord (hhost : engine.host.InWord) : Provenance engine where
  tree _ := True
  value := Value.InWord
  fault _ := True
  raised _ := True
  evaluator _ := True
  operand _ _ := trivial
  function _ := trivial
  body _ := trivial
  word := Value.inWord_wrap
  plain _ := Value.inWord_of_isPlain
  ordinary _ := trivial
  foreign _ _ := trivial
  unknown _ _ _ := trivial
  program _ := trivial
  misplaced _ _ _ _ _ _ := trivial
  disowned _ _ _ _ _ _ _ _ := trivial
  overlong _ _ := trivial
  overlongCallee _ _ := trivial
  overlongTarget _ _ := trivial
  handed _ := trivial
  relayed _ := trivial
  fatal _ _ := trivial
  tooLong := trivial
  host callable _ := hhost callable _

/-- **Script numbers stay in the range of a word.** Suppose that nothing out of range is bound or
stored when a run starts, and that the callables of the host bring in nothing out of range. Then, at
every moment of the run of any program, no frame binds a number out of range, no object has one, and
none is passed to what is called, returned by a call or the value of a tree. Without any such
assumption, no sum and no difference is out of range. -/
theorem run_inWord (engine : Engine) (body : List Tree) (start : State) :
    (engine.host.InWord → start.Holds Value.InWord →
      (∀ event moment, Reaches engine body start event moment →
        event.Holds Value.InWord ∧ moment.Holds Value.InWord) ∧
      (final (execute engine body start)).Holds Value.InWord) ∧
    ∀ operator left right n moment,
      Reaches engine body start (.ended (.additive operator left right) (.ok (.number n))) moment →
        0 ≤ n ∧ n < wordModulus := by
  refine ⟨fun hhost hstart => ⟨fun event moment h => ?_, ?_⟩, fun _ _ _ _ _ h => reaches_sum h⟩
  · refine h.of_unheard (p := fun event moment => event.Holds _ ∧ moment.Holds _)
      fun monitor hsilent => ?_
    have hfollows := Provenance.Follows.monitoredExecute (P := .inWord hhost)
      (fun event state hevent hstate => hsilent event state ⟨hevent, hstate⟩) (fun _ => trivial)
      (fun _ _ => trivial : ∀ tree ∈ body, True)
    exact (hfollows start hstart).same
  · have hfollows := Provenance.Follows.execute (P := .inWord hhost) (fun _ => trivial)
      (fun _ _ => trivial : ∀ tree ∈ body, True)
    exact (hfollows start hstart).confined.last

/-- `space.n = id(18446744073709551617) - 2` -/
def underflow : List Tree :=
  [.expressionStatement (.assignment .assign (.member (.identifier "space") (.identifier "n"))
    (.additive .sub (.call (.identifier "id") [.number 18446744073709551617]) (.number 2)))]

/-- The literal is out of range, but neither is what `id` is given nor what is stored. -/
theorem run_inWord_underflow :
    let engine : Engine := ⟨none, ⟨none, 10⟩, .ofStock #[.identity]⟩
    let space : Blueprint := .space "space" [("n", .plain (.number 5))] true
    let start := State.initial [("space", .object 0), ("id", .callable ⟨"identity", 0⟩)]
      (.ofStore (space.build .empty).2)
    engine.host.InWord ∧ start.Holds Value.InWord ∧
    (∀ event moment, Reaches engine underflow start event moment →
      event.Holds Value.InWord ∧ moment.Holds Value.InWord) ∧
    ((final (execute engine underflow start)).world.store.space 0).properties.get? "n" =
      some (.number 18446744073709551615) := by
  intro engine space start
  have hhost : engine.host.InWord := by
    intro callable values hvalues
    refine Host.ofStock_honours trivial (fun _ => trivial) (fun entry hentry => ?_) callable hvalues
    obtain rfl := Array.mem_singleton.1 hentry
    trivial
  have hspace : space.Holds Value.InWord := ⟨⟨by decide, by decide⟩, trivial⟩
  have hstart : start.Holds Value.InWord := by
    refine .initial (fun entry hentry => ?_)
      (hspace.build (fun _ => Value.inWord_of_isPlain) .empty).2
    rcases List.mem_cons.1 hentry with rfl | hentry
    · trivial
    · obtain rfl := List.mem_singleton.1 hentry
      trivial
  have hrun := (run_inWord engine underflow start).1 hhost hstart
  exact ⟨hhost, hstart, hrun.1, by decide +kernel⟩

end Evaluation

end PageScript
