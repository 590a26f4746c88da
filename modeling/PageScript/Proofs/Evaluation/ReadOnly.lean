import PageScript.Proofs.Evaluation.Contract
import PageScript.Proofs.Evaluation.Unwinding

/-!
# Read-only objects

A script can get hold of an object in many ways: by a global name, as a property of another object,
as an argument, from a function of its own or from a callable of the host. All that it can do to the
object is to write a property, and an object that is read-only refuses that. A script has no means
of catching the failure.

* `Store.IsReadOnly` — a value whose properties cannot be written: a read-only object, or an object
  without properties;
* `Act.Spares`, `Host.Spares` — callables of the host that do not write to a given object themselves;
* `sparing` — a read-only object stays as it is, across every evaluation;
* `Writes` — an assignment that comes to the write of a property;
* `readOnly_survives` — read-only objects survive every run, and a write to one ends it.

Objects are known by their places, so it makes no difference by which way a script has come to one.
-/

namespace PageScript

/-! ### Stores -/

namespace Store

variable {store : Store} {id : Nat} {space : Namespace}

/-- A value whose properties cannot be written. -/
def IsReadOnly (store : Store) : Value → Prop
  | .object id => (store.space id).writable = false
  | .bare => True
  | _ => False

/-- A write to it is refused in its own name, and in the name of no file. -/
theorem IsReadOnly.write {target : Value} (h : store.IsReadOnly target) (name : String)
    (value : Value) :
    store.write name value target =
      some (.error ⟨.readOnlyProperty name (store.describe target), none⟩) := by
  cases target with
  | object id =>
    have hwritable : (store.space id).writable = false := h
    simp only [Store.write, describe, hwritable, Bool.false_eq_true, if_false]
  | bare => rfl
  | _ => exact absurd h id

theorem getElem?_put_of_ne {other : Nat} (h : other ≠ id) (name : String) (value : Value) :
    (store.put other name value).spaces[id]? = store.spaces[id]? := by
  unfold Store.put
  rw [Array.getElem?_modify, if_neg h]

section

variable (h : store.spaces[id]? = some space)
include h

theorem getElem?_add (added : Namespace) : (store.add added).2.spaces[id]? = some space := by
  obtain ⟨hlt, -⟩ := Array.getElem?_eq_some_iff.1 h
  unfold Store.add
  rw [Array.getElem?_push_lt hlt, ← Array.getElem?_eq_getElem hlt, h]

/-- Only objects that are writable are written. -/
theorem getElem?_write (hreadOnly : space.writable = false) {name : String} {value target : Value}
    {after : Store} (hwrite : store.write name value target = some (.ok after)) :
    after.spaces[id]? = some space := by
  unfold Store.write at hwrite
  split at hwrite
  · next other =>
    dsimp only at hwrite
    split at hwrite
    · next hwritable =>
      obtain rfl := Except.ok.inj (Option.some.inj hwrite)
      have hother : other ≠ id := by
        rintro rfl
        have hspace : store.space other = space := by
          unfold Store.space
          rw [Array.getD_eq_getD_getElem?, h, Option.getD_some]
        rw [hspace, hreadOnly] at hwritable
        cases hwritable
      rwa [getElem?_put_of_ne hother]
    · simp at hwrite
  all_goals simp at hwrite

end

end Store

namespace Blueprint

mutual

/-- What is built gets places of its own. -/
theorem getElem?_build {id : Nat} {space : Namespace} : (blueprint : Blueprint) → (store : Store) →
    store.spaces[id]? = some space → (blueprint.build store).2.spaces[id]? = some space
  | plain _, _, h => h
  | console, _, h => Store.getElem?_add h _
  | .space _ properties _, store, h => Store.getElem?_add (getElem?_buildNamed properties store h) _

theorem getElem?_buildNamed {id : Nat} {space : Namespace} :
    (properties : List (String × Blueprint)) → (store : Store) → store.spaces[id]? = some space →
    (buildNamed properties store).2.spaces[id]? = some space
  | [], _, h => h
  | (_, blueprint) :: rest, store, h =>
    getElem?_buildNamed rest _ (getElem?_build blueprint store h)

end

end Blueprint

/-! ### Callables -/

/-- An act that does not write to the object at a place. -/
def Act.Spares (id : Nat) : Act → Prop
  | .done _ | .fail _ => True
  | .look next => ∀ world, (next world).Spares id
  | .print _ next | .record _ _ next => next.Spares id
  | .build _ next => ∀ value, (next value).Spares id
  | .put other _ _ next => other ≠ id ∧ next.Spares id
  | .invoke _ _ next => ∀ answer, (next answer).Spares id

/-- A host whose callables do not write to the object at a place. -/
def Host.Spares (id : Nat) (host : Host) : Prop :=
  ∀ callable values, (host callable values).Spares id

theorem Act.log_spares (id : Nat) (values : List Value) : (Act.log values).Spares id := by
  intro world
  dsimp only
  split <;> trivial

theorem Stock.act_spares (id : Nat) (entry : Stock) (values : List Value) :
    (entry.act values).Spares id := by
  cases entry with
  | const blueprint => exact fun value => trivial
  | identity =>
    rcases identity_act values with ⟨value, rfl⟩ | ⟨message, hact⟩
    · trivial
    · rw [hact]
      trivial
  | invoke =>
    rcases invoke_act values with ⟨closure, arguments, rfl⟩ | ⟨message, hact⟩
    · exact fun answer => by cases answer <;> trivial
    · rw [hact]
      trivial
  | _ => trivial

/-- No host in stock writes to objects. -/
theorem Host.ofStock_spares (id : Nat) (table : Array Stock) : (Host.ofStock table).Spares id := by
  intro callable values
  unfold Host.ofStock
  split
  · exact Stock.act_spares id _ values
  · trivial

namespace Evaluation

open Eval

/-! ### Runs leave read-only objects alone -/

/-- From every state that has a certain object at a place, the evaluation ends in such a state. -/
abbrev Spared {α : Type} (id : Nat) (space : Namespace) (x : Eval α) : Prop :=
  Upholds (fun state => state.world.store.spaces[id]? = some space) (fun _ => True) (fun _ => True)
    (fun _ => True) x

namespace Spared

variable {α : Type} {id : Nat} {space : Namespace}

theorem blind : Blind fun state => state.world.store.spaces[id]? = some space := by
  intro state state' _ hworld hstate
  rwa [hworld]

theorem throw (exit : Exit) : Spared id space (throw exit : Eval α) := by
  cases exit with
  | returned value => exact Tracks.giveBack trivial
  | failed fault => exact Tracks.refuse trivial

theorem writeProperty (hreadOnly : space.writable = false) (engine : Engine) (target : Value)
    (name : String) (value : Value) :
    Spared id space (writeProperty engine target name value) := by
  intro state hstate
  rw [writeProperty_eq]
  refine .look ?_
  split
  · next written hwrite =>
    exact ⟨rfl, .value trivial (Store.getElem?_write hstate hreadOnly hwrite)⟩
  · exact throw _ state hstate
  · have htext : Spared id space (textOf target) := by
      rw [textOf_eq]
      refine (Tracks.peek fun _ _ => trivial : Spared id space _).bind fun store _ => ?_
      split
      · exact Tracks.pure trivial
      · exact throw _
    exact (htext.bind fun text _ => throw _) state hstate

theorem perform {call : Closure → List Value → Eval Value}
    (hcall : ∀ closure values, Spared id space (call closure values)) {act : Act}
    (h : act.Spares id) : Spared id space (perform call act) := by
  have hworld : Spared id space (Evaluation.peek (·.world)) := Tracks.peek fun _ _ => trivial
  -- an act is a tree of steps: what holds behind every answer holds in front of the step
  induction act with
  | done value => exact Tracks.pure trivial
  | fail fault => exact throw _
  | look next ih =>
    rw [perform_look]
    exact hworld.bind fun world _ => ih world (h world)
  | print text next ih =>
    have hprint : Spared id space (modifyWorld (·.print text)) := Tracks.modify fun _ hstate => hstate
    exact hprint.andThen (ih h)
  | record name values next ih =>
    have hrecord : Spared id space (modifyWorld (·.record name values)) :=
      Tracks.modify fun _ hstate => hstate
    exact hrecord.andThen (ih h)
  | build blueprint next ih =>
    intro state hstate
    rw [perform_build]
    refine .look ?_
    have hbuilt := blueprint.getElem?_build state.world.store hstate
    have hthen := ih (blueprint.build state.world.store).1 (h _) { state with
      world := { state.world with store := (blueprint.build state.world.store).2 } } hbuilt
    exact ⟨hthen.same, hthen.confined⟩
  | put other name value next ih =>
    have hput : Spared id space
        (modifyWorld fun world => { world with store := world.store.put other name value }) :=
      Tracks.modify fun state hstate => (Store.getElem?_put_of_ne h.1 name value).trans hstate
    exact hput.andThen (ih h.2)
  | invoke closure values next ih =>
    have hanswer : Spared id space (attempt (call closure values)) :=
      (hcall closure values).attempt (fun _ _ => trivial) fun _ _ => trivial
    exact hanswer.bind fun answer _ => ih answer (h answer)

theorem callHost {engine : Engine} {eval : Tree → Eval Value}
    (hcall : ∀ closure values, Spared id space (callFunction engine eval closure values))
    (callee : Tree) {act : Act} (h : act.Spares id) :
    Spared id space (callHost engine eval callee act) := by
  have hanswer : Spared id space (attempt (Evaluation.perform (callFunction engine eval) act)) :=
    (perform hcall h).attempt (fun _ _ => trivial) fun _ _ => trivial
  refine hanswer.bind fun answer _ => ?_
  split
  · exact Tracks.pure trivial
  · exact throw _
  · split
    · exact throw _
    · have htext : Spared id space (describe callee) := by
        unfold describe
        split
        · exact Tracks.pure trivial
        · exact throw _
      exact htext.bind fun _ _ => throw _

end Spared

/-- What an object that is read-only is, it is after every evaluation. -/
def sparing {id : Nat} {space : Namespace} (hreadOnly : space.writable = false) (engine : Engine)
    (hhost : engine.host.Spares id) : Correspondence engine engine where
  Rel x _ := Spared id space x
  agree := .refl engine
  pure _ := Tracks.pure trivial
  bind hx hf := hx.bind fun value _ => hf value
  throw := Spared.throw
  note := Tracks.note Spared.blind
  resolve _ := Tracks.peek fun _ _ => trivial
  declared _ := Tracks.peek fun _ _ => trivial
  world := Tracks.peek fun _ _ => trivial
  declare _ _ := Tracks.modify fun _ hstate => hstate
  assign _ _ := Tracks.modify fun _ hstate => hstate
  declareFunction _ := Tracks.modify fun _ hstate => hstate
  write := Spared.writeProperty hreadOnly engine
  count := Tracks.countStep Spared.blind engine fun _ => trivial
  deeper := Tracks.deeper Spared.blind
  call h closure _ := Tracks.callFunction Spared.blind (fun _ hstate => hstate)
    (fun _ hstate => hstate) (fun _ => trivial) (h closure.body) trivial
  callHost h callee _ _ _ hact :=
    Spared.callHost h callee (of_actOf (Act.log_spares id) hhost hact)

theorem execute_spares {id : Nat} {space : Namespace} (hreadOnly : space.writable = false)
    {engine : Engine} (hhost : engine.host.Spares id) (body : List Tree) :
    Spared id space (execute engine body) := by
  let C := sparing hreadOnly engine hhost
  have heval : ∀ tree, C.Rel (eval engine tree) (eval engine tree) := by
    intro tree
    have hlevels := Tracks.chosen fun state => C.evalAt (room state) tree
    exact hlevels
  have hbody : Spared id space (evalSequence (eval engine) body) := C.evalSequence heval body
  exact (C.hoist body).andThen (hbody.stopAtReturn Spared.blind)

/-! ### Writes end the run -/

/-- From a moment, a tree comes to the write of a property of a value, in a given state: it is an
assignment to that property, and both the object and the value to be written have been found. -/
inductive Writes (engine : Engine) : (tree : Tree) → (moment : State) → (target : Value) →
    (name : String) → (last : State) → Prop
  | intro {operator : Operator} {object right : Tree} {name : String} {target value : Value}
      {moment middle last : State} :
      eval engine object moment = .ok target middle → eval engine right middle = .ok value last →
      target ≠ .nothing → value ≠ .nothing →
      Writes engine (.assignment operator (.member object (.identifier name)) right) moment target
        name last

theorem writeProperty_of_isReadOnly (engine : Engine) {state : State} {target : Value}
    (h : state.world.store.IsReadOnly target) (name : String) (value : Value) :
    writeProperty engine target name value state = .error (.failed (.script (.execution
      (.readOnlyProperty name (state.world.store.describe target)) engine.file))) state := by
  have hstore : peek (·.world.store) state = .ok state.world.store state := rfl
  rw [writeProperty_eq, bind_of_ok hstore, h.write]
  rfl

/-- Where the write is refused, the assignment fails. -/
theorem Writes.fails {engine : Engine} {tree : Tree} {moment last : State} {target : Value}
    {name : String} (h : Writes engine tree moment target name last)
    (hreadOnly : last.world.store.IsReadOnly target) :
    layer engine (evalAt engine (room moment)) tree moment =
      .error (.failed (.script (.execution
        (.readOnlyProperty name (last.world.store.describe target)) engine.file))) last := by
  cases h with
  | @intro operator object right name target value moment middle last hobject hright htarget hvalue =>
    have hmiddle := drift_restored.moves_eval engine object moment
    rw [hobject] at hmiddle
    have hroom : room middle = room moment := congrArg (maxDepth - ·) hmiddle.depth
    have hobject' : evalAt engine (room moment) object moment = .ok target middle := hobject
    have hright' : evalAt engine (room moment) right middle = .ok value last := by
      rw [← hroom]
      exact hright
    have hwrite := writeProperty_of_isReadOnly engine hreadOnly name value
    have hlayer : layer engine (evalAt engine (room moment))
        (.assignment operator (.member object (.identifier name)) right) =
        (evalAt engine (room moment) object >>= fun target =>
          evalAt engine (room moment) right >>= fun value =>
            if target = .nothing ∨ value = .nothing then pure .nothing
            else writeProperty engine target name value >>= fun _ => pure value) := rfl
    rw [hlayer, bind_of_ok hobject', bind_of_ok hright', if_neg (by simp [htarget, hvalue]),
      bind_of_error hwrite]

/-- **Read-only objects survive every script.** Take any program and any state to start in. An
object that is read-only, a console for one, is in the end what it was in the beginning, if no
callable of the host writes to it. If the run comes to a moment at which an assignment is about to
write a property of such an object, or of an object without properties, then it ends with a failure
that names the property and the object, so long as no callable of the host holds that failure back;
and but for frames that have been dropped, all is as it was when the property was to be written. -/
theorem readOnly_survives (engine : Engine) (body : List Tree) (start : State) :
    (∀ id space, start.world.store.spaces[id]? = some space → space.writable = false →
      engine.host.Spares id →
        (final (execute engine body start)).world.store.spaces[id]? = some space) ∧
    ∀ tree moment target name last, Reaches engine body start (.begun tree) moment →
      Writes engine tree moment target name last → last.world.store.IsReadOnly target →
      let failure := Failure.execution
        (.readOnlyProperty name (last.world.store.describe target)) engine.file
      engine.host.Passes (· = failure) →
        ∃ after, execute engine body start = .error (.failed (.script failure)) after ∧
          last.Remains after := by
  refine ⟨fun id space hspace hreadOnly hhost => ?_, ?_⟩
  · exact (execute_spares hreadOnly hhost body start hspace).confined.last
  · intro tree moment target name last hreaches hwrites hreadOnly failure hhost
    exact hreaches.stopped hhost (hwrites.fails hreadOnly)

/-- `o.log = 1` -/
def meddling : Tree :=
  .assignment .assign (.member (.identifier "o") (.identifier "log")) (.number 1)

/-- `function f(o) { o.log = 1 } invoke(f, console)`, where `invoke` calls what it is given. -/
def meddlers : List Tree :=
  [.function (.identifier "f") [.identifier "o"] (.block [.expressionStatement meddling]),
    .expressionStatement (.call (.identifier "invoke") [.identifier "f", .identifier "console"])]

/-- The state before it, with a console. -/
def unmeddled : State :=
  .initial [("invoke", .callable ⟨"invoke", 0⟩), ("console", .object 0)]
    (.ofStore Store.empty.addConsole.2)

/-- The state in which the assignment begins: the host has called the function. -/
def meddled : State where
  scope := (unmeddled.scope.declareFunction
    ⟨"f", [some "o"], .block [.expressionStatement meddling]⟩).enter
      (Frame.vacant.declare "o" (.object 0))
  steps := 8
  depth := 5
  callDepth := 1
  world := unmeddled.world
  log := #[⟨.debug, .evaluation, "Declared function f(o)"⟩,
    ⟨.debug, .evaluation, "Calling f with 1 argument(s)"⟩]

theorem readOnly_survives_meddlers :
    (unmeddled.world.store.spaces[0]? = some (.console 0) ∧ invoking.host.Spares 0) ∧
    (final (execute invoking meddlers unmeddled)).world.store.spaces[0]? = some (.console 0) ∧
    Reaches invoking meddlers unmeddled (.begun meddling) meddled ∧
    Writes invoking meddling meddled (.object 0) "log" { meddled with steps := 10 } ∧
    ∃ after, execute invoking meddlers unmeddled =
      .error (.failed (.script (.execution (.readOnlyProperty "log" "console") (some "<script>"))))
        after ∧
      State.Remains { meddled with steps := 10 } after := by
  have hspace : unmeddled.world.store.spaces[0]? = some (.console 0) := by decide
  have hspares : invoking.host.Spares 0 := Host.ofStock_spares 0 _
  have hreaches : Reaches invoking meddlers unmeddled (.begun meddling) meddled := by
    refine .of_begun (.ok .undefined { meddled with steps := 100 }) fun hsame => ?_
    have hsteps := congrArg (fun result => (final result).steps) hsame
    revert hsteps
    decide +kernel
  have hobject : eval invoking (.identifier "o") meddled =
      .ok (.object 0) { meddled with steps := 9 } := rfl
  have hright : eval invoking (.number 1) { meddled with steps := 9 } =
      .ok (.number 1) { meddled with steps := 10 } := rfl
  have hwrites : Writes invoking meddling meddled (.object 0) "log" { meddled with steps := 10 } :=
    .intro hobject hright nofun nofun
  obtain ⟨hsurvives, hends⟩ := readOnly_survives invoking meddlers unmeddled
  exact ⟨⟨hspace, hspares⟩, hsurvives 0 (.console 0) hspace rfl hspares, hreaches, hwrites,
    hends _ _ _ _ _ hreaches hwrites rfl (Host.ofStock_passes _)⟩

end Evaluation

end PageScript
