import PageScript.Proofs.Evaluation.Holdings
import PageScript.Tree.Rendering

/-!
# The numbers within reach

A number gets into a run as part of the script, of the globals, of the objects of the embedding
application, or of what its callables do. Everything that a run is made of can be confined to a
given set of numbers.

* `Tree.Only`, `Value.Only`, `Frame.Only`, `Store.Only`, `State.Only` — only the given numbers occur;
* `Act.Only`, `Host.Only` — callables that bring in no other numbers, so long as they are given no
  others, and that do not end the whole program;
* `State.only_iff`, `Act.only_iff` — that is to hold such values only, and to honour that;
* `Overlong` — the fault of writing one of the numbers down, which is too long for it;
* `overlong_of_text`, `overlong_of_describe` — values and trees that cannot be written down.
-/

namespace PageScript

variable (numbers : Int → Prop)

/-! ### What can be bound -/

mutual

/-- Only the given numbers occur in a tree. -/
def Tree.Only : Tree → Prop
  | .hole | .string _ | .identifier _ => True
  | .number value => numbers value
  | .expressionStatement tree | .returnStatement tree => Tree.Only tree
  | .additive _ left right | .assignment _ left right | .member left right
  | .declarator left right => Tree.Only left ∧ Tree.Only right
  | .declaration trees | .block trees | .program trees => Tree.OnlyAll trees
  | .function name params body => Tree.Only name ∧ Tree.OnlyAll params ∧ Tree.Only body
  | .call callee arguments => Tree.Only callee ∧ Tree.OnlyAll arguments

/-- Only the given numbers occur in several trees. -/
def Tree.OnlyAll : List Tree → Prop
  | [] => True
  | tree :: trees => Tree.Only tree ∧ Tree.OnlyAll trees

end

/-- Only the given numbers occur in the body of a function. -/
def Closure.Only (closure : Closure) : Prop := closure.body.Only numbers

/-- A value is no other number, and no function in which another occurs. -/
def Value.Only : Value → Prop
  | .number value => numbers value
  | .function closure => closure.Only numbers
  | _ => True

variable {numbers}

theorem Tree.onlyAll_iff (trees : List Tree) :
    Tree.OnlyAll numbers trees ↔ ∀ tree ∈ trees, tree.Only numbers := by
  induction trees with
  | nil => exact ⟨fun _ _ htree => absurd htree List.not_mem_nil, fun _ => trivial⟩
  | cons tree trees ih => rw [Tree.OnlyAll, List.forall_mem_cons, ih]

theorem Value.only_of_isPlain {value : Value} (h : value.IsPlain) : value.Only numbers := by
  cases value with
  | number n => exact absurd rfl (h.number n)
  | function closure => exact absurd rfl (h.function closure)
  | _ => trivial

/-! ### Frames -/

variable (numbers) in
/-- Only the given numbers occur in what a frame binds. -/
structure Frame.Only (frame : Frame) : Prop where
  vars : frame.vars.All (Value.Only numbers)
  functions : frame.functions.All (Closure.Only numbers)

theorem Frame.only_iff {frame : Frame} :
    frame.Only numbers ↔ frame.Holds (Value.Only numbers) :=
  ⟨fun h => ⟨h.vars, h.functions⟩, fun h => ⟨h.vars, h.functions⟩⟩

variable (numbers) in
/-- Only the given numbers occur in what a running script sees, now or once it has returned. -/
structure Scope.Only (scope : Scope) : Prop where
  globals : scope.globals.Only numbers
  calls : ∀ frame ∈ scope.calls, frame.Only numbers

theorem Scope.only_iff {scope : Scope} :
    scope.Only numbers ↔ scope.Every (Frame.Holds (Value.Only numbers)) := by
  constructor
  · exact fun h => ⟨Frame.only_iff.1 h.globals, fun frame hframe =>
      Frame.only_iff.1 (h.calls frame hframe)⟩
  · exact fun h => ⟨Frame.only_iff.2 h.globals, fun frame hframe =>
      Frame.only_iff.2 (h.calls frame hframe)⟩

/-! ### The outside of a script -/

variable (numbers) in
/-- Only the given numbers occur in the properties of an object. -/
def Namespace.Only (space : Namespace) : Prop := space.properties.All (Value.Only numbers)

variable (numbers) in
/-- Only the given numbers occur in the properties of any object. -/
def Store.Only (store : Store) : Prop := ∀ id, (store.space id).Only numbers

namespace Blueprint

variable (numbers)

mutual

/-- Only the given numbers occur in what is described. -/
def Only : Blueprint → Prop
  | plain value => value.Only numbers
  | console => True
  | space _ properties _ => OnlyAll properties

/-- Only the given numbers occur in several descriptions. -/
def OnlyAll : List (String × Blueprint) → Prop
  | [] => True
  | (_, blueprint) :: rest => Only blueprint ∧ OnlyAll rest

end

variable {numbers}

mutual

theorem only_iff : (blueprint : Blueprint) →
    (blueprint.Only numbers ↔ blueprint.Holds (Value.Only numbers))
  | plain _ | console => Iff.rfl
  | space _ properties _ => onlyAll_iff properties

theorem onlyAll_iff : (properties : List (String × Blueprint)) →
    (OnlyAll numbers properties ↔ HoldAll (Value.Only numbers) properties)
  | [] => Iff.rfl
  | (_, blueprint) :: rest => and_congr (only_iff blueprint) (onlyAll_iff rest)

end

end Blueprint

variable (numbers) in
/-- Only the given numbers occur in the objects and in the recorded calls. -/
structure World.Only (world : World) : Prop where
  store : world.store.Only numbers
  calls : ∀ call ∈ world.calls, ∀ value ∈ call.2, value.Only numbers

variable (numbers) in
/-- Only the given numbers occur in a state. -/
structure State.Only (state : State) : Prop where
  scope : state.scope.Only numbers
  world : state.world.Only numbers

theorem World.only_iff {world : World} :
    world.Only numbers ↔ world.Holds (Value.Only numbers) :=
  ⟨fun h => ⟨h.store, h.calls⟩, fun h => ⟨h.store, h.calls⟩⟩

theorem State.only_iff {state : State} :
    state.Only numbers ↔ state.Holds (Value.Only numbers) := by
  constructor
  · exact fun h => ⟨Scope.only_iff.1 h.scope, World.only_iff.1 h.world⟩
  · exact fun h => ⟨Scope.only_iff.2 h.scope, World.only_iff.2 h.world⟩

/-! ### Callables -/

/-- A fault that does not end the whole program. -/
def Fault.Recoverable : Fault → Prop
  | .script _ => True
  | .host fault => fault.isFatal = false

variable (numbers) in
/-- What a call of a function of the script answers, if only the given numbers occur in it. -/
def Answers : Except Fault Value → Prop
  | .ok value => value.Only numbers
  | .error fault => fault.Recoverable

variable (numbers) in
/-- An act that brings in no other numbers, so long as it comes upon no others, and whose faults are
recoverable, so long as it is handed no others. -/
def Act.Only : Act → Prop
  | .done value => value.Only numbers
  | .fail fault => fault.Recoverable
  | .look next => ∀ world : World, world.Only numbers → (next world).Only
  | .print _ next => next.Only
  | .record _ values next => (∀ value ∈ values, value.Only numbers) ∧ next.Only
  | .build blueprint next =>
    blueprint.Only numbers ∧ ∀ value : Value, value.Only numbers → (next value).Only
  | .put _ _ value next => value.Only numbers ∧ next.Only
  | .invoke closure values next =>
    closure.Only numbers ∧ (∀ value ∈ values, value.Only numbers) ∧
      ∀ answer, Answers numbers answer → (next answer).Only

variable (numbers) in
/-- A host that brings in no numbers but the given ones, and no fault that ends the program. -/
def Host.Only (host : Host) : Prop :=
  ∀ callable values, (∀ value ∈ values, value.Only numbers) → (host callable values).Only numbers

theorem answers_iff {answer : Except Fault Value} :
    Answers numbers answer ↔ Answered (Value.Only numbers) Fault.Recoverable answer := by
  cases answer <;> exact Iff.rfl

/-- An act keeps to its numbers if it honours them. -/
theorem Act.only_iff (act : Act) :
    act.Only numbers ↔ act.Honours (Value.Only numbers) Fault.Recoverable := by
  induction act with
  | done value => exact Iff.rfl
  | fail fault => exact Iff.rfl
  | look next ih => exact forall_congr' fun world => imp_congr World.only_iff (ih world)
  | print text next ih => exact ih
  | record name values next ih => exact and_congr Iff.rfl ih
  | build blueprint next ih =>
    exact and_congr blueprint.only_iff (forall_congr' fun value => imp_congr Iff.rfl (ih value))
  | put id name value next ih => exact and_congr Iff.rfl ih
  | invoke closure values next ih =>
    exact and_congr Iff.rfl (and_congr Iff.rfl
      (forall_congr' fun answer => imp_congr answers_iff (ih answer)))

variable (numbers) in
/-- A ready-made function that brings in no other numbers and no fault that ends the program. A
function that counts its arguments may answer with any number. -/
def Stock.Only : Stock → Prop
  | .record _ => ∀ count : Nat, numbers count
  | .const blueprint => blueprint.Only numbers
  | .raise fault => fault.Recoverable
  | .identity | .last | .invoke => True

theorem Stock.Only.honours {entry : Stock} (h : entry.Only numbers) :
    entry.Honours (Value.Only numbers) Fault.Recoverable := by
  cases entry with
  | const blueprint => exact blueprint.only_iff.1 h
  | _ => exact h

variable (numbers) in
/-- The fault of writing down one of the numbers, which is too long for it. -/
def Overlong (fault : HostFault) : Prop :=
  fault = .numberTooLong ∧ ∃ n, numbers n ∧ Text.writeInteger? n = none

variable (numbers) in
/-- A fault of the script, or the one of writing one of the numbers down. -/
def Fault.Only : Fault → Prop
  | .script _ => True
  | .host fault => Overlong numbers fault

theorem Fault.Only.recoverable {fault : Fault} (h : fault.Only numbers) :
    fault.Recoverable := by
  cases fault with
  | script failure => trivial
  | host fault =>
    obtain ⟨rfl, -⟩ := h
    exact rfl

theorem overlong_of_text {store : Store} {value : Value} (h : value.Only numbers)
    (htext : store.text? value = none) : Overlong numbers .numberTooLong := by
  cases value with
  | number n => exact ⟨rfl, n, h, htext⟩
  | _ => cases htext

/-- Two texts are missing together only if one of them is. -/
theorem of_pair_eq_none {α β γ : Type} {x : Option α} {y : Option β} {build : α → β → γ} {p : Prop}
    (hx : x = none → p) (hy : y = none → p)
    (h : (do let a ← x; let b ← y; return build a b) = none) : p := by
  cases x with
  | none => exact hx rfl
  | some a =>
    cases y with
    | none => exact hy rfl
    | some b => simp at h

mutual

theorem overlong_of_describe : (tree : Tree) → tree.Only numbers → tree.describe? = none →
    Overlong numbers .numberTooLong
  | .number n => fun h hnone => by
    rw [Tree.describe?] at hnone
    exact ⟨rfl, n, h, hnone⟩
  | .member object property => fun h hnone => by
    rw [Tree.describe?] at hnone
    exact of_pair_eq_none (overlong_of_describe object h.1) (overlong_of_describe property h.2) hnone
  | .call callee arguments => fun h hnone => by
    rw [Tree.describe?] at hnone
    exact of_pair_eq_none (overlong_of_describe callee h.1) (overlong_of_describeAll arguments h.2)
      hnone
  | .additive _ left right | .assignment _ left right => fun h hnone => by
    rw [Tree.describe?] at hnone
    exact of_pair_eq_none (overlong_of_describe left h.1) (overlong_of_describe right h.2) hnone
  | .function name _ _ => fun h hnone => by
    cases hname : name.describe? with
    | none => exact overlong_of_describe name h.1 hname
    | some text => simp [Tree.describe?, hname] at hnone
  | .hole | .string _ | .identifier _ | .expressionStatement _ | .declarator _ _ | .declaration _
  | .block _ | .returnStatement _ | .program _ => fun _ hnone => by
    simp [Tree.describe?] at hnone

theorem overlong_of_describeAll : (trees : List Tree) → Tree.OnlyAll numbers trees →
    Tree.describeAll? trees = none → Overlong numbers .numberTooLong
  | [] => fun _ hnone => by simp [Tree.describeAll?] at hnone
  | tree :: trees => fun h hnone => by
    rw [Tree.describeAll?] at hnone
    exact of_pair_eq_none (overlong_of_describe tree h.1) (overlong_of_describeAll trees h.2) hnone

end

end PageScript
