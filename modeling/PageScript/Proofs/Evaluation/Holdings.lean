import PageScript.Embedding.Stock
import PageScript.Evaluation.State
import PageScript.Proofs.Evaluation.Frames

/-!
# What a run holds

Values are held in many places during a run: in frames, as variables and as functions, in the
properties of objects, in the recorded calls, and in what the embedding application builds. Here is
what it means that all of them have a property, and that each change of a state keeps it so.

* `Frame.Holds`, `Store.Holds`, `World.Holds`, `State.Holds` — all values there have a property;
* `Blueprint.Holds` — so have those of a description, and then what is built from it;
* `Act.Honours` — an act that brings in only such values, and only certain faults, so long as it is
  handed no others;
* `Stock.Honours`, `Host.ofStock_honours` — the ready-made callables that do.

A function that is bound to its name is held like a variable.
-/

namespace PageScript

variable {p : Value → Prop}

/-! ### Frames -/

/-- All values that a frame binds have a property. -/
structure Frame.Holds (p : Value → Prop) (frame : Frame) : Prop where
  vars : frame.vars.All p
  functions : frame.functions.All fun closure => p (.function closure)

namespace Frame

theorem Holds.vacant : Frame.vacant.Holds p := ⟨.empty, .empty⟩

theorem Holds.get {frame : Frame} (h : frame.Holds p) {name : String} {value : Value}
    (hvalue : frame.get? name = some value) : p value := by
  rw [get?, Option.or_eq_some_iff, Option.map_eq_some_iff] at hvalue
  rcases hvalue with hvar | ⟨-, closure, hclosure, rfl⟩
  · exact h.vars name value hvar
  · exact h.functions name closure hclosure

theorem Holds.declare {frame : Frame} (h : frame.Holds p) (name : String) {value : Value}
    (hvalue : p value) : (frame.declare name value).Holds p :=
  ⟨h.vars.insert name hvalue, h.functions⟩

theorem Holds.declareFunction {frame : Frame} (h : frame.Holds p) {closure : Closure}
    (hclosure : p (.function closure)) : (frame.declareFunction closure).Holds p :=
  ⟨h.vars, h.functions.insert closure.name hclosure⟩

end Frame

/-! ### Objects -/

/-- All values that the properties of objects have are of a kind. -/
def Store.Holds (p : Value → Prop) (store : Store) : Prop :=
  ∀ id, (store.space id).properties.All p

namespace Store

theorem Holds.empty : Store.empty.Holds p := fun _ => .empty

variable {store : Store} (h : store.Holds p)
include h

theorem Holds.add {space : Namespace} (hspace : space.properties.All p) :
    (store.add space).2.Holds p := by
  intro id
  have hold := h id
  unfold Store.space at hold ⊢
  simp only [Store.add, Array.getD_eq_getD_getElem?, Array.getElem?_push] at hold ⊢
  split
  · exact hspace
  · exact hold

theorem Holds.put (id : Nat) (name : String) {value : Value} (hvalue : p value) :
    (store.put id name value).Holds p := by
  intro other
  have hold := h other
  unfold Store.space at hold ⊢
  simp only [Store.put, Array.getD_eq_getD_getElem?, Array.getElem?_modify] at hold ⊢
  split
  · cases hspace : store.spaces[other]? with
    | none => exact .empty
    | some space =>
      rw [hspace] at hold
      exact Bindings.All.insert hold name hvalue
  · exact hold

theorem Holds.read {name : String} {target value : Value}
    (hread : store.read name target = some (.ok value)) : p value := by
  unfold Store.read at hread
  split at hread
  · next id =>
    dsimp only at hread
    split at hread
    · next found hfound =>
      obtain rfl := Except.ok.inj (Option.some.inj hread)
      exact h id name found hfound
    · simp at hread
  · simp at hread
  · simp at hread
  · simp at hread

theorem Holds.write {name : String} {target value : Value} (hvalue : p value) {after : Store}
    (hwrite : store.write name value target = some (.ok after)) : after.Holds p := by
  unfold Store.write at hwrite
  split at hwrite
  · next id =>
    dsimp only at hwrite
    split at hwrite
    · obtain rfl := Except.ok.inj (Option.some.inj hwrite)
      exact h.put id name hvalue
    · simp at hwrite
  · simp at hwrite
  · simp at hwrite
  · simp at hwrite

end Store

/-- A value that a store holds as it is: no number, no function, and no object that may speak in the
name of a file. -/
structure Value.IsPlain (value : Value) : Prop where
  number : ∀ n, value ≠ .number n
  function : ∀ closure, value ≠ .function closure
  foreign : ∀ owner file, value ≠ .foreign owner file

theorem Value.IsPlain.object (id : Nat) : (Value.object id).IsPlain :=
  ⟨fun _ => Value.noConfusion, fun _ => Value.noConfusion, fun _ _ => Value.noConfusion⟩

theorem Value.IsPlain.logger (id : Nat) : (Value.logger id).IsPlain :=
  ⟨fun _ => Value.noConfusion, fun _ => Value.noConfusion, fun _ _ => Value.noConfusion⟩

namespace Blueprint

variable (p) in
mutual

/-- All values that are described have a property. -/
def Holds : Blueprint → Prop
  | plain value => p value
  | console => True
  | space _ properties _ => HoldAll properties

/-- All values of several descriptions have a property. -/
def HoldAll : List (String × Blueprint) → Prop
  | [] => True
  | (_, blueprint) :: rest => Holds blueprint ∧ HoldAll rest

end

mutual

theorem Holds.build (hplain : ∀ value : Value, value.IsPlain → p value) :
    {blueprint : Blueprint} → blueprint.Holds p → {store : Store} → store.Holds p →
    p (blueprint.build store).1 ∧ (blueprint.build store).2.Holds p
  | plain value, h, store, hstore => ⟨h, hstore⟩
  | console, h, store, hstore => by
    have hconsole : (Namespace.console store.spaces.size).properties.All p :=
      Bindings.All.ofList fun entry hentry => by
        obtain rfl := List.mem_singleton.1 hentry
        exact hplain _ (.logger _)
    exact ⟨hplain _ (.object _), hstore.add hconsole⟩
  | space name properties writable, h, store, hstore => by
    obtain ⟨hvalues, hbuilt⟩ := HoldAll.buildNamed hplain h hstore
    exact ⟨hplain _ (.object _), hbuilt.add (Bindings.All.ofList hvalues)⟩

theorem HoldAll.buildNamed (hplain : ∀ value : Value, value.IsPlain → p value) :
    {properties : List (String × Blueprint)} → HoldAll p properties → {store : Store} →
    store.Holds p →
    (∀ entry ∈ (Blueprint.buildNamed properties store).1, p entry.2) ∧
      (Blueprint.buildNamed properties store).2.Holds p
  | [], h, store, hstore => ⟨fun entry hentry => absurd hentry List.not_mem_nil, hstore⟩
  | (name, blueprint) :: rest, h, store, hstore => by
    obtain ⟨hvalue, hmiddle⟩ := Holds.build hplain h.1 hstore
    obtain ⟨hvalues, hlast⟩ := HoldAll.buildNamed hplain h.2 hmiddle
    refine ⟨fun entry hentry => ?_, hlast⟩
    rcases List.mem_cons.1 hentry with rfl | hentry
    · exact hvalue
    · exact hvalues entry hentry

end

end Blueprint

/-! ### States -/

/-- All values in the objects and in the recorded calls have a property. -/
structure World.Holds (p : Value → Prop) (world : World) : Prop where
  store : world.store.Holds p
  calls : ∀ call ∈ world.calls, ∀ value ∈ call.2, p value

/-- All values in a state have a property, those in the waiting frames included. -/
structure State.Holds (p : Value → Prop) (state : State) : Prop where
  scope : state.scope.Every (Frame.Holds p)
  world : state.world.Holds p

theorem State.Holds.mono {state : State} (h : state.Holds p) {q : Value → Prop}
    (himp : ∀ value, p value → q value) : state.Holds q := by
  have hframe : ∀ frame : Frame, frame.Holds p → frame.Holds q := fun frame hframe =>
    ⟨fun name value hvalue => himp value (hframe.vars name value hvalue),
      fun name closure hclosure => himp _ (hframe.functions name closure hclosure)⟩
  refine ⟨⟨hframe _ h.scope.globals, fun frame hmem => hframe frame (h.scope.calls frame hmem)⟩,
    fun id name value hvalue => himp value (h.world.store id name value hvalue),
    fun call hcall value hvalue => himp value (h.world.calls call hcall value hvalue)⟩

theorem State.Holds.initial {globals : List (String × Value)}
    (hglobals : ∀ entry ∈ globals, p entry.2) {store : Store} (hstore : store.Holds p) :
    (State.initial globals (.ofStore store)).Holds p where
  scope := ⟨⟨.ofList hglobals, .empty⟩, fun _ hframe => absurd hframe List.not_mem_nil⟩
  world := ⟨hstore, fun call hcall => absurd hcall (Array.not_mem_empty call)⟩

/-! ### Callables -/

/-- What a call of a function of the script may answer: a value that has a property, or one of
certain faults. -/
def Answered (p : Value → Prop) (raised : Fault → Prop) : Except Fault Value → Prop
  | .ok value => p value
  | .error fault => raised fault

/-- An act that brings in no values but those with a property, so long as it comes upon no others,
and no faults but certain ones, so long as it is handed no others. -/
def Act.Honours (p : Value → Prop) (raised : Fault → Prop) : Act → Prop
  | .done value => p value
  | .fail fault => raised fault
  | .look next => ∀ world : World, world.Holds p → (next world).Honours p raised
  | .print _ next => next.Honours p raised
  | .record _ values next => (∀ value ∈ values, p value) ∧ next.Honours p raised
  | .build blueprint next =>
    blueprint.Holds p ∧ ∀ value : Value, p value → (next value).Honours p raised
  | .put _ _ value next => p value ∧ next.Honours p raised
  | .invoke closure values next =>
    p (.function closure) ∧ (∀ value ∈ values, p value) ∧
      ∀ answer, Answered p raised answer → (next answer).Honours p raised

variable {raised : Fault → Prop}

/-- A console brings in nothing. -/
theorem Act.log_honours (hnothing : p .nothing) (htooLong : raised (.host .numberTooLong))
    (values : List Value) : (Act.log values).Honours p raised := by
  intro world _
  dsimp only
  split
  · exact hnothing
  · exact htooLong

/-- A ready-made function that brings in no values but those with a property, and no faults but
certain ones. A function that counts its arguments may answer with any number. -/
def Stock.Honours (p : Value → Prop) (raised : Fault → Prop) : Stock → Prop
  | .record _ => ∀ count : Nat, p (.number count)
  | .const blueprint => blueprint.Holds p
  | .raise fault => raised fault
  | .identity | .last | .invoke => True

theorem Stock.act_honours (hnothing : p .nothing)
    (htype : ∀ message, raised (typeFault message)) {entry : Stock} (h : entry.Honours p raised)
    {values : List Value} (hvalues : ∀ value ∈ values, p value) :
    (entry.act values).Honours p raised := by
  cases entry with
  | record name => exact ⟨hvalues, h values.length⟩
  | const blueprint => exact ⟨h, fun value hvalue => hvalue⟩
  | identity =>
    rcases identity_act values with ⟨value, rfl⟩ | ⟨message, hact⟩
    · exact hvalues value (List.mem_cons_self ..)
    · rw [hact]
      exact htype message
  | last =>
    show p (values.getLast?.getD .nothing)
    cases hlast : values.getLast? with
    | none => exact hnothing
    | some value => exact hvalues value (List.mem_of_getLast? hlast)
  | raise fault => exact h
  | invoke =>
    rcases invoke_act values with ⟨closure, arguments, rfl⟩ | ⟨message, hact⟩
    · refine ⟨hvalues _ (List.mem_cons_self ..), fun value hvalue => ?_, fun answer hanswer => ?_⟩
      · exact hvalues value (List.mem_cons_of_mem _ hvalue)
      · cases answer <;> exact hanswer
    · rw [hact]
      exact htype message

theorem Host.ofStock_honours (hnothing : p .nothing)
    (htype : ∀ message, raised (Stock.typeFault message)) {table : Array Stock}
    (h : ∀ entry ∈ table, entry.Honours p raised) (callable : Callable) {values : List Value}
    (hvalues : ∀ value ∈ values, p value) :
    (Host.ofStock table callable values).Honours p raised := by
  unfold Host.ofStock
  split
  · next entry hentry =>
    exact Stock.act_honours hnothing htype (h entry (Array.mem_of_getElem? hentry)) hvalues
  · exact hnothing

end PageScript
