import PageScript.Scope
import PageScript.Scope.Forest

/-!
# The nearest binding

In a forest of frames a name stands for what it was given last in the nearest frame that has ever
been given anything by that name. A history says what has been given and where, without the tables
of the frames.

* `Forest.Write`, `Forest.History` — all that can be done to the frames of a forest, and all that has
  been done since it was empty;
* `History.chain`, `History.receipts` — the frames around a frame, by their parents, and all that the
  frames have received;
* `nearest`, `standing` — the first frame of a chain that has received a name, and what the name
  stands for there;
* `History.held_eq`, `History.find_eq` — the tables hold what the receipts say, so the search in the
  tables finds what the receipts say;
* `held_apply` — a write changes what one frame holds by one name, and nothing else;
* `nearest_binding` — all of this, after any history;
* `Scope.LivesIn` — the scope of a running script as frames of a forest, where the operations of the
  one are those of the other;
* `Scope.lookup_moves` — so a running script finds what the forest finds.

A frame may be added at any time, inside of any frame that is there.
-/

namespace PageScript

namespace Forest

/-! ### What is done to a forest -/

/-- A write to one of so many frames. -/
inductive Write (size : Nat) where
  | declare (id : Fin size) (name : String) (value : Value)
  | assign (id : Fin size) (name : String) (value : Value)
  | declareFunction (id : Fin size) (closure : Closure)

/-- All that has been done to a forest that has so many frames by now. -/
inductive History : (size : Nat) → Type where
  | empty : History 0
  | add {size : Nat} (earlier : History size) (parent : Option (Fin size)) : History (size + 1)
  | write {size : Nat} (earlier : History size) (last : Write size) : History size

variable {size : Nat}

def Write.apply (forest : Forest) : Write size → Forest
  | .declare id name value => forest.declare id name value
  | .assign id name value => forest.assign id name value
  | .declareFunction id closure => forest.declareFunction id closure

/-- The forest that a history leads to. -/
def History.forest {size : Nat} : History size → Forest
  | .empty => .empty
  | .add earlier parent => (earlier.forest.add (parent.map (·.val))).2
  | .write earlier last => last.apply earlier.forest

/-- The name that a write is about. -/
def Write.name : Write size → String
  | .declare _ name _ | .assign _ name _ => name
  | .declareFunction _ closure => closure.name

/-- The frame that a write goes to: the given one, or for an assignment the nearest frame that binds
the name, if there is one. -/
def Write.place (forest : Forest) : Write size → Nat
  | .declare id _ _ | .declareFunction id _ => id
  | .assign id name _ => (forest.find? id name).getD id

/-- What a frame holds by a name, as a variable and as a function. -/
def held (forest : Forest) (id : Nat) (name : String) : Option Value × Option Closure :=
  ((forest.frame id).vars.get? name, (forest.frame id).functions.get? name)

/-- What a frame holds by the name of a write once it has got it. -/
def Write.rebound : Write size → Option Value × Option Closure → Option Value × Option Closure
  | .declare _ _ value, before | .assign _ _ value, before => (some value, before.2)
  | .declareFunction _ closure, before => (before.1, some closure)

/-! ### What the frames have received -/

/-- What a name is given. -/
inductive Gift where
  | value (value : Value)
  | function (closure : Closure)

/-- A frame has been given something by a name. -/
structure Receipt where
  frame : Nat
  name : String
  gift : Gift

/-- Whether a receipt is that of a frame for a name. -/
def Receipt.isFor (id : Nat) (name : String) (receipt : Receipt) : Bool :=
  decide (receipt.frame = id ∧ receipt.name = name)

def Receipt.value? (receipt : Receipt) : Option Value :=
  match receipt.gift with
  | .value value => some value
  | .function _ => none

def Receipt.function? (receipt : Receipt) : Option Closure :=
  match receipt.gift with
  | .value _ => none
  | .function closure => some closure

/-- Whether a frame has ever received a name. -/
def received (receipts : List Receipt) (id : Nat) (name : String) : Bool :=
  receipts.any (·.isFor id name)

/-- The first frame of a chain that has ever received a name. -/
def nearest (receipts : List Receipt) (chain : List Nat) (name : String) : Option Nat :=
  chain.find? (received receipts · name)

/-- The last value that a frame has received by a name. The last receipt stands first. -/
def lastValue (receipts : List Receipt) (id : Nat) (name : String) : Option Value :=
  (receipts.filter (·.isFor id name)).findSome? Receipt.value?

/-- The last function that a frame has received by a name. -/
def lastFunction (receipts : List Receipt) (id : Nat) (name : String) : Option Closure :=
  (receipts.filter (·.isFor id name)).findSome? Receipt.function?

/-- What a name stands for in a frame: the last value, or the last function if there was no value. -/
def standing (receipts : List Receipt) (id : Nat) (name : String) : Option Value :=
  (lastValue receipts id name).or ((lastFunction receipts id name).map .function)

/-- The receipt for a write, where these have been the receipts and the chains before. -/
def Write.receipt (receipts : List Receipt) (chain : Nat → List Nat) : Write size → Receipt
  | .declare id name value => ⟨id, name, .value value⟩
  | .assign id name value => ⟨(nearest receipts (chain id) name).getD id, name, .value value⟩
  | .declareFunction id closure => ⟨id, closure.name, .function closure⟩

namespace History

/-- A frame, its parent, the parent of that, and so on. -/
def chain {size : Nat} : History size → Nat → List Nat
  | .empty, id => [id]
  | @add size earlier parent, id =>
    if id = size then
      match parent with
      | none => [id]
      | some parent => id :: earlier.chain parent
    else earlier.chain id
  | .write earlier _, id => earlier.chain id

/-- All that the frames have received, the last receipt first. -/
def receipts {size : Nat} : History size → List Receipt
  | .empty => []
  | .add earlier _ => earlier.receipts
  | .write earlier last => last.receipt earlier.receipts earlier.chain :: earlier.receipts

end History

/-! ### Single steps -/

theorem size_modify (forest : Forest) (id : Nat) (change : Frame → Frame) :
    (forest.modify id change).frames.size = forest.frames.size := Array.size_modify

theorem frame_modify {forest : Forest} {id : Nat} (h : id < forest.frames.size)
    (change : Frame → Frame) (k : Nat) :
    (forest.modify id change).frame k =
      if k = id then change (forest.frame k) else forest.frame k := by
  unfold frame modify
  rw [Array.getElem?_modify]
  by_cases hk : k = id
  · subst hk
    simp [Array.getElem?_eq_getElem h]
  · simp [hk, Ne.symm hk]

theorem chain_modify (forest : Forest) (id : Nat) (change : Frame → Frame) (k : Nat) :
    (forest.modify id change).chain k = forest.chain k := by
  unfold chain around modify
  rw [Array.getElem?_modify]
  by_cases hk : id = k
  · rw [if_pos hk, Option.map_map]
    rfl
  · rw [if_neg hk]

/-- A new frame is as vacant as one that is not in use. -/
theorem frame_add (forest : Forest) (parent : Option Nat) (k : Nat) :
    (forest.add parent).2.frame k = forest.frame k := by
  unfold frame add
  rw [Array.getElem?_push]
  by_cases hk : k = forest.frames.size
  · subst hk
    simp
  · rw [if_neg hk]

theorem chain_add (forest : Forest) (parent : Option Nat) (k : Nat) :
    (forest.add parent).2.chain k =
      if k = forest.frames.size then k :: (parent.map forest.chain).getD [] else forest.chain k := by
  unfold chain around add
  rw [Array.getElem?_push]
  by_cases hk : k = forest.frames.size
  · rw [if_pos hk, if_pos hk]
    rfl
  · rw [if_neg hk, if_neg hk]

theorem binds_eq (forest : Forest) (id : Nat) (name : String) :
    (forest.frame id).binds name =
      ((forest.held id name).1.isSome || (forest.held id name).2.isSome) := rfl

theorem get_eq (forest : Forest) (id : Nat) (name : String) :
    forest.get? id name =
      (forest.held id name).1.or ((forest.held id name).2.map .function) := rfl

/-- What is got where the search ends is the first thing along the chain that the name stands for. -/
theorem find_get_eq (forest : Forest) (id : Nat) (name : String) :
    ((forest.find? id name).bind fun k => forest.get? k name) =
      (forest.chain id).findSome? fun k => forest.get? k name := by
  unfold find?
  induction forest.chain id with
  | nil => rfl
  | cons k chain ih =>
    rw [List.find?_cons, List.findSome?_cons, Frame.binds_iff]
    show (match (forest.get? k name).isSome with | true => some k | false => _).bind _ = _
    cases hget : forest.get? k name with
    | none => exact ih
    | some value => exact hget

/-- **A write changes what one frame holds by one name.** -/
theorem held_apply {forest : Forest} (write : Write size)
    (h : write.place forest < forest.frames.size) (id : Nat) (name : String) :
    (write.apply forest).held id name =
      if id = write.place forest ∧ name = write.name then write.rebound (forest.held id name)
      else forest.held id name := by
  have hdeclare : ∀ (place : Nat) (bound : String) (value : Value), place < forest.frames.size →
      (forest.declare place bound value).held id name =
        if id = place ∧ name = bound then (some value, (forest.held id name).2)
        else forest.held id name := by
    intro place bound value hplace
    unfold held declare
    rw [frame_modify hplace]
    by_cases hid : id = place
    · by_cases hname : name = bound
      · subst hname
        simp [hid, Frame.declare, Bindings.get?_insert_self]
      · simp [hid, hname, Frame.declare, Bindings.get?_insert_of_ne _ hname]
    · simp [hid]
  cases write with
  | declare place bound value => exact hdeclare place bound value h
  | assign place bound value => exact hdeclare _ bound value h
  | declareFunction place closure =>
    have hplace : (place : Nat) < forest.frames.size := h
    show (forest.modify place (·.declareFunction closure)).held id name = _
    unfold held
    rw [frame_modify hplace]
    by_cases hid : id = place
    · by_cases hname : name = closure.name
      · subst hname
        simp [hid, Write.place, Write.name, Write.rebound, Frame.declareFunction,
          Bindings.get?_insert_self]
      · simp [hid, hname, Write.place, Write.name, Frame.declareFunction,
          Bindings.get?_insert_of_ne _ hname]
    · simp [hid, Write.place]

/-- The other frames stay as they are altogether. -/
theorem frame_apply {forest : Forest} (write : Write size)
    (h : write.place forest < forest.frames.size) {k : Nat} (hk : k ≠ write.place forest) :
    (write.apply forest).frame k = forest.frame k := by
  cases write <;> exact (frame_modify h _ k).trans (if_neg hk)

theorem chain_apply (forest : Forest) (write : Write size) (id : Nat) :
    (write.apply forest).chain id = forest.chain id := by
  cases write <;> exact chain_modify forest _ _ id

theorem size_apply (forest : Forest) (write : Write size) :
    (write.apply forest).frames.size = forest.frames.size := by
  cases write <;> exact size_modify forest _ _

/-! ### One more receipt -/

section

variable (receipt : Receipt) (receipts : List Receipt) (id : Nat) (name : String)

theorem lastValue_cons :
    lastValue (receipt :: receipts) id name =
      if receipt.isFor id name then receipt.value?.or (lastValue receipts id name)
      else lastValue receipts id name := by
  unfold lastValue
  rw [List.filter_cons]
  split
  · rw [List.findSome?_cons]
    cases receipt.value? <;> rfl
  · rfl

theorem lastFunction_cons :
    lastFunction (receipt :: receipts) id name =
      if receipt.isFor id name then receipt.function?.or (lastFunction receipts id name)
      else lastFunction receipts id name := by
  unfold lastFunction
  rw [List.filter_cons]
  split
  · rw [List.findSome?_cons]
    cases receipt.function? <;> rfl
  · rfl

end

/-- A frame that has received a name has been given a value or a function. -/
theorem received_eq (receipts : List Receipt) (id : Nat) (name : String) :
    received receipts id name =
      ((lastValue receipts id name).isSome || (lastFunction receipts id name).isSome) := by
  induction receipts with
  | nil => rfl
  | cons receipt receipts ih =>
    rw [lastValue_cons, lastFunction_cons, received, List.any_cons]
    by_cases hfor : receipt.isFor id name
    · obtain ⟨place, bound, gift⟩ := receipt
      cases gift <;> simp [hfor, Receipt.value?, Receipt.function?]
    · simpa [hfor, received] using ih

/-! ### After any history -/

namespace History

theorem size_forest {size : Nat} (history : History size) :
    history.forest.frames.size = size := by
  induction history with
  | empty => rfl
  | add earlier parent ih =>
    show (earlier.forest.frames.push _).size = _
    rw [Array.size_push, ih]
  | write earlier last ih => exact (size_apply earlier.forest last).trans ih

/-- The frames around a frame are its parents, one after the other. -/
theorem chain_eq {size : Nat} (history : History size) (id : Nat) :
    history.forest.chain id = history.chain id := by
  induction history generalizing id with
  | empty => rfl
  | @add size earlier parent ih =>
    rw [forest, chain_add, size_forest]
    unfold chain
    split
    · cases parent with
      | none => rfl
      | some parent => exact congrArg (id :: ·) (ih parent)
    · exact ih id
  | write earlier last ih => exact (chain_apply earlier.forest last id).trans (ih id)

/-- A chain of a frame that is there is made of frames that are there. -/
theorem chain_lt {size : Nat} (history : History size) {id : Nat} (h : id < size) :
    ∀ k ∈ history.chain id, k < size := by
  induction history generalizing id with
  | empty => exact absurd h (Nat.not_lt_zero id)
  | @add size earlier parent ih =>
    unfold chain
    split
    · next hid =>
      cases parent with
      | none => simpa using h
      | some parent =>
        rw [List.forall_mem_cons]
        exact ⟨h, fun k hk => Nat.lt_succ_of_lt (ih parent.isLt k hk)⟩
    · next hid => exact fun k hk => Nat.lt_succ_of_lt (ih (by omega) k hk)
  | write earlier last ih => exact ih h

/-- A write goes to a frame that is there. -/
theorem place_lt {size : Nat} (history : History size) (write : Write size) :
    write.place history.forest < history.forest.frames.size := by
  rw [size_forest]
  cases write with
  | declare id name value => exact id.isLt
  | declareFunction id closure => exact id.isLt
  | assign id name value =>
    show (history.forest.find? id name).getD id < size
    cases hfind : history.forest.find? id name with
    | none => exact id.isLt
    | some k =>
      have hmem : k ∈ history.forest.chain id := List.mem_of_find?_eq_some hfind
      rw [chain_eq] at hmem
      exact history.chain_lt id.isLt k hmem

/-- What is found in the tables is what is found among the receipts, if the tables hold it. -/
theorem find_eq_of_held {size : Nat} {history : History size} {name : String}
    (h : ∀ id, history.forest.held id name =
      (lastValue history.receipts id name, lastFunction history.receipts id name)) (id : Nat) :
    history.forest.find? id name = nearest history.receipts (history.chain id) name := by
  have hbinds : ∀ k, (history.forest.frame k).binds name = received history.receipts k name := by
    intro k
    rw [binds_eq, h, received_eq]
  unfold find? nearest
  rw [chain_eq]
  simp only [hbinds]

/-- **The tables hold what has been received last.** -/
theorem held_eq {size : Nat} (history : History size) (id : Nat) (name : String) :
    history.forest.held id name =
      (lastValue history.receipts id name, lastFunction history.receipts id name) := by
  induction history generalizing id name with
  | empty => rfl
  | add earlier parent ih =>
    show (earlier.forest.add (parent.map (·.val))).2.held id name = _
    unfold held
    rw [frame_add]
    exact ih id name
  | write earlier last ih =>
    -- up to here the search goes to the frame that the receipts lead to
    have hplace : last.receipt earlier.receipts earlier.chain =
        ⟨last.place earlier.forest, last.name,
          (last.receipt earlier.receipts earlier.chain).gift⟩ := by
      cases last with
      | declare place bound value => rfl
      | declareFunction place closure => rfl
      | assign place bound value =>
        show (⟨_, _, _⟩ : Receipt) = ⟨(earlier.forest.find? place bound).getD place, _, _⟩
        rw [find_eq_of_held fun id => ih id bound]
        rfl
    rw [forest, held_apply last (earlier.place_lt last), ih, receipts, lastValue_cons,
      lastFunction_cons, hplace]
    by_cases hfor : id = last.place earlier.forest ∧ name = last.name
    · obtain ⟨rfl, rfl⟩ := hfor
      cases last <;> simp [Receipt.isFor, Write.receipt, Receipt.value?, Receipt.function?,
        Write.rebound]
    · have hother : ¬(last.place earlier.forest = id ∧ last.name = name) :=
        fun h => hfor ⟨h.1.symm, h.2.symm⟩
      simp [Receipt.isFor, hfor, hother]

theorem find_eq {size : Nat} (history : History size) (id : Nat) (name : String) :
    history.forest.find? id name = nearest history.receipts (history.chain id) name :=
  find_eq_of_held (fun id => history.held_eq id name) id

end History

/-- **A name stands for what the nearest frame that has ever received it was given last.** After any
history the search for a name ends at the first frame of the chain that has received it, and what is
got there is the last value, or the last function if no value was given. A further write changes what
one frame holds by one name, and neither another frame nor a chain. -/
theorem nearest_binding (history : History size) :
    (∀ (id : Nat) (name : String),
      history.forest.find? id name = nearest history.receipts (history.chain id) name) ∧
    (∀ (id k : Nat) (name : String), history.forest.find? id name = some k →
      ∃ value, history.forest.get? k name = some value ∧
        standing history.receipts k name = some value) ∧
    ∀ write : Write size, write.place history.forest < size ∧
      (∀ (k : Nat) (name : String), (history.write write).forest.held k name =
        if k = write.place history.forest ∧ name = write.name then
          write.rebound (history.forest.held k name)
        else history.forest.held k name) ∧
      (∀ k : Nat, k ≠ write.place history.forest →
        (history.write write).forest.frame k = history.forest.frame k) ∧
      ∀ k : Nat, (history.write write).forest.chain k = history.forest.chain k := by
  refine ⟨history.find_eq, fun id k name hfind => ?_, fun write => ⟨?_, ?_, fun k => ?_, ?_⟩⟩
  · have hbinds : (history.forest.frame k).binds name = true :=
      List.find?_some (p := fun k => (history.forest.frame k).binds name) hfind
    have hstands : (history.forest.get? k name).isSome = true :=
      (Frame.binds_iff (history.forest.frame k) name).symm.trans hbinds
    obtain ⟨value, hvalue⟩ := Option.isSome_iff_exists.1 hstands
    refine ⟨value, hvalue, ?_⟩
    rw [← hvalue, get_eq, history.held_eq]
    rfl
  · exact Nat.lt_of_lt_of_eq (history.place_lt write) history.size_forest
  · exact held_apply write (history.place_lt write)
  · exact frame_apply write (history.place_lt write)
  · exact chain_apply history.forest write

/-- A function of the outermost of three frames, to which the innermost assigns a value. -/
def functionAssigned : History 3 :=
  let nested : History 3 := .add (.add (.add .empty none) (some 0)) (some 1)
  .write (.write nested (.declareFunction 0 ⟨"f", [], .hole⟩)) (.assign 2 "f" (.number 1))

/-- The function's name is a variable of the outermost frame from then on. -/
theorem nearest_binding_functionAssigned :
    functionAssigned.forest.find? 2 "f" = some 0 ∧
      ∃ value, functionAssigned.forest.get? 0 "f" = some value ∧
        standing functionAssigned.receipts 0 "f" = some value :=
  have hfind : functionAssigned.forest.find? 2 "f" = some 0 := by decide +kernel
  ⟨hfind, (nearest_binding functionAssigned).2.1 2 0 "f" hfind⟩

end Forest

/-! ### A running script -/

namespace Scope

/-- The frames of a running script stand in a forest: the global one at a root, and those of the
calls inside of it, each at a place of its own. -/
structure LivesIn (scope : Scope) (forest : Forest) (root : Nat) (places : List Nat) : Prop where
  globals : forest.frame root = scope.globals
  calls : places.map forest.frame = scope.calls
  chain_root : forest.chain root = [root]
  chain_call : ∀ k ∈ places, forest.chain k = [k, root]
  apart : (root :: places).Nodup
  used : ∀ k ∈ root :: places, k < forest.frames.size

namespace LivesIn

variable {scope : Scope} {forest : Forest} {root : Nat} {places : List Nat}

theorem active (h : scope.LivesIn forest root places) :
    forest.frame (places.headD root) = scope.active := by
  rw [Scope.active, ← h.calls]
  cases places with
  | nil => exact h.globals
  | cons place places => rfl

/-- The search of a running script is the search through the forest. -/
theorem lookup (h : scope.LivesIn forest root places) (name : String) :
    scope.lookup? name =
      (forest.find? (places.headD root) name).bind fun k => forest.get? k name := by
  rw [Forest.find_get_eq, lookup?, ← h.active, ← h.globals]
  cases places with
  | nil =>
    rw [List.headD_nil, h.chain_root, List.findSome?_cons]
    cases hget : forest.get? root name <;> simpa [Forest.get?] using hget
  | cons place places =>
    rw [List.headD_cons, h.chain_call place List.mem_cons_self, List.findSome?_cons,
      List.findSome?_cons]
    show (forest.get? place name).or (forest.get? root name) = _
    cases forest.get? place name <;> cases forest.get? root name <;> rfl

/-- A change to a frame moves none. -/
theorem after_modify (h : scope.LivesIn forest root places) {later : Scope} {id : Nat}
    {change : Frame → Frame} (hglobals : (forest.modify id change).frame root = later.globals)
    (hcalls : places.map (forest.modify id change).frame = later.calls) :
    later.LivesIn (forest.modify id change) root places where
  globals := hglobals
  calls := hcalls
  chain_root := (Forest.chain_modify ..).trans h.chain_root
  chain_call k hk := (Forest.chain_modify ..).trans (h.chain_call k hk)
  apart := h.apart
  used k hk := Nat.lt_of_lt_of_eq (h.used k hk) (Forest.size_modify ..).symm

/-- A change to the active frame is a change at its place. -/
theorem modifyActive (h : scope.LivesIn forest root places) (change : Frame → Frame) :
    (scope.modifyActive change).LivesIn (forest.modify (places.headD root) change) root places := by
  have hcalls := h.calls
  cases places with
  | nil =>
    have hframe := Forest.frame_modify (h.used root List.mem_cons_self) change
    unfold Scope.modifyActive
    rw [← hcalls]
    refine h.after_modify ?_ rfl
    rw [List.headD_nil, hframe, if_pos rfl, h.globals]
    rfl
  | cons place places =>
    obtain ⟨hroot, hplaces⟩ := List.nodup_cons.1 h.apart
    have hframe := Forest.frame_modify (h.used place (by simp)) change
    have hrest : places.map (forest.modify place change).frame = places.map forest.frame := by
      refine List.map_congr_left fun k hk => ?_
      rw [hframe, if_neg]
      rintro rfl
      exact (List.nodup_cons.1 hplaces).1 hk
    unfold Scope.modifyActive
    rw [← hcalls]
    refine h.after_modify ?_ ?_
    · have hne : root ≠ place := fun heq => hroot (heq ▸ List.mem_cons_self)
      rw [List.headD_cons, hframe, if_neg hne, h.globals]
      rfl
    · rw [List.headD_cons, List.map_cons, hrest, hframe, if_pos rfl]
      rfl

theorem declare (h : scope.LivesIn forest root places) (name : String) (value : Value) :
    (scope.declare name value).LivesIn (forest.declare (places.headD root) name value) root places :=
  h.modifyActive _

theorem declareFunction (h : scope.LivesIn forest root places) (closure : Closure) :
    (scope.declareFunction closure).LivesIn
      (forest.declareFunction (places.headD root) closure) root places :=
  h.modifyActive _

/-- An assignment of a running script is an assignment in the forest. -/
theorem assign (h : scope.LivesIn forest root places) (name : String) (value : Value) :
    (scope.assign name value).LivesIn
      (forest.assign (places.headD root) name value) root places := by
  unfold Scope.assign Forest.assign Forest.find?
  rw [← h.active, ← h.globals]
  cases places with
  | nil =>
    rw [List.headD_nil, h.chain_root]
    cases hbinds : (forest.frame root).binds name <;> simpa [hbinds] using h.declare name value
  | cons place places =>
    rw [List.headD_cons, h.chain_call place List.mem_cons_self]
    cases hplace : (forest.frame place).binds name with
    | true => simpa [hplace] using h.declare name value
    | false =>
      cases hroot : (forest.frame root).binds name with
      | false => simpa [hplace, hroot] using h.declare name value
      | true =>
        have hframe := Forest.frame_modify (h.used root List.mem_cons_self)
          (Frame.declare · name value)
        simp only [hplace, hroot, List.find?_cons, Option.getD_some]
        refine h.after_modify ?_ ?_
        · rw [hframe, if_pos rfl]
          rfl
        · rw [← h.calls]
          refine List.map_congr_left fun k hk => ?_
          rw [hframe, if_neg]
          rintro rfl
          exact (List.nodup_cons.1 h.apart).1 hk

/-- A call starts in a new frame inside of the global one. -/
theorem enter (h : scope.LivesIn forest root places) :
    (scope.enter .vacant).LivesIn (forest.add (some root)).2 root
      (forest.frames.size :: places) := by
  have hold : ∀ k ∈ root :: places, k ≠ forest.frames.size :=
    fun k hk => Nat.ne_of_lt (h.used k hk)
  have hchain : ∀ k ∈ root :: places, (forest.add (some root)).2.chain k = forest.chain k := by
    intro k hk
    rw [Forest.chain_add, if_neg (hold k hk)]
  have hsize : (forest.add (some root)).2.frames.size = forest.frames.size + 1 :=
    Array.size_push ..
  constructor
  · exact (Forest.frame_add ..).trans h.globals
  · rw [List.map_cons, Forest.frame_add, funext (Forest.frame_add forest (some root)), h.calls]
    simp [Scope.enter, Forest.frame]
  · rw [hchain root List.mem_cons_self, h.chain_root]
  · rw [List.forall_mem_cons]
    constructor
    · rw [Forest.chain_add, if_pos rfl, Option.map_some, h.chain_root]
      rfl
    · intro k hk
      rw [hchain k (List.mem_cons_of_mem root hk), h.chain_call k hk]
  · have hnew : forest.frames.size ∉ root :: places := fun hmem => hold _ hmem rfl
    simp only [List.mem_cons, not_or] at hnew
    have hapart := h.apart
    simp only [List.nodup_cons, List.mem_cons, not_or] at hapart ⊢
    exact ⟨⟨Ne.symm hnew.1, hapart.1⟩, hnew.2, hapart.2⟩
  · rw [hsize]
    intro k hk
    simp only [List.mem_cons] at hk
    rcases hk with rfl | rfl | hk
    · exact Nat.lt_succ_of_lt (h.used k List.mem_cons_self)
    · exact Nat.lt_succ_self _
    · exact Nat.lt_succ_of_lt (h.used k (List.mem_cons_of_mem root hk))

/-- At the end of a call its frame stays behind. -/
theorem leave (h : scope.LivesIn forest root places) :
    scope.leave.LivesIn forest root places.tail where
  globals := h.globals
  calls := by rw [Scope.leave, ← h.calls, List.map_tail]
  chain_root := h.chain_root
  chain_call k hk := h.chain_call k (List.mem_of_mem_tail hk)
  apart := h.apart.sublist (.cons_cons root (List.tail_sublist places))
  used k hk := h.used k ((List.Sublist.cons_cons root (List.tail_sublist places)).mem hk)

end LivesIn

/-- What a running script does to its frames. The parameters of a call are declared in its frame. -/
inductive Move where
  | declare (name : String) (value : Value)
  | assign (name : String) (value : Value)
  | declareFunction (closure : Closure)
  | enter
  | leave

def Move.apply (scope : Scope) : Move → Scope
  | .declare name value => scope.declare name value
  | .assign name value => scope.assign name value
  | .declareFunction closure => scope.declareFunction closure
  | .enter => scope.enter .vacant
  | .leave => scope.leave

/-- The same in a forest, along with the places of the running calls. -/
def Move.applyIn (root : Nat) (found : Forest × List Nat) : Move → Forest × List Nat
  | .declare name value => (found.1.declare (found.2.headD root) name value, found.2)
  | .assign name value => (found.1.assign (found.2.headD root) name value, found.2)
  | .declareFunction closure => (found.1.declareFunction (found.2.headD root) closure, found.2)
  | .enter => ((found.1.add (some root)).2, found.1.frames.size :: found.2)
  | .leave => (found.1, found.2.tail)

theorem LivesIn.move {scope : Scope} {found : Forest × List Nat} {root : Nat}
    (h : scope.LivesIn found.1 root found.2) (move : Move) :
    (move.apply scope).LivesIn (move.applyIn root found).1 root (move.applyIn root found).2 := by
  cases move with
  | declare name value => exact h.declare name value
  | assign name value => exact h.assign name value
  | declareFunction closure => exact h.declareFunction closure
  | enter => exact h.enter
  | leave => exact h.leave

theorem LivesIn.moves {scope : Scope} {found : Forest × List Nat} {root : Nat}
    (h : scope.LivesIn found.1 root found.2) (moves : List Move) :
    (moves.foldl Move.apply scope).LivesIn (moves.foldl (Move.applyIn root) found).1 root
      (moves.foldl (Move.applyIn root) found).2 := by
  induction moves generalizing scope found with
  | nil => exact h
  | cons move moves ih => exact ih (h.move move)

/-- **A running script searches as a forest does,** whatever it has done to its frames. -/
theorem lookup_moves (moves : List Move) (name : String) :
    let found := moves.foldl (Move.applyIn 0) ((Forest.empty.add none).2, [])
    (moves.foldl Move.apply ⟨.vacant, []⟩).lookup? name =
      (found.1.find? (found.2.headD 0) name).bind fun k => found.1.get? k name := by
  have hstart : (⟨.vacant, []⟩ : Scope).LivesIn (Forest.empty.add none).2 0 [] :=
    { globals := rfl
      calls := rfl
      chain_root := rfl
      chain_call := fun _ hk => absurd hk List.not_mem_nil
      apart := List.nodup_cons.2 ⟨List.not_mem_nil, List.nodup_nil⟩
      used := fun k hk => by rw [List.mem_singleton.1 hk]; exact Nat.zero_lt_one }
  exact (LivesIn.lookup (hstart.moves moves) name)

end Scope

end PageScript
