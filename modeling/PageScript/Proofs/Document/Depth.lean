import PageScript.Proofs.Evaluation.Observation
import PageScript.Proofs.Grammar.Yields

/-!
# The depth of a script

Reading and evaluation have limits of their own on how deep things may nest, the one on levels of
the text, the other on levels of evaluation. The first keeps the text of a script away from the
second.

* `Tree.bodies` — the bodies of all functions in a tree;
* `Flat`, `Shallow` — trees of few levels, without functions and with them;
* `Expressed` — the trees of expressions, by the levels of the text that are left;
* `Harvest.shallow` — a level of the text gives at most two levels of evaluation;
* `Observer.renaming` — the observer who reports an exhaustion inside of a call as another fault;
* `script_keeps_depth` — no tree of a script, and no body in it, gets deeper than 131 levels by its
  own text, so only calls of functions can exhaust the levels of evaluation.
-/

namespace PageScript

mutual

/-- The bodies of all functions in a tree, at any depth. -/
def Tree.bodies : Tree → List Tree
  | .hole | .number _ | .string _ | .identifier _ => []
  | .expressionStatement tree | .returnStatement tree => tree.bodies
  | .additive _ left right | .assignment _ left right | .member left right
  | .declarator left right => left.bodies ++ right.bodies
  | .declaration trees | .block trees | .program trees => Tree.bodiesAll trees
  | .function name params body => body :: (name.bodies ++ Tree.bodiesAll params ++ body.bodies)
  | .call callee arguments => callee.bodies ++ Tree.bodiesAll arguments

/-- The bodies of all functions in several trees. -/
def Tree.bodiesAll : List Tree → List Tree
  | [] => []
  | tree :: trees => tree.bodies ++ Tree.bodiesAll trees

end

namespace Tree

@[simp] theorem bodies_additive (operator : Operator) (left right : Tree) :
    (additive operator left right).bodies = left.bodies ++ right.bodies := rfl

@[simp] theorem bodies_assignment (operator : Operator) (left right : Tree) :
    (assignment operator left right).bodies = left.bodies ++ right.bodies := rfl

@[simp] theorem bodies_member (left right : Tree) :
    (member left right).bodies = left.bodies ++ right.bodies := rfl

@[simp] theorem bodies_declarator (left right : Tree) :
    (declarator left right).bodies = left.bodies ++ right.bodies := rfl

@[simp] theorem bodies_declaration (trees : List Tree) :
    (declaration trees).bodies = bodiesAll trees := rfl

@[simp] theorem bodies_function (name : Tree) (params : List Tree) (body : Tree) :
    (function name params body).bodies =
      body :: (name.bodies ++ bodiesAll params ++ body.bodies) := rfl

@[simp] theorem bodies_call (callee : Tree) (arguments : List Tree) :
    (call callee arguments).bodies = callee.bodies ++ bodiesAll arguments := rfl

@[simp] theorem bodiesAll_nil : bodiesAll [] = [] := rfl

@[simp] theorem bodiesAll_cons (tree : Tree) (trees : List Tree) :
    bodiesAll (tree :: trees) = tree.bodies ++ bodiesAll trees := rfl

theorem mem_bodiesAll {trees : List Tree} {body : Tree} :
    body ∈ bodiesAll trees ↔ ∃ tree ∈ trees, body ∈ tree.bodies := by
  induction trees with
  | nil => simp
  | cons tree trees ih => simp [ih]

theorem bodiesAll_eq_nil {trees : List Tree} (h : ∀ tree ∈ trees, tree.bodies = []) :
    bodiesAll trees = [] := by
  induction trees with
  | nil => rfl
  | cons tree trees ih =>
    obtain ⟨htree, htrees⟩ := List.forall_mem_cons.1 h
    rw [bodiesAll_cons, htree, ih htrees]
    rfl

theorem reachAll_le {trees : List Tree} {n : Nat} (h : ∀ tree ∈ trees, tree.reach ≤ n) :
    reachAll trees ≤ n := by
  induction trees with
  | nil => exact Nat.zero_le n
  | cons tree trees ih =>
    obtain ⟨htree, htrees⟩ := List.forall_mem_cons.1 h
    exact Nat.max_le.2 ⟨htree, ih htrees⟩

theorem targetReach_le (tree : Tree) : tree.targetReach ≤ tree.reach - 1 := by
  cases tree <;> simp [targetReach, reach]

end Tree

namespace Grammar

/-- A tree of at most so many levels, in which no function is declared. -/
structure Flat (levels : Nat) (tree : Tree) : Prop where
  reach : tree.reach ≤ levels
  bodies : tree.bodies = []

/-- A tree of at most so many levels, as are the bodies of the functions in it. -/
structure Shallow (levels : Nat) (tree : Tree) : Prop where
  reach : tree.reach ≤ levels
  bodies : ∀ body ∈ tree.bodies, body.reach ≤ levels

variable {levels levels' : Nat} {tree left right : Tree} {trees : List Tree}

theorem Flat.mono (h : Flat levels tree) (hle : levels ≤ levels') : Flat levels' tree where
  reach := Nat.le_trans h.reach hle
  bodies := h.bodies

theorem Flat.shallow (h : Flat levels tree) (hle : levels ≤ levels') : Shallow levels' tree where
  reach := Nat.le_trans h.reach hle
  bodies body hbody := by
    rw [h.bodies] at hbody
    exact absurd hbody List.not_mem_nil

/-! ### Every kind of tree -/

theorem Flat.member (hleft : Flat levels left) (hright : Flat levels' right) :
    Flat (levels + 1) (.member left right) where
  reach := Nat.succ_le_succ hleft.reach
  bodies := by
    rw [Tree.bodies_member, hleft.bodies, hright.bodies]
    rfl

theorem Flat.call (hleft : Flat levels left) (htrees : ∀ tree ∈ trees, Flat levels tree) :
    Flat (levels + 1) (.call left trees) where
  reach := by
    have hle := Tree.reachAll_le fun item hitem => (htrees item hitem).reach
    exact Nat.succ_le_succ (Nat.max_le.2 ⟨hleft.reach, hle⟩)
  bodies := by
    rw [Tree.bodies_call, hleft.bodies,
      Tree.bodiesAll_eq_nil fun item hitem => (htrees item hitem).bodies]
    rfl

theorem Flat.additive {operator : Operator} (hleft : Flat levels left)
    (hright : Flat levels right) : Flat (levels + 1) (.additive operator left right) where
  reach := Nat.succ_le_succ (Nat.max_le.2 ⟨hleft.reach, hright.reach⟩)
  bodies := by
    rw [Tree.bodies_additive, hleft.bodies, hright.bodies]
    rfl

/-- What is assigned to is not evaluated as a whole. -/
theorem Flat.assignment {operator : Operator} (hleft : Flat (levels + 1) left)
    (hright : Flat levels right) : Flat (levels + 1) (.assignment operator left right) where
  reach := by
    have htarget := Nat.le_trans left.targetReach_le (Nat.sub_le_sub_right hleft.reach 1)
    exact Nat.succ_le_succ (Nat.max_le.2 ⟨htarget, hright.reach⟩)
  bodies := by
    rw [Tree.bodies_assignment, hleft.bodies, hright.bodies]
    rfl

theorem Flat.declaration (hleft : Flat levels left) (hright : Flat levels' right) :
    Flat (levels' + 2) (.declaration [.declarator left right]) where
  reach := by
    show max (right.reach + 1) 0 + 1 ≤ levels' + 2
    have hle := hright.reach
    omega
  bodies := by
    rw [Tree.bodies_declaration, Tree.bodiesAll_cons, Tree.bodies_declarator, hleft.bodies,
      hright.bodies]
    rfl

theorem Flat.returnStatement (h : Flat levels tree) :
    Flat (levels + 1) (.returnStatement tree) where
  reach := Nat.succ_le_succ h.reach
  bodies := h.bodies

theorem Flat.expressionStatement (h : Flat levels tree) :
    Flat (levels + 1) (.expressionStatement tree) where
  reach := Nat.succ_le_succ h.reach
  bodies := h.bodies

theorem Shallow.function (hleft : Flat levels left) (htrees : ∀ tree ∈ trees, Flat levels tree)
    (hright : Shallow levels' right) : Shallow (levels' + 1) (.function left trees right) where
  reach := by
    show 1 ≤ levels' + 1
    omega
  bodies body hbody := by
    rw [Tree.bodies_function, hleft.bodies,
      Tree.bodiesAll_eq_nil fun item hitem => (htrees item hitem).bodies] at hbody
    rcases List.mem_cons.1 hbody with rfl | hbody
    · exact Nat.le_succ_of_le hright.reach
    · exact Nat.le_succ_of_le (hright.bodies body hbody)

theorem Shallow.block (htrees : ∀ tree ∈ trees, Shallow levels tree) :
    Shallow (levels + 1) (.block trees) where
  reach := Nat.succ_le_succ (Tree.reachAll_le fun item hitem => (htrees item hitem).reach)
  bodies body hbody := by
    obtain ⟨item, hitem, hinside⟩ := Tree.mem_bodiesAll.1 hbody
    exact Nat.le_succ_of_le ((htrees item hitem).bodies body hinside)

/-! ### Every production -/

variable {room : Nat}

/-- The levels of what is called or left alone, with some levels of the text to go. -/
def calleeLevels (room : Nat) : Nat :=
  max (2 * room + 2) 3

theorem Flat.uncalled (h : Flat 2 tree) : Flat (calleeLevels room) tree :=
  h.mono (Nat.le_trans (by decide) (Nat.le_max_right ..))

/-- An expression, which takes a level of the text. -/
structure Expressed (room : Nat) (tree : Tree) : Prop where
  pos : 0 < room
  flat : Flat (2 * room + 1) tree

/-- A call takes a level more than its arguments, but for one without any it is the callee that
counts. -/
theorem Flat.called (hleft : Flat 2 left) (htrees : ∀ tree ∈ trees, Expressed room tree) :
    Flat (calleeLevels room) (.call left trees) := by
  have hcall : Flat (max (2 * room + 1) 2 + 1) (.call left trees) :=
    .call (hleft.mono (Nat.le_max_right ..)) fun tree htree =>
      (htrees tree htree).flat.mono (Nat.le_max_left ..)
  refine hcall.mono ?_
  unfold calleeLevels
  omega

theorem Expressed.single (h : Flat (calleeLevels room) tree) : Expressed (room + 1) tree where
  pos := Nat.succ_pos room
  flat := h.mono (by unfold calleeLevels; omega)

theorem Expressed.additive {operator : Operator} (hleft : Flat (calleeLevels room) left)
    (hright : Expressed room right) : Expressed (room + 1) (.additive operator left right) where
  pos := Nat.succ_pos room
  flat := by
    have hpos := hright.pos
    have hsum : Flat (2 * room + 2 + 1) (.additive operator left right) :=
      (hleft.mono (by unfold calleeLevels; omega)).additive (hright.flat.mono (by omega))
    exact hsum.mono (by omega)

theorem Expressed.assignment {operator : Operator} (hleft : Expressed (room + 1) left)
    (hright : Expressed room right) : Expressed (room + 1) (.assignment operator left right) where
  pos := Nat.succ_pos room
  flat := by
    have hassigned : Flat (2 * room + 2 + 1) (.assignment operator left right) :=
      (hleft.flat.mono (by omega)).assignment (hright.flat.mono (by omega))
    exact hassigned.mono (by omega)

theorem Expressed.declaration (hleft : Flat 1 left)
    (hright : right = .hole ∨ Expressed room right) :
    Shallow (2 * room + 3) (.declaration [.declarator left right]) := by
  have hvalue : Flat (2 * room + 1) right := by
    rcases hright with rfl | hright
    · exact ⟨Nat.zero_le _, rfl⟩
    · exact hright.flat
  exact (hleft.declaration hvalue).shallow (Nat.le_refl _)

theorem Expressed.returnStatement (h : Expressed room tree) :
    Shallow (2 * room + 3) (.returnStatement tree) :=
  h.flat.returnStatement.shallow (Nat.le_succ _)

theorem Expressed.expressionStatement (h : Expressed room tree) :
    Shallow (2 * room + 3) (.expressionStatement tree) :=
  h.flat.expressionStatement.shallow (Nat.le_succ _)

/-- **A level of the text gives at most two levels of evaluation,** one for an operator and one for
the call that is its operand. A property and what it is called with take one level each on top, and
so do a statement and what it declares. -/
def Harvest.shallow : Harvest Token.IsPlain where
  label := Flat 1
  operand := Flat 1
  object := Flat 2
  callee room := Flat (calleeLevels room)
  expression := Expressed
  element room := Shallow (2 * room + 3)
  block room := Shallow (2 * room + 2)
  words h := h
  hole := ⟨Nat.zero_le 1, rfl⟩
  identifier _ _ _ _ := ⟨Nat.le_refl 1, rfl⟩
  string _ _ _ _ := ⟨Nat.le_refl 1, rfl⟩
  number _ _ _ _ := ⟨Nat.le_refl 1, rfl⟩
  labelled h := h
  plain h := h.mono (Nat.le_succ 1)
  member := Flat.member
  uncalled := Flat.uncalled
  call := Flat.called
  single := Expressed.single
  additive _ := Expressed.additive
  assignment hleft := Expressed.assignment (.single hleft)
  declaration := Expressed.declaration
  returnStatement := Expressed.returnStatement
  expressionStatement := Expressed.expressionStatement
  function := Shallow.function
  body := Shallow.block

/-- **A script is shallow:** its trees take at most 131 levels, and so do the bodies of its
functions. -/
theorem readScript_shallow {source : String} {file : Option String} {body : List Tree}
    (h : readScript source file = .ok body) {tree : Tree}
    (htree : tree ∈ body ∨ tree ∈ Tree.bodiesAll body) : tree.reach ≤ 131 := by
  have htop := Harvest.shallow.readScript (scanFrom_plain file 1 0 source.toList) h
  have hlevels : ∀ room ≤ maxNesting, 2 * room + 3 ≤ 131 := fun room hroom => by
    unfold maxNesting at hroom
    omega
  rcases htree with htree | htree
  · obtain ⟨room, hroom, hshallow⟩ := htop tree htree
    exact Nat.le_trans hshallow.reach (hlevels room hroom)
  · obtain ⟨part, hpart, htree⟩ := Tree.mem_bodiesAll.1 htree
    obtain ⟨room, hroom, hshallow⟩ := htop part hpart
    exact Nat.le_trans (hshallow.bodies tree htree) (hlevels room hroom)

end Grammar

namespace Evaluation

open Grammar

/-- The observer speaks in states of a certain kind only. -/
def Observer.SpeaksOnly (observer : Observer) (kind : State → Prop) : Prop :=
  ∀ tree state, observer tree state ≠ none → kind state

/-- The observer who reports the exhaustion of the levels inside of a call as another fault. -/
def Observer.renaming (fault : Fault) : Observer := fun _ state =>
  if maxDepth ≤ state.depth ∧ 0 < state.callDepth then some (.error (.failed fault) state) else none

/-- One who speaks above a ceiling only, and outside of calls, is like one who is silent. -/
theorem Observer.SpeaksOnly.indistinct {observer : Observer} {ceiling base : Nat}
    (h : observer.SpeaksOnly fun state => ceiling ≤ state.depth ∧ state.callDepth ≤ base)
    (hceiling : ceiling < maxDepth) (engine : Engine) :
    Indistinct engine ceiling base (fun _ => True) observer .silent where
  below := hceiling
  causes _ _ _ := trivial
  host _ _ := Act.relays_all _ fun _ => trivial
  agree tree state hplace := by
    by_cases hsilent : observer tree state = none
    · exact hsilent
    · have hkind := h tree state hsilent
      omega
  fair _ _ _ hresult := nomatch hresult
  exhausted _ _ _ _ _ := trivial

/-- One who reports exhaustion as another fault leaves no exhaustion to be reported. -/
theorem indistinct_renaming {engine : Engine} (hhost : engine.host.Honest) {fault : Fault}
    (hfault : ∀ limit file, fault ≠ .script (.execution (.evaluationDepth limit) file))
    {ceiling : Nat} (hceiling : ceiling < maxDepth) :
    Indistinct engine ceiling 0
      (fun failure => ∀ limit file, failure ≠ .execution (.evaluationDepth limit) file)
      (.renaming fault) (.renaming fault) where
  below := hceiling
  causes cause file hcause limit file' h := hcause limit (Failure.execution.inj h).1
  host callable values := (hhost callable values).mono fun _ h => h.elim
  agree _ _ _ := rfl
  fair tree state result hresult := by
    unfold Observer.renaming at hresult
    split at hresult
    · obtain rfl := Option.some.inj hresult
      refine ⟨⟨rfl, rfl⟩, fun failure hexit limit file hfailure => hfault limit file ?_⟩
      rw [← hfailure]
      exact Exit.failed.inj (Except.error.inj hexit)
    · cases hresult
  exhausted tree state hdepth hcalls hsilent := by
    unfold Observer.renaming at hsilent
    rw [if_pos ⟨hdepth, hcalls⟩] at hsilent
    cases hsilent

/-- **A script cannot exhaust the levels of evaluation by its own text.** Take the trees of a script
and the bodies of its functions, and evaluate one of them from no level at all: whoever speaks only
where a 132nd level would be taken, with no more calls running than at the start, is never heard. So
it is when the whole program is executed from the start, and if the callables of the host raise no
failures of the script themselves, then whoever reports the exhaustion of the levels inside of calls
as another fault has reported all of it. -/
theorem script_keeps_depth {source : String} {file : Option String} {body : List Tree}
    (h : readScript source file = .ok body) :
    (∀ tree, tree ∈ body ∨ tree ∈ Tree.bodiesAll body →
      ∀ (engine : Engine) (observer : Observer) (state : State), state.depth = 0 →
        observer.SpeaksOnly (fun later =>
          131 ≤ later.depth ∧ later.callDepth ≤ state.callDepth) →
        observed engine observer tree state = eval engine tree state) ∧
    (∀ (engine : Engine) (observer : Observer) (globals : List (String × Value)) (store : Store),
      observer.SpeaksOnly (fun later => 131 ≤ later.depth ∧ later.callDepth = 0) →
      observedExecute engine observer body (.initial globals (.ofStore store)) =
        execute engine body (.initial globals (.ofStore store))) ∧
    ∀ (engine : Engine) (fault : Fault) (globals : List (String × Value)) (store : Store),
      engine.host.Honest →
      (∀ limit file, fault ≠ .script (.execution (.evaluationDepth limit) file)) →
      ∀ limit file,
        outcome (observedExecute engine (.renaming fault) body (.initial globals (.ofStore store))) ≠
          .error (.failed (.script (.execution (.evaluationDepth limit) file))) := by
  have hceiling : 131 < maxDepth := by decide
  have hbody : ∀ tree ∈ body, 0 + tree.reach ≤ 131 := fun tree htree => by
    rw [Nat.zero_add]
    exact readScript_shallow h (.inl htree)
  refine ⟨?_, ?_, ?_⟩
  · intro tree htree engine observer state hdepth hspeaks
    have I := hspeaks.indistinct hceiling engine
    have hlevels : 0 + tree.reach ≤ 131 := by
      rw [Nat.zero_add]
      exact readScript_shallow h htree
    rw [(I.alike_observed hlevels state ⟨hdepth, rfl⟩).1, observed_silent]
  · intro engine observer globals store hspeaks
    have I : Indistinct engine 131 0 (fun _ => True) observer .silent := by
      refine Observer.SpeaksOnly.indistinct (fun tree state hne => ?_) hceiling engine
      obtain ⟨hdepth, hcalls⟩ := hspeaks tree state hne
      exact ⟨hdepth, Nat.le_of_eq hcalls⟩
    rw [(I.alike_execute hbody _ ⟨rfl, rfl⟩).1, observedExecute_silent]
  · intro engine fault globals store hhost hfault limit file hexit
    have I := indistinct_renaming hhost hfault hceiling
    exact (I.alike_execute hbody _ ⟨rfl, rfl⟩).2.failure _ hexit limit file rfl

/-- A function that calls itself in its argument, and a first call of it. -/
def nestedCalls : List Tree :=
  [.function (.identifier "f") [.identifier "x"]
    (.block [.returnStatement
      (.call (.identifier "f") [.call (.identifier "f") [.identifier "x"]])]),
    .expressionStatement (.call (.identifier "f") [.number 1])]

theorem script_keeps_depth_nestedCalls :
    let engine : Engine := ⟨none, .standard, Host.idle⟩
    let loud : Observer := fun _ state =>
      if 131 ≤ state.depth ∧ state.callDepth = 0 then some (.ok .undefined state) else none
    let start : State := .initial [] (.ofStore .empty)
    (∀ tree ∈ Tree.bodiesAll nestedCalls,
      observed engine loud tree start = eval engine tree start) ∧
    observedExecute engine loud nestedCalls start = execute engine nestedCalls start ∧
    outcome (observedExecute engine (.renaming (.host .numberTooLong)) nestedCalls start) ≠
      .error (.failed (.script (.execution (.evaluationDepth maxDepth) none))) := by
  intro engine loud start
  have hread : readScript "function f(x) \x7b return f(f(x)) \x7d f(1)" none = .ok nestedCalls := by
    cbv
  have hloud : loud.SpeaksOnly fun later => 131 ≤ later.depth ∧ later.callDepth = 0 := by
    intro tree state hne
    by_cases hplace : 131 ≤ state.depth ∧ state.callDepth = 0
    · exact hplace
    · exact absurd (if_neg hplace) hne
  obtain ⟨htrees, hprogram, hfailure⟩ := script_keeps_depth hread
  refine ⟨fun tree htree => ?_, ?_, ?_⟩
  · refine htrees tree (.inr htree) engine loud start rfl fun part state hne => ?_
    obtain ⟨hdepth, hcalls⟩ := hloud part state hne
    exact ⟨hdepth, Nat.le_of_eq hcalls⟩
  · exact hprogram engine loud [] .empty hloud
  · exact hfailure engine (.host .numberTooLong) [] .empty Host.idle_honest
      (fun _ _ => Fault.noConfusion) maxDepth none

end Evaluation

end PageScript
