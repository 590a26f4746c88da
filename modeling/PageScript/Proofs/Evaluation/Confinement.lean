import PageScript.Proofs.Evaluation.Numbers
import PageScript.Proofs.Evaluation.Provenance

/-!
# A run stays within its numbers

Suppose that only certain numbers occur in a state, that the callables of the host bring in no
others, and that all script numbers are among them. Then no others ever occur in the run, and the
one fault that can get past all calls is that one of them is too long to be written into a message.

* `Tree.Only.operand` — the numbers of an operand;
* `Provenance.only` — trees and values of certain numbers, which no operation leads out of;
* `execute_only` — every program keeps to its numbers.
-/

namespace PageScript

variable {numbers : Int → Prop}

/-- The numbers of an operand are numbers of the tree. -/
theorem Tree.Only.operand {tree : Tree} (h : tree.Only numbers) {part : Tree}
    (hpart : part ∈ tree.operands) : part.Only numbers := by
  cases tree with
  | expressionStatement inner | returnStatement inner =>
    obtain rfl := List.mem_singleton.1 hpart
    exact h
  | member object property =>
    obtain rfl := List.mem_singleton.1 hpart
    exact h.1
  | declarator target init =>
    obtain rfl := List.mem_singleton.1 hpart
    exact h.2
  | additive operator left right =>
    exact List.forall_mem_cons.2 ⟨h.1, List.forall_mem_singleton.2 h.2⟩ part hpart
  | assignment operator left right =>
    cases left with
    | member object property =>
      exact List.forall_mem_cons.2 ⟨h.1.1, List.forall_mem_singleton.2 h.2⟩ part hpart
    | _ =>
      obtain rfl := List.mem_singleton.1 hpart
      exact h.2
  | declaration trees | block trees => exact (Tree.onlyAll_iff trees).1 h part hpart
  | call callee arguments =>
    exact List.forall_mem_cons.2 ⟨h.1, (Tree.onlyAll_iff arguments).1 h.2⟩ part hpart
  | _ => exact absurd hpart List.not_mem_nil

namespace Evaluation

variable {engine : Engine} (hwords : ∀ n, numbers (wrap n)) (hhost : engine.host.Only numbers)
include hwords hhost

/-- The trees and values of certain numbers. Functions of the script may fail, and callables may
fail as they like, so long as they do not end the whole program. -/
def Provenance.only : Provenance engine where
  tree := Tree.Only numbers
  value := Value.Only numbers
  fault := Fault.Only numbers
  raised := Fault.Recoverable
  evaluator _ := True
  operand h hpart := h.operand hpart
  function h := h.2.2
  body h := h
  word := hwords
  plain _ := Value.only_of_isPlain
  ordinary _ := trivial
  foreign _ _ := trivial
  unknown _ _ _ := trivial
  program _ := trivial
  misplaced _ _ _ _ _ _ := trivial
  disowned _ _ _ _ _ _ _ _ := trivial
  overlong h htext := overlong_of_text h htext
  overlongCallee h hnone := overlong_of_describe _ h.1 hnone
  overlongTarget h hnone := overlong_of_describe _ h.1 hnone
  handed h := h.recoverable
  relayed _ := trivial
  fatal h hfatal := absurd (h.symm.trans hfatal) Bool.false_ne_true
  tooLong := rfl
  host callable _ hvalues := (Act.only_iff _).1 (hhost callable _ hvalues)

/-- **A program keeps to its numbers**, and the only fault that can get out of it is that one of
them is too long to be written down. -/
theorem execute_only {body : List Tree} (hbody : Tree.OnlyAll numbers body) {state : State}
    (hstate : state.Only numbers) :
    Confined (State.Only numbers) (Value.Only numbers) (Fault.Only numbers) (fun _ => True)
      (execute engine body state) := by
  have hfollows := Provenance.Follows.execute (P := Provenance.only hwords hhost)
    (fun _ => trivial) ((Tree.onlyAll_iff body).1 hbody) state (State.only_iff.1 hstate)
  exact hfollows.confined.mono (fun _ => State.only_iff.2) (fun _ h => h) fun _ h => h

end Evaluation

end PageScript
