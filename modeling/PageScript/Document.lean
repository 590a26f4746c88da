import PageScript.Evaluation.Run
import PageScript.Grammar.Script

/-!
# The script of a document

A document hands over the text of its script, and whatever the script does wrong ends there: a
failure is logged, and what the script changed before it stays changed.

* `Outcome` — how a script ends;
* `Document.run` — reads a text and executes it;
* `Document.parsedNote` — what debug output says about a script that has been read.
-/

namespace PageScript

/-- How a script ends. -/
inductive Outcome where
  /-- It has been read and executed to its end. -/
  | completed
  /-- A failure has stopped it. -/
  | stopped (failure : Failure)
  /-- The program around the script has failed. -/
  | crashed (fault : HostFault)
  /-- Its reading would never end. -/
  | stalled
deriving DecidableEq

namespace Document

/-- One more log line. -/
def logged (state : State) (level : Level) (text : String) : State :=
  { state with log := state.log.push ⟨level, .document, text⟩ }

/-- What debug output says about a script that has been read. -/
def parsedNote (file : Option String) (body : List Tree) : String :=
  s!"Parsed {body.length} top-level node(s) from {fileInLog file}: {(Tree.program body).shown}"

/-- Ends a script with a failure, which is logged. -/
def stop (file : Option String) (failure : Failure) (state : State) : Outcome × State :=
  (.stopped failure,
    logged state .warning s!"Script in {fileInLog file} stopped: {failure.headline}")

/-- Executes the elements of a script. -/
def runBody (engine : Engine) (body : List Tree) (state : State) : Outcome × State :=
  match Evaluation.execute engine body state with
  | .ok _ state => (.completed, state)
  | .error (.returned _) state => (.completed, state)
  | .error (.failed (.script failure)) state => stop engine.file failure state
  | .error (.failed (.host fault)) state => (.crashed fault, state)

/-- Reads a text and executes it. -/
def run (engine : Engine) (debug : Bool) (source : String) (state : State) : Outcome × State :=
  match Grammar.readScript source engine.file with
  | .error (.failed failure) => stop engine.file failure state
  | .error .stalled => (.stalled, state)
  | .ok body =>
    if debug then runBody engine body (logged state .debug (parsedNote engine.file body))
    else runBody engine body state

end Document

end PageScript
