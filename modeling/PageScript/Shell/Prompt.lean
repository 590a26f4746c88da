import PageScript.Embedding.Blueprint
import PageScript.Evaluation.Run
import PageScript.Grammar.Script
import PageScript.Text.Blank

/-!
# The interactive prompt

Lines are read one at a time and run as soon as they make up a script. Input that ends inside a
function is kept until a later line completes it or makes it impossible.

* `Prompt` — the running script and the lines that wait for more;
* `Prompt.cue` — what is shown before a line is read;
* `Prompt.feed` — what one input does: the printed lines and what comes next;
* `Prompt.transcript` — a whole session.

A failure of the script is printed and forgets the waiting lines. What the script had changed
before it stays changed.
-/

namespace PageScript

/-- What can come in at a prompt. -/
inductive Input where
  | line (text : String)
  | interrupt
  | endOfInput
deriving DecidableEq

/-- A session at the prompt. -/
structure Prompt where
  state : State
  /-- The lines that wait for more, in order. -/
  pending : List String
deriving DecidableEq

/-- What comes after an input. -/
inductive Next where
  | stay (prompt : Prompt)
  | leave (state : State)
  | crash (fault : HostFault) (state : State)
deriving DecidableEq

/-- The state of the script after an input. -/
def Next.state : Next → State
  | stay prompt => prompt.state
  | leave state => state
  | crash _ state => state

/-- Something shown on the screen: a cue, or printed text. -/
inductive Piece where
  | cue (text : String)
  | printed (text : String)
deriving DecidableEq

/-- What a piece shows. -/
def Piece.text : Piece → String
  | cue text => text
  | printed text => text

namespace Prompt

/-- The file that messages at the prompt name. -/
def file : Option String := some "<stdin>"

/-- What is printed when a session starts. -/
def banner : String :=
  "Saba Script Runner - REPL\nType `exit` or `quit` to leave.\n"

/-- The lines, apart from blanks around them, that end a session. -/
def farewells : List String := ["exit", "quit"]

/-- A session that starts with a console as its only global. -/
def start : Prompt :=
  let (console, store) := Blueprint.console.build .empty
  ⟨.initial [("console", console)] (.ofStore store), []⟩

/-- What is shown before a line is read. -/
def cue (prompt : Prompt) : String :=
  if prompt.pending.isEmpty then ">>> " else "... "

/-- Takes what a script has printed out of its state. -/
def drain (state : State) : List String × State :=
  (state.world.output.toList, { state with world := { state.world with output := #[] } })

/-- Whether reading stopped because the input ended inside a function. -/
def isIncomplete : Failure → Bool
  | .structural (.expected _ none) _ => true
  | _ => false

/-- Runs the lines so far, if they make up a script. -/
def runLines (engine : Engine) (state : State) (lines : List String) : List String × Next :=
  match Grammar.readScript ("\n".intercalate lines) file with
  | .error (.failed failure) =>
    if isIncomplete failure then ([], .stay ⟨state, lines⟩)
    else ([failure.headline ++ "\n"], .stay ⟨state, []⟩)
  | .error .stalled => ([], .leave state)
  | .ok body =>
    match Evaluation.execute engine body state with
    | .ok _ state | .error (.returned _) state =>
      let (printed, state) := drain state
      (printed, .stay ⟨state, []⟩)
    | .error (.failed (.script failure)) state =>
      let (printed, state) := drain state
      if isIncomplete failure then (printed, .stay ⟨state, lines⟩)
      else (printed ++ [failure.headline ++ "\n"], .stay ⟨state, []⟩)
    | .error (.failed (.host fault)) state =>
      let (printed, state) := drain state
      (printed, .crash fault state)

/-- What one input prints, and what comes next. -/
def feed (engine : Engine) (prompt : Prompt) : Input → List String × Next
  | .interrupt => (["\nInterrupted.\n"], .leave prompt.state)
  | .endOfInput => (["\n"], .leave prompt.state)
  | .line text =>
    if farewells.contains (Text.strip text) then ([], .leave prompt.state)
    else runLines engine prompt.state (prompt.pending ++ [text])

/-- The pieces that a session shows, and how it ends. Behind the last input the input ends. -/
def transcript (engine : Engine) (prompt : Prompt) : List Input → List Piece × Next
  | [] =>
    let (printed, next) := prompt.feed engine .endOfInput
    (.cue prompt.cue :: printed.map .printed, next)
  | input :: rest =>
    match prompt.feed engine input with
    | (printed, .stay prompt') =>
      let (pieces, next) := transcript engine prompt' rest
      (.cue prompt.cue :: (printed.map .printed ++ pieces), next)
    | (printed, next) => (.cue prompt.cue :: printed.map .printed, next)

end Prompt

end PageScript
