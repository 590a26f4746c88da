/-!
# Checking the style of the sources

The commands that check the style of the project's sources, in order.

* `StyleCheck.commands` — each checker with its arguments;
* `StyleCheck.run` — runs them until one fails: what is printed, what has been run, and whether all
  of it went well.

Running a command is the caller's business: here a command is a list of words, and the caller says
which of them fail.
-/

namespace PageScript.StyleCheck

/-- A command of a given name. -/
structure Check where
  name : String
  words : List String
deriving DecidableEq

/-- What is checked. -/
def targets : List String := ["./sabajs", "./saba.py"]

/-- The commands in order. Only the first of them can be told to check the tests too. -/
def commands (includeTests : Bool) : List Check :=
  [⟨"flake8", "flake8" :: targets ++ ["--max-line-length=100"] ++
      (if includeTests then [] else ["--exclude=sabajs/tests"])⟩,
    ⟨"pylint", "pylint" :: targets ++ ["--ignore=tests", "--max-line-length=100"]⟩]

/-- What a run has printed and run, and whether every command went well. -/
structure Trace where
  output : String
  ran : List Check
  succeeded : Bool
deriving DecidableEq

/-- Runs commands until one fails. -/
def runAll (fails : Check → Bool) : List Check → Trace
  | [] => ⟨"", [], true⟩
  | check :: rest =>
    let line := s!"Running {check.name}...\n"
    if fails check then ⟨line, [check], false⟩
    else
      let trace := runAll fails rest
      ⟨line ++ trace.output, check :: trace.ran, trace.succeeded⟩

/-- Runs the commands that the arguments ask for. -/
def run (arguments : List String) (fails : Check → Bool) : Trace :=
  runAll fails (commands (arguments.contains "--tests"))

end PageScript.StyleCheck
