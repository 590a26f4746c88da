import PageScript.Document
import PageScript.Shell.Folder
import PageScript.Shell.Prompt
import PageScript.Token.Scan

/-!
# The command line

* `Command` — what a list of arguments asks for: a session at the prompt, the usage text, a script;
* `usage` — the usage text;
* `Command.runFile` — reads a script file and runs it with a console;
* `Command.run` — a whole command, from its arguments to its exit code;
* `Report` — what a command prints and logs, and how it ends.

The settings are read before the arguments are looked at. With debug output on, a file's tokens and
tree are printed before it runs, and all log lines are shown instead of warnings alone.
-/

namespace PageScript

/-- What a list of arguments asks for. -/
inductive Command where
  | session
  | help (exitCode : Nat)
  | script (path : String)
deriving DecidableEq

/-- Why a command ends without an exit code. -/
inductive CommandError where
  | setting (error : SettingError)
  | file (error : OpenError)
  | crash (fault : HostFault)
  | stalled
deriving DecidableEq

/-- What a command leaves behind. -/
structure Report where
  output : String
  log : List LogLine
  exit : Except CommandError Nat

/-- The usage text. -/
def usage : String :=
  "\n".intercalate
    ["",
      "Saba Script Runner",
      "",
      "Usage:",
      "    saba <script.js>",
      "",
      "Arguments:",
      "    <script.js>",
      "        Path to a script to execute. A `console` object with a",
      "        `log` method is available to the script.",
      "",
      "Example:",
      "    saba hello.js",
      "",
      "Or run with no arguments to enter interactive mode (REPL).",
      "",
      "Options:",
      "    -h, --help",
      "        Show this help message and exit.",
      "",
      "Environment:",
      "    SABAJS_DEBUG, SABAJS_MAX_STEPS, SABAJS_MAX_CALL_DEPTH",
      ""]

/-- The level from which on log lines are shown. -/
def Settings.logLevel (settings : Settings) : Level :=
  if settings.debug then .debug else .warning

/-- The engine of a command. Its scripts have no host but the console. -/
def Settings.engine (settings : Settings) (file : Option String) : Engine :=
  ⟨file, settings.limits, .idle⟩

namespace Command

/-- What a list of arguments asks for. -/
def ofArguments : List String → Command
  | [] => .session
  | ["-h"] | ["--help"] => .help 0
  | [path] => .script path
  | _ => .help 1

/-- The tokens and the tree of a script, or why it has none. -/
def listing (source path : String) : String :=
  let tokens := scan source (some path)
  match tokens.failure, Grammar.readScript source (some path) with
  | some failure, _ => failure.headline ++ "\n"
  | none, .error (.failed failure) => failure.headline ++ "\n"
  | none, .error .stalled => ""
  | none, .ok body =>
    let shown := Text.listed (tokens.tokens.map (·.shown))
    s!"\nTokens:\n\n{shown}\n\nAST:\n\n{(Tree.program body).shown}\n \n"

/-- Runs the text of a script file. -/
def runFile (settings : Settings) (path source : String) : Report :=
  let (console, store) := Blueprint.console.build .empty
  let state := State.initial [("console", console)] (.ofStore store)
  let shown := if settings.debug then listing source path else ""
  let (outcome, state) := Document.run (settings.engine (some path)) settings.debug source state
  let exit := match outcome with
    | .completed => .ok 0
    | .stopped _ => .ok 1
    | .crashed fault => .error (.crash fault)
    | .stalled => .error .stalled
  ⟨shown ++ state.world.printed, LogLine.passing settings.logLevel state.log.toList, exit⟩

/-- Runs a session at the prompt. -/
def runPrompt (settings : Settings) (inputs : List Input) : Report :=
  let (pieces, next) := Prompt.start.transcript (settings.engine Prompt.file) inputs
  let output := Prompt.banner ++ String.join (pieces.map (·.text))
  let exit := match next with
    | .crash fault _ => .error (.crash fault)
    | _ => .ok 0
  ⟨output, LogLine.passing settings.logLevel next.state.log.toList, exit⟩

/-- Runs a command. -/
def run (arguments : List String) (environment : String → Option String) (folder : Folder)
    (inputs : List Input) : Report :=
  match Settings.ofEnvironment environment with
  | .error error => ⟨"", [], .error (.setting error)⟩
  | .ok settings =>
    match ofArguments arguments with
    | .session => runPrompt settings inputs
    | .help exitCode => ⟨usage, [], .ok exitCode⟩
    | .script path =>
      match folder.readText path with
      | .error error => ⟨"", [], .error (.file error)⟩
      | .ok source => runFile settings path source

end Command

end PageScript
