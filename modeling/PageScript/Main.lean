import PageScript.Shell.Command

/-!
# The program

Connects the command line to the console: arguments, environment, files and standard streams come
in, and the report of the command goes out. All decisions are made in `PageScript.Shell.Command`.
-/

namespace PageScript.Terminal

/-- Prints log lines to the error stream. -/
def showLog (level : Level) (lines : List LogLine) : IO Unit :=
  (LogLine.passing level lines).forM fun line => IO.eprintln line.shown

/-- Ends with an error. -/
def giveUp (kind : String) (message : Option String) : IO UInt32 := do
  IO.eprintln (kind ++ (message.map (": " ++ ·)).getD "")
  return 1

/-- Prints a report and gives its exit code. -/
def showReport (level : Level) (report : Report) : IO UInt32 := do
  showLog level report.log
  IO.print report.output
  match report.exit with
  | .ok code => return code.toUInt32
  | .error (.setting error) => giveUp error.kind error.message
  | .error (.file error) => giveUp error.kind error.message?
  | .error (.crash fault) => giveUp fault.kind fault.message
  | .error .stalled => return 1

/-- A session at the prompt, from the lines of the standard input. -/
partial def converse (settings : Settings) (engine : Engine) (prompt : Prompt) : IO UInt32 := do
  IO.print prompt.cue
  (← IO.getStdout).flush
  let line ← (← IO.getStdin).getLine
  let input : Input :=
    if line.isEmpty then .endOfInput else .line ((line.dropEndWhile (· = '\n')).toString)
  let (printed, next) := prompt.feed engine input
  IO.print (String.join printed)
  showLog settings.logLevel (next.state.log.toList.drop prompt.state.log.size)
  match next with
  | .stay prompt => converse settings engine prompt
  | .leave _ => return 0
  | .crash fault _ => giveUp fault.kind fault.message

/-- The content of a file, or why it cannot be read. -/
def readFile (path : String) : IO (Except OpenError ByteArray) := do
  try
    return .ok (← IO.FS.readBinFile path)
  catch
    | .noFileOrDirectory .. => return .error .notFound
    | .inappropriateType .. => return .error .isFolder
    | error => throw error

end PageScript.Terminal

open PageScript Terminal

/-- Runs the command that the arguments ask for. -/
def main (arguments : List String) : IO UInt32 := do
  let keys := [Settings.stepsKey, Settings.callDepthKey, Settings.debugKey]
  let found ← keys.mapM fun key => return (key, ← IO.getEnv key)
  match Settings.ofEnvironment fun key => (found.lookup key).join with
  | .error error => giveUp error.kind error.message
  | .ok settings =>
    match Command.ofArguments arguments with
    | .session =>
      IO.print Prompt.banner
      converse settings (settings.engine Prompt.file) Prompt.start
    | .help code =>
      IO.print usage
      return code.toUInt32
    | .script path =>
      match ← readFile path with
      | .error error => giveUp error.kind error.message?
      | .ok bytes =>
        match Text.decode? bytes with
        | none => giveUp OpenError.notText.kind none
        | some source =>
          showReport settings.logLevel (Command.runFile settings path source)
