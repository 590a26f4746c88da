/-!
# Log lines

* `Level` — how grave a line is;
* `LogLine` — a line with its level and the part of the library that wrote it;
* `LogLine.shown` — the line as it is printed;
* `LogLine.passing` — the lines of at least a given level.
-/

namespace PageScript

/-- How grave a log line is. -/
inductive Level where
  | debug
  | warning
  | error
deriving DecidableEq

namespace Level

/-- Levels in ascending order. -/
def rank : Level → Nat
  | debug => 10
  | warning => 30
  | error => 40

/-- The name of a level. -/
def name : Level → String
  | debug => "DEBUG"
  | warning => "WARNING"
  | error => "ERROR"

end Level

/-- The parts of the library that write log lines. -/
inductive Logger where
  | evaluation
  | document
deriving DecidableEq

/-- The name that a part of the library logs under. -/
def Logger.name : Logger → String
  | evaluation => "sabajs.interpreter"
  | document => "sabajs.page"

/-- A log line. -/
structure LogLine where
  level : Level
  logger : Logger
  text : String
deriving DecidableEq

namespace LogLine

/-- A log line as it is printed. -/
def shown (line : LogLine) : String :=
  s!"{line.level.name} {line.logger.name}: {line.text}"

/-- The lines of at least the given level. -/
def passing (level : Level) (lines : List LogLine) : List LogLine :=
  lines.filter fun line => level.rank ≤ line.level.rank

end LogLine

/-- The name of a file in a log line, where a missing one has to be named too. -/
def fileInLog (file : Option String) : String :=
  file.getD "None"

end PageScript
