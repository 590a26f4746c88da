import PageScript.Text.Blank
import PageScript.Text.Decimal
import PageScript.Text.Quoted

/-!
# Settings

What bounds a script, and where the bounds come from.

* `Limits` — the bound on evaluation steps, if there is one, and the bound on nested calls;
* `Settings` — the limits and whether debug output is on;
* `Settings.ofEnvironment` — the settings that an environment asks for;
* `SettingError` — why an environment cannot be obeyed.

A setting is read without the blanks around it, and a setting of blanks alone counts as absent. The
bound on calls is read before the bound on steps, so of two bad settings it is the one reported.
-/

namespace PageScript

/-- The bounds of a run. -/
structure Limits where
  maxSteps : Option Int
  maxCallDepth : Int
deriving DecidableEq

/-- The bound on nested calls, where none is set. -/
def defaultCallDepth : Int := 64

/-- No bound on steps and the default bound on calls. -/
def Limits.standard : Limits := ⟨none, defaultCallDepth⟩

/-- What a run is set to. -/
structure Settings where
  limits : Limits
  debug : Bool
deriving DecidableEq

/-- Why a setting is refused. -/
inductive SettingError where
  /-- The text is no integer. -/
  | notInteger (key text : String)
  /-- The number is zero or negative. -/
  | notPositive (key : String) (value : Int)
deriving DecidableEq

namespace SettingError

/-- The name of the kind of error. -/
def kind (_ : SettingError) : String := "ValueError"

/-- The message of an error. -/
def message : SettingError → String
  | notInteger key text => s!"{key} must be an integer, got {Text.quoted text}"
  | notPositive key value => s!"{key} must be positive, got {value}"

end SettingError

namespace Settings

/-- The settings where nothing is set. -/
def standard : Settings := ⟨.standard, false⟩

/-- The setting for the bound on steps. -/
def stepsKey : String := "SABAJS_MAX_STEPS"

/-- The setting for the bound on nested calls. -/
def callDepthKey : String := "SABAJS_MAX_CALL_DEPTH"

/-- The setting for debug output. -/
def debugKey : String := "SABAJS_DEBUG"

/-- A bound, if the setting of this key is more than blanks. -/
def readBound (key text : String) : Except SettingError (Option Int) :=
  let text := Text.strip text
  if text.isEmpty then .ok none
  else match Text.readInteger? text.toList with
    | none => .error (.notInteger key text)
    | some value => if value ≤ 0 then .error (.notPositive key value) else .ok (some value)

/-- A letter of the basic script in lower case. -/
def lowerBasic (text : String) : String :=
  text.map Char.toLower

/-- Whether a text turns debug output on. No character outside the basic script has a lower case in
`false`, so the basic letters are all that matters. -/
def readFlag (text : String) : Bool :=
  let flag := lowerBasic (Text.strip text)
  flag ≠ "" && flag ≠ "0" && flag ≠ "false"

/-- The settings that an environment asks for. -/
def ofEnvironment (environment : String → Option String) : Except SettingError Settings := do
  let value (key : String) : String := (environment key).getD ""
  let depth ← readBound callDepthKey (value callDepthKey)
  let steps ← readBound stepsKey (value stepsKey)
  return ⟨⟨steps, depth.getD defaultCallDepth⟩, readFlag (value debugKey)⟩

end Settings

end PageScript
