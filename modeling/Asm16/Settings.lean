/-
**Settings from the environment.**

* `Variables` — the environment variables that matter, as the bytes they are set to.
* `Settings.ofVariables` — whether runs are traced and how many instructions they may execute.
* `Configuration` — settings that are made once and only read afterwards.
-/

import Asm16.Text.Blank
import Asm16.Numeral
import Asm16.Utf8

namespace Asm16

/-- The environment variables that matter; an unset one is `none`. -/
structure Variables where
  trace : Option ByteArray
  stepBudget : Option ByteArray
  forceColour : Option ByteArray

namespace Variables

/-- The name of the variable that has runs traced. -/
def traceName : String := "HUOBZ_TRACE"

/-- The name of the variable that limits runs. -/
def stepBudgetName : String := "HUOBZ_STEP_BUDGET"

/-- The name of the variable that forces colour. -/
def forceColourName : String := "CLICOLOR_FORCE"

/-- The variables of an environment, looked up by their names. -/
def ofLookup (lookup : String → Option ByteArray) : Variables where
  trace := lookup traceName
  stepBudget := lookup stepBudgetName
  forceColour := lookup forceColourName

/-- Colour is forced by any text but `0`. -/
def colour (environment : Variables) : Bool :=
  match environment.forceColour.bind Utf8.decode? with
  | some text => text != "0"
  | none => false

end Variables

/-- Whether runs are traced, and how many instructions they may execute, if limited. -/
structure Settings where
  trace : Bool
  stepBudget : Option Nat
deriving DecidableEq, Repr

/-- Why the environment gives no settings. -/
inductive SettingsError
  | invalidStepBudget (text : String)
deriving DecidableEq, Repr

/-- The words in which an environment is refused. -/
def SettingsError.message : SettingsError → String
  | invalidStepBudget text =>
    s!"{Variables.stepBudgetName} must be a non-negative integer, found `{text}`"

namespace Settings

/-- The limit a text sets: a number of 64 bits between blanks. -/
def stepBudgetOfText (text : String) : Except SettingsError Nat :=
  match Numeral.unsigned? Numeral.largest64 (Text.trim text.toList) with
  | some budget => .ok budget
  | none => .error (.invalidStepBudget text)

/-- The settings of an environment: runs are traced when the variable is `1`, and limited when the
other one is set. A variable whose bytes are not text counts as unset. -/
def ofVariables (environment : Variables) : Except SettingsError Settings :=
  let trace := environment.trace.bind Utf8.decode? == some "1"
  match environment.stepBudget.bind Utf8.decode? with
  | none => .ok { trace, stepBudget := none }
  | some text =>
    match stepBudgetOfText text with
    | .ok budget => .ok { trace, stepBudget := some budget }
    | .error error => .error error

end Settings

/-- The settings of a process, once they have been made. -/
abbrev Configuration := Option Settings

/-- Why settings cannot be made or read. -/
inductive ConfigurationError
  | invalid (error : SettingsError)
  | madeTwice
  | notMade
deriving DecidableEq, Repr

/-- The words in which a misuse of the settings is reported. -/
def ConfigurationError.message : ConfigurationError → String
  | invalid error => error.message
  | madeTwice => "tried to initialize environment state multiple times"
  | notMade => "tried to access environment state before initialization"

namespace Configuration

/-- Makes the settings from the environment, which is read even if they have been made before. -/
def make (configuration : Configuration) (environment : Variables) :
    Except ConfigurationError Configuration :=
  match Settings.ofVariables environment with
  | .error error => .error (.invalid error)
  | .ok settings =>
    match configuration with
    | none => .ok (some settings)
    | some _ => .error .madeTwice

/-- The settings that have been made. -/
def read (configuration : Configuration) : Except ConfigurationError Settings :=
  match configuration with
  | some settings => .ok settings
  | none => .error .notMade

end Configuration

end Asm16
