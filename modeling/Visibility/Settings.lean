import Visibility.Path
import Visibility.Text.Uppercase

/-!
# Settings

What the command line takes from its environment, and the levels of log messages.
-/

namespace Visibility

/-! ## §1 Log levels -/

/-- The number of a log level; it is zero until one is set. -/
abbrev LogLevel := Nat

/-- The level of a name in capitals. -/
def logLevelOf? : String → Option LogLevel
  | "CRITICAL" | "FATAL" => some 50
  | "ERROR" => some 40
  | "WARNING" | "WARN" => some 30
  | "INFO" => some 20
  | "DEBUG" => some 10
  | "NOTSET" => some 0
  | _ => none

/-- A text that names no log level. -/
structure UnknownLogLevel where
  text : String
  deriving DecidableEq, Repr

/-- The message gives the text as it was written. -/
def UnknownLogLevel.message (e : UnknownLogLevel) : String :=
  "Unknown log level: " ++ e.text

/-- The level that a text names, in any case. -/
def readLogLevel (text : String) : Except UnknownLogLevel LogLevel :=
  (logLevelOf? (Text.toCapitals text)).elim (.error ⟨text⟩) .ok

/-- The level from which on messages are written; where none is set it is that of warnings. -/
def LogLevel.threshold (level : LogLevel) : Nat :=
  if level = 0 then 30 else level

/-- The levels after each of several attempts to set one; a failed attempt changes nothing. -/
def setLogLevels (level : LogLevel) :
    List String → List (Except UnknownLogLevel Unit × LogLevel)
  | [] => []
  | text :: texts =>
    match readLogLevel text with
    | .ok level => (.ok (), level) :: setLogLevels level texts
    | .error e => (.error e, level) :: setLogLevels level texts

/-! ## §2 The environment -/

/-- The settings of the command line. -/
structure Settings where
  logLevel : String
  rulesPath : Path
  deriving Repr

/-- The settings of an environment, in which a variable may be missing. -/
def Settings.ofEnvironment (logLevel rulesPath : Option String) : Settings :=
  ⟨Text.toCapitals (logLevel.getD "WARNING"), Path.ofText (rulesPath.getD "rules")⟩

end Visibility
