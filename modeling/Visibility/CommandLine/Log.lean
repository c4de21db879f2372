import Visibility.Rule.RuleSet
import Visibility.Settings
import Visibility.Text.Printable

/-!
# Log lines

What the library has to say about a run beside its results: the warnings of loading, and, at the
level of debugging, the failures that counted as false.
-/

namespace Visibility.CommandLine

/-- A message with its level and the name of its source. -/
structure LogRecord where
  level : LogLevel
  source : String
  message : String
  deriving DecidableEq, Repr

namespace LogRecord

/-- The name of a level. -/
def levelName (level : LogLevel) : String :=
  match level with
  | 10 => "DEBUG"
  | 20 => "INFO"
  | 30 => "WARNING"
  | 40 => "ERROR"
  | 50 => "CRITICAL"
  | n => "Level " ++ n.repr

/-- The line that a message is written in. -/
def line (r : LogRecord) : String :=
  levelName r.level ++ " " ++ r.source ++ ": " ++ r.message

/-- A warning of loading. -/
def ofWarning (w : LoadWarning) : LogRecord :=
  ⟨30, "showwhen.rules.loader", w.message⟩

/-- A failure that counted as false. -/
def ofSwallowed (s : Swallowed) : LogRecord :=
  let message :=
    match s.cause with
    | .malformed cause => " evaluated to false: " ++ cause.message
    | .denied cause => " evaluated to false: " ++ cause.message
    | .coercion _ | .unreadableContext => " failed unexpectedly"
  ⟨10, "showwhen.expressions.compiler", "Expression " ++ Text.showQuoted s.source ++ message⟩

/-- The lines of the messages from a level on. -/
def lines (level : LogLevel) (records : List LogRecord) : List String :=
  (records.filter fun r => level.threshold ≤ r.level).map line

end LogRecord

end Visibility.CommandLine
