import Visibility.CommandLine.Arguments
import Visibility.CommandLine.Log
import Visibility.Context.Assignment
import Visibility.Display
import Visibility.Text.Terminal

/-!
# The command line

Three commands: `eval` shows the value of an expression in a context, `validate` checks the
conditions of rule files, and `check` tells which rules are shown in a context.  `run` carries a
command out on a tree of files and gives what is written and how it ends; it reads and writes
nothing itself.
-/

namespace Visibility.CommandLine

/-! ## §1 Results of a run -/

/-- A failure that a command does not report by itself. -/
inductive Unhandled where
  | evaluation (cause : Failure)
  | display (cause : DisplayError)
  | access (cause : AccessError)
  | reading (cause : Document.ReadError)
  deriving DecidableEq, Repr

/-- The message of a failure that no command reports. -/
def Unhandled.message : Unhandled → String
  | .evaluation (.malformed cause) => cause.message
  | .evaluation (.denied cause) => cause.message
  | .evaluation (.coercion cause) => cause.message
  | .evaluation .unreadableContext => "the context cannot be read"
  | .display (.coercion cause) => cause.message
  | .display .unwritableKey => "a mapping has a key that is no text"
  | .display .tooManyDigits => "a whole number has too many digits"
  | .display .endless => "an object is part of itself"
  | .display .nestedTooDeeply => "the value is nested too deeply"
  | .access .notFound => "no such file"
  | .access .isDirectory => "a directory stands in the place of a file"
  | .access .notADirectory => "a file stands in the place of a directory"
  | .access .nameTooLong => "the name of a file is too long"
  | .access .nullCharacter => "the name of a file has a null character"
  | .reading cause => cause.message

/-- How a run ends. -/
inductive Ending where
  | exit (code : Nat)
  | misuse (error : UsageError)
  | help
  | failure (cause : Unhandled)
  deriving DecidableEq, Repr

/-- What a run writes, line by line, and how it ends.  The lines that a command writes itself have
no control sequences; log lines are written as they are. -/
structure Report where
  output : List String
  errors : List String
  ending : Ending
  deriving Repr

namespace Report

/-- Writes lines and ends with an exit code. -/
def ended (output errors : List String) (code : Nat) : Report :=
  ⟨output.map Text.withoutControls, errors.map Text.withoutControls, .exit code⟩

/-- Writes lines and ends well. -/
def success (output : List String) : Report := ended output [] 0

/-- Reports a problem and ends. -/
def problem (line : String) : Report := ended [] [line] 1

/-- Ends by a failure. -/
def failed (cause : Unhandled) : Report := ⟨[], [], .failure cause⟩

/-- Ends because the arguments are wrong.  A path that no file can have is a failure. -/
def misused : UsageError → Report
  | .nullInPath _ => failed (.access .nullCharacter)
  | e => ⟨[], [], .misuse e⟩

/-- Writes log lines before everything else. -/
def logged (lines : List String) (r : Report) : Report :=
  { r with errors := lines ++ r.errors }

end Report

/-- What a command works with: the files, the settings and the level of log messages. -/
structure Setting where
  tree : FileTree
  settings : Settings
  level : LogLevel

/-! ## §2 Contexts -/

/-- The file of the context, if one is given. -/
def contextFileOf (s : Setting) (a : Arguments) : Except UsageError (Option Path) :=
  match a.contextFile with
  | none => .ok none
  | some text => (existingFile s.tree text).map some

/-- Builds the context of a file and of assignments and goes on with it; problems of building it are
reported. -/
def withContext (s : Setting) (file : Option Path) (assignments : List String)
    (next : Value → Report) : Report :=
  match buildContext s.tree file assignments with
  | .ok context => next context
  | .error (.access _ e) => .failed (.access e)
  | .error (.unreadableValue cause) => .failed (.reading cause)
  | .error e => .problem ("Error: " ++ e.message)

/-! ## §3 Showing a value -/

/-- The report that shows a value. -/
def showValue (v : Value) : Report :=
  match v.display with
  | .ok text => .success [text]
  | .error cause => .failed (.display cause)

/-- Evaluates an expression in a context and shows its value, or whether it counts as true. -/
def evaluateAndShow (source : String) (asTruth : Bool) (context : Value) : Report :=
  match Condition.compile source with
  | .error cause => .problem ("Syntax error: " ++ cause.message)
  | .ok c =>
    match (c.evaluate (.holding context)).1 with
    | .error (.denied cause) => .problem ("Security error: " ++ cause.message)
    -- What is too deeply nested or has no conversion is not reported as a problem.
    | .error cause => .failed (.evaluation cause)
    | .ok v =>
      if asTruth then
        match v.isTruthy with
        | .ok b => showValue (.bool b)
        | .error cause => .failed (.evaluation (.coercion cause))
      else showValue v

/-- The command `eval`. -/
def evalCommand (s : Setting) (a : Arguments) : Report :=
  match a.positional with
  | [] => .misused (.missingArgument "EXPRESSION")
  | _ :: extra :: _ => .misused (.extraArgument extra)
  | [source] =>
    match contextFileOf s a with
    | .error e => .misused e
    | .ok file => withContext s file a.assignments (evaluateAndShow source a.asTruth)

/-! ## §4 Rules -/

/-- The path of the rules: the argument, or that of the settings. -/
def rulesPathOf (s : Setting) (a : Arguments) : Except UsageError Path :=
  match a.positional with
  | [] => .ok s.settings.rulesPath
  | [text] => existingPath s.tree text
  | _ :: extra :: _ => .error (.extraArgument extra)

/-- Loads the rules of a path that is there and goes on with them; problems of loading are reported.
-/
def withLoaded (s : Setting) (path : Path) (next : RuleSet → Report) : Report :=
  let loaded := RuleSet.empty.loadAll s.tree path
  let warnings := LogRecord.lines s.level (loaded.warnings.map LogRecord.ofWarning)
  Report.logged warnings <|
    match loaded.outcome with
    | .ok () => next loaded.ruleSet
    | .error (.rule e) => .problem ("Error: " ++ e.message)
    | .error (.access _ e) => .failed (.access e)

/-- Loads the rules of a path and goes on with them, if there is anything at the path. -/
def withRules (s : Setting) (path : Path) (next : RuleSet → Report) : Report :=
  match s.tree.holds path with
  | .error e => .failed (.access e)
  | .ok false => .problem ("Error: Rules path not found at " ++ path.text)
  | .ok true => withLoaded s path next

/-- The report on the conditions of rules that are no expressions. -/
def validation (rules : RuleSet) : Report :=
  match (rules.issues .empty).1 with
  | [] =>
    let expressions := (rules.rules.flatMap (·.conditions)).length
    .success
      ["Checked " ++ rules.rules.length.repr ++ " rule(s), " ++ expressions.repr ++
        " expression(s).",
       "All show-when expressions are valid."]
  | issues =>
    let lines := issues.flatMap fun i => [i.text, "    " ++ i.expression]
    .ended (lines ++ ["", issues.length.repr ++ " syntax error(s) found"]) [] 1

/-- The command `validate`. -/
def validateCommand (s : Setting) (a : Arguments) : Report :=
  match rulesPathOf s a with
  | .error e => .misused e
  | .ok path => withRules s path validation

/-- The report on which rules are shown in a context. -/
def marks (s : Setting) (rules : RuleSet) (context : Value) : Report :=
  let shown := (rules.shown (.holding context) .empty).1
  let log := LogRecord.lines s.level (shown.swallowed.map LogRecord.ofSwallowed)
  Report.logged log <|
    match shown.rules with
    | .error cause => .failed (.evaluation (.coercion cause))
    | .ok shownRules =>
      let names := shownRules.map (·.name)
      let mark (r : Rule) : String := (if names.contains r.name then "  ✓ " else "  ✗ ") ++ r.name
      .success (rules.rules.map mark ++
        ["", names.length.repr ++ " of " ++ rules.rules.length.repr ++ " rule(s) shown."])

/-- The command `check`. -/
def checkCommand (s : Setting) (a : Arguments) : Report :=
  match rulesPathOf s a with
  | .error e => .misused e
  | .ok path =>
    match contextFileOf s a with
    | .error e => .misused e
    | .ok file =>
      -- Problems of the rules are reported before those of the context.
      withRules s path fun rules => withContext s file a.assignments (marks s rules)

/-! ## §5 Whole runs -/

/-- A command: the options it knows, and what it does. -/
structure Command where
  options : List OptionName
  action : Setting → Arguments → Report

/-- The command of a name. -/
def command? : String → Option Command
  | "eval" => some ⟨[.context, .assignment, .truth, .help], evalCommand⟩
  | "validate" => some ⟨[.help], validateCommand⟩
  | "check" => some ⟨[.context, .assignment, .help], checkCommand⟩
  | _ => none

/-- The log level of a run: that of the option unless it is empty, or that of the settings. -/
def logLevelOf (option : Option String) (settings : Settings) : Except UnknownLogLevel LogLevel :=
  match option with
  | none | some "" => readLogLevel settings.logLevel
  | some text => readLogLevel (Text.toCapitals text)

/-- Carries out the command that arguments name. -/
def run (tree : FileTree) (settings : Settings) (arguments : List String) : Report :=
  match Arguments.none.read [.logLevel, .help] false arguments with
  | .error e => .misused e
  | .ok shared =>
    if shared.wantsHelp then ⟨[], [], .help⟩
    else
      match shared.positional with
      | [] => .misused .missingCommand
      | name :: others =>
        match command? name with
        | none => .misused (.unknownCommand name)
        | some command =>
          -- The level is read before the arguments of the command are.
          match logLevelOf shared.logLevel settings with
          | .error e => .misused (.invalidOption OptionName.logLevel.text e.message)
          | .ok level =>
            match Arguments.none.read command.options true others with
            | .error e => .misused e
            | .ok own =>
              if own.wantsHelp then ⟨[], [], .help⟩
              else command.action ⟨tree, settings, level⟩ own

end Visibility.CommandLine
