import Visibility.FileTree

/-!
# Arguments of the command line

The arguments name a command, after options that all commands share.  The arguments of a command are
options with values, flags, and the rest by position; options may stand between those by position,
and after a double dash everything counts by position.
-/

namespace Visibility.CommandLine

/-! ## §1 Misuse -/

/-- What is wrong with arguments. -/
inductive UsageError where
  | missingCommand
  | unknownCommand (name : String)
  | unknownOption (name : String)
  | missingValue (option : String)
  | unexpectedValue (option : String)
  | missingArgument (name : String)
  | extraArgument (text : String)
  | pathNotFound (text : String)
  | pathIsDirectory (text : String)
  | nullInPath (text : String)
  | invalidOption (option message : String)
  deriving DecidableEq, Repr

/-- The message of a misuse. -/
def UsageError.message : UsageError → String
  | .missingCommand => "Missing command."
  | .unknownCommand name => "No such command '" ++ name ++ "'."
  | .unknownOption name => "No such option: " ++ name
  | .missingValue option => "Option '" ++ option ++ "' requires an argument."
  | .unexpectedValue option => "Option '" ++ option ++ "' does not take a value."
  | .missingArgument name => "Missing argument '" ++ name ++ "'."
  | .extraArgument text => "Got unexpected extra argument (" ++ text ++ ")"
  | .pathNotFound text => "Path '" ++ text ++ "' does not exist."
  | .pathIsDirectory text => "File '" ++ text ++ "' is a directory."
  | .nullInPath text => "Path '" ++ text ++ "' has a null character."
  | .invalidOption option message => "Invalid value for " ++ option ++ ": " ++ message

/-! ## §2 Reading options -/

/-- The options of the commands and of the program. -/
inductive OptionName where
  | logLevel
  | context
  | assignment
  | truth
  | help
  deriving DecidableEq, Repr

namespace OptionName

/-- How an option is written. -/
def text : OptionName → String
  | .logLevel => "--log-level"
  | .context => "--context"
  | .assignment => "--set"
  | .truth => "--bool"
  | .help => "--help"

/-- Whether a value belongs to an option. -/
def takesValue : OptionName → Bool
  | .truth | .help => false
  | .logLevel | .context | .assignment => true

end OptionName

/-- The arguments of a command, or of the program before its command. -/
structure Arguments where
  logLevel : Option String
  contextFile : Option String
  assignments : List String
  asTruth : Bool
  wantsHelp : Bool
  positional : List String
  deriving Repr

namespace Arguments

/-- The arguments of an empty command line. -/
def none : Arguments := ⟨.none, .none, [], false, false, []⟩

/-- Notes an option; of those that count once the last one wins. -/
def note (a : Arguments) (option : OptionName) (value : String) : Arguments :=
  match option with
  | .logLevel => { a with logLevel := some value }
  | .context => { a with contextFile := some value }
  | .assignment => { a with assignments := a.assignments ++ [value] }
  | .truth => { a with asTruth := true }
  | .help => { a with wantsHelp := true }

/-- Splits an argument at its first equals sign. -/
def splitValue (argument : String) : String × Option String :=
  let cs := argument.toList
  let name := String.ofList (cs.takeWhile (· != '='))
  match cs.dropWhile (· != '=') with
  | [] => (name, .none)
  | _ :: value => (name, some (String.ofList value))

/-- Whether an argument has the form of an option. -/
def isOptionLike (argument : String) : Bool :=
  argument.startsWith "-" && argument != "-"

/-- Reads arguments among the given options.  Without `interspersed`, the first argument by position
ends the options. -/
def read (options : List OptionName) (interspersed : Bool) (a : Arguments) :
    List String → Except UsageError Arguments
  | [] => .ok a
  | argument :: others =>
    if argument = "--" then .ok { a with positional := a.positional ++ others }
    else if isOptionLike argument then
      let (name, value?) := splitValue argument
      match options.find? (·.text == name) with
      | .none => .error (.unknownOption name)
      | some option =>
        if option.takesValue then
          match value? with
          | some value => read options interspersed (a.note option value) others
          -- The next argument is the value, whatever it looks like.
          | .none =>
            match others with
            | value :: others => read options interspersed (a.note option value) others
            | [] => .error (.missingValue name)
        else if value?.isSome then .error (.unexpectedValue name)
        else read options interspersed (a.note option "") others
    else if interspersed then
      read options interspersed { a with positional := a.positional ++ [argument] } others
    -- The rest belongs to the command that this argument names.
    else .ok { a with positional := argument :: others }

end Arguments

/-! ## §3 Paths as arguments -/

/-- Whether a path is written like that of a directory. -/
def isDirectoryLike (text : String) : Bool :=
  text.endsWith "/" || text.endsWith "/." || text == "."

/-- A path that is given as an argument has to exist. -/
def existingPath (tree : FileTree) (text : String) : Except UsageError Path :=
  let path := Path.ofText text
  match tree.find path with
  | .error .nullCharacter => .error (.nullInPath text)
  | .error _ => .error (.pathNotFound text)
  | .ok _ =>
    if text = "" ∨ (isDirectoryLike text ∧ tree.isFile path) then .error (.pathNotFound text)
    else .ok path

/-- A file that is given as an argument has to exist and not to be a directory. -/
def existingFile (tree : FileTree) (text : String) : Except UsageError Path :=
  match existingPath tree text with
  | .error e => .error e
  | .ok path => if tree.isFile path then .ok path else .error (.pathIsDirectory text)

end Visibility.CommandLine
