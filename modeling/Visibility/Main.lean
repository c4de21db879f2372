import Visibility.CommandLine

/-!
# The program

Reads the files that the arguments may mean, carries the command out, and writes what it reports.
-/

namespace Visibility.Main

/-- What was read so far, and the number of objects in it. -/
structure Reading where
  entries : List (List String × FileEntry)
  objects : Nat

/-- Reads one file into a tree. -/
def addFile (r : Reading) (path : Path) : IO Reading := do
  let content? ← try some <$> IO.FS.readFile path.text catch _ => pure none
  match content?.map (Document.read .given r.objects) with
  | some (.ok (v, objects)) =>
    return ⟨(FileTree.placeOf path, .file (.document v)) :: r.entries, objects⟩
  | _ => return { r with entries := (FileTree.placeOf path, .file .invalid) :: r.entries }

/-- Reads a file, or the rule files of a directory, into a tree. -/
def addPath (r : Reading) (text : String) : IO Reading := do
  let path := Path.ofText text
  let file := System.mkFilePath [path.text]
  if text = "" || !(← file.pathExists) then return r
  if !(← file.isDir) then addFile r path
  else
    let mut r := { r with entries := (FileTree.placeOf path, .directory) :: r.entries }
    for entry in ← file.readDir do
      if RuleSet.isRuleFileName entry.fileName then
        let child := path.child entry.fileName
        if ← entry.path.isDir then
          r := { r with entries := (FileTree.placeOf child, .directory) :: r.entries }
        else r ← addFile r child
    return r

/-- The texts that may be paths: the arguments, the values of options, and the path of the rules. -/
def possiblePaths (settings : Settings) (arguments : List String) : List String :=
  settings.rulesPath.text :: arguments.flatMap fun argument =>
    match CommandLine.Arguments.splitValue argument with
    | (_, some value) => [argument, value]
    | (_, none) => [argument]

/-- What the program is for, in one line for each command. -/
def usage : List String :=
  ["Usage: visibility [--log-level LEVEL] COMMAND [ARGUMENTS]",
   "",
   "Check and evaluate show/hide condition expressions.",
   "",
   "  eval EXPRESSION [--context FILE] [--set KEY=VALUE]... [--bool]",
   "  validate [PATH]",
   "  check [PATH] [--context FILE] [--set KEY=VALUE]..."]

end Visibility.Main

open Visibility in
/-- Runs the command that the arguments name. -/
def main (arguments : List String) : IO UInt32 := do
  let settings := Settings.ofEnvironment (← IO.getEnv "SHOWWHEN_LOG_LEVEL")
    (← IO.getEnv "SHOWWHEN_RULES_PATH")
  let reading ← (Main.possiblePaths settings arguments).foldlM Main.addPath ⟨[], 0⟩
  let report := CommandLine.run ⟨reading.entries⟩ settings arguments
  report.output.forM IO.println
  report.errors.forM IO.eprintln
  match report.ending with
  | .exit code => return code.toUInt32
  | .help =>
    Main.usage.forM IO.println
    return 0
  | .misuse e =>
    IO.eprintln ("Error: " ++ e.message)
    return 2
  | .failure cause =>
    IO.eprintln ("Error: " ++ cause.message)
    return 1
