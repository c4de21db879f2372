import Visibility.Condition.Decision
import Visibility.Path

/-!
# Rules

A rule is a named list of conditions; it is shown if one of them holds, or if it has none.  Rules
are read from the items of a document, and an item that is no rule is refused with the file it
stands in.
-/

namespace Visibility

/-! ## §1 The type -/

/-- A rule.  Its description is whatever the document has for it. -/
structure Rule where
  name : String
  conditions : List String
  description : Value
  source : Option Path

/-- What is wrong with a document of rules or with one of its items. -/
inductive RuleFault where
  | invalidDocument
  | noRuleList
  | notAMapping
  | missingName
  | badConditions (name : String)
  | duplicateName (name : String)
  deriving DecidableEq, Repr

/-- The message of a fault. -/
def RuleFault.message : RuleFault → String
  | .invalidDocument => "invalid YAML"
  | .noRuleList => "expected a top-level 'rules' list"
  | .notAMapping => "each rule must be a mapping"
  | .missingName => "rule is missing a 'name'"
  | .badConditions name =>
    "rule '" ++ name ++ "' showWhen must be a string or a list of strings"
  | .duplicateName name => "duplicate rule name '" ++ name ++ "'"

/-- A fault and the file it was found in, if it came from a file. -/
structure RuleError where
  file : Option Path
  fault : RuleFault
  deriving DecidableEq, Repr

/-- The message of an error names the file, or says that there is none. -/
def RuleError.message (e : RuleError) : String :=
  e.file.elim "<rules>" Path.text ++ ": " ++ e.fault.message

/-! ## §2 Reading a rule -/

/-- The text of a string value. -/
def Value.string? : Value → Option String
  | .string s => some s
  | _ => none

/-- The conditions that a value stands for: none, one, or a list of texts. -/
def conditionsOf? : Value → Option (List String)
  | .null => some []
  | .string s => some [s]
  | .list _ items => items.mapM Value.string?
  | _ => none

/-- The rule that an item of a document describes. -/
def Rule.ofValue (item : Value) (file : Option Path) : Except RuleError Rule :=
  match item.entries? with
  | none => .error ⟨file, .notAMapping⟩
  | some entries =>
    -- The name is looked at before the conditions, whose message mentions it.
    match (Value.find? "name" entries).bind Value.string? with
    | none | some "" => .error ⟨file, .missingName⟩
    | some name =>
      match conditionsOf? ((Value.find? "showWhen" entries).getD .null) with
      | none => .error ⟨file, .badConditions name⟩
      | some conditions =>
        .ok ⟨name, conditions, (Value.find? "description" entries).getD (.string ""), file⟩

/-! ## §3 Showing and checking -/

/-- A condition of a rule that is no expression. -/
structure SyntaxIssue where
  rule : String
  index : Nat
  expression : String
  cause : SyntaxError
  file : Option Path
  deriving DecidableEq, Repr

/-- The line that reports an issue. -/
def SyntaxIssue.text (i : SyntaxIssue) : String :=
  "[ERROR] " ++ i.file.elim "" (fun file => file.text ++ ": ") ++ "rule '" ++ i.rule ++
    "' showWhen[" ++ i.index.repr ++ "]: " ++ i.cause.message

namespace Rule

/-- Decides whether a rule is shown. -/
def decideShown (r : Rule) (context : Context) (cache : Cache) : Decision × Cache :=
  Visibility.decideShown (.many r.conditions) context cache

/-- The issues of the conditions from the given index on. -/
def issuesFrom (r : Rule) : Nat → List String → Cache → List SyntaxIssue × Cache
  | _, [], cache => ([], cache)
  | index, expression :: expressions, cache =>
    let (cause?, cache) := problem expression cache
    let (issues, cache) := r.issuesFrom (index + 1) expressions cache
    match cause? with
    | some cause => (⟨r.name, index, expression, cause, r.source⟩ :: issues, cache)
    | none => (issues, cache)

/-- All conditions of a rule that are no expressions, in order. -/
def issues (r : Rule) (cache : Cache) : List SyntaxIssue × Cache :=
  r.issuesFrom 0 r.conditions cache

end Rule

end Visibility
