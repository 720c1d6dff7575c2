import SorobanLint.Contract.Line
import SorobanLint.Contract.Basic
import SorobanLint.Violation

/-!
# Rules

A check looks at a contract and returns findings.  A rule gives a check an id, a severity and a
switch, and turns its findings into violations, whose columns are looked up in the source.
-/

namespace SorobanLint

open Text

namespace Function

/-- The lines of a function with comments and the contents of literals blanked out. -/
def codeLines (function : Function) : List (List Char) :=
  mask (linesOf function.definition)

/-- The text of a function with comments and the contents of literals blanked out. -/
def code (function : Function) : List Char :=
  joinLines function.codeLines

/-- The line of a place in the function's text. -/
def lineAt (function : Function) (place : Place) : Int :=
  function.line + place.line

/-- The line on which a parameter is declared: that of the first word that is its name and has a
colon behind it, or else that of the function. -/
def paramLine (function : Function) (param : Param) : Int :=
  let declaration := Pattern.all [.edge, .text param.name.toList, .spaces, ":"]
  match declaration.search? function.code with
  | some found =>
    function.line + lineFeeds (function.definition.toList.take found.start.offset)
  | none => function.line

end Function

/-- What a check finds. -/
structure Finding where
  /-- What is wrong. -/
  description : String
  /-- The line, from 1. -/
  line : Int
  /-- The variable the finding is about, or the empty text. -/
  variableName : String
  /-- What to do about it. -/
  suggestion : String
deriving DecidableEq, Repr

namespace Finding

/-- The column of a word on a line, or else of the line's first character that is not blank; 1 for
a line outside the source. -/
def columnOf (lines : List (List Char)) (line : Int) (word : String) : Int :=
  if line < 1 then 1
  else
    match lines[line.toNat - 1]? with
    | none => 1
    | some text =>
      let indent := (text.takeWhile isBlank).length
      if word.isEmpty then indent + 1
      else
        match (Pattern.whole word.toList).search? text with
        | some found => found.start.offset + 1
        | none => indent + 1

/-- The finding as a violation of a rule, in a source with the given lines. -/
def toViolation (ruleName : String) (severity : Severity) (lines : List (List Char))
    (finding : Finding) : Violation where
  ruleName
  description := finding.description
  severity
  line := finding.line
  column := columnOf lines finding.line finding.variableName
  variableName := finding.variableName
  suggestion := finding.suggestion

end Finding

/-- A rule that can be run over contracts. -/
structure Rule where
  /-- The id by which the rule is configured and its violations are named. -/
  id : String
  /-- The name for people. -/
  name : String
  /-- What the rule is about. -/
  description : String
  /-- The name of the rule's kind. -/
  label : String
  /-- The severity of the rule's violations. -/
  severity : Severity
  /-- Whether the rule is run. -/
  enabled : Bool
  /-- The violations in a contract, as a list; nothing if the rule fails.  A rule is pure: it leaves
  the contract as it is, and finds the same whenever it is run over the same contract. -/
  apply : Contract → Option (List Violation)

namespace Rule

/-- The violations that a list of findings in a contract makes under a rule. -/
def report (id : String) (severity : Severity) (contract : Contract) (findings : List Finding) :
    List Violation :=
  findings.map (Finding.toViolation id severity (linesOf contract.source))

/-- The state of a rule in one line. -/
def describe (rule : Rule) : String :=
  let enabled := if rule.enabled then "True" else "False"
  s!"{rule.label}(severity={rule.severity.name}, enabled={enabled})"

end Rule
end SorobanLint
