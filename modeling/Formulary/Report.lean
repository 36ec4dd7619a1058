/-!
# Reports of failures

Whatever goes wrong is reported in one form: a line that says what happened and, below it, one line
for each detail that is known. Which failure it is, apart from its wording, is its `ErrorKind`.
-/

namespace Formulary

/-- The kinds of failure that a caller can tell apart. -/
inductive ErrorKind where
  /-- A failure of no particular kind. -/
  | general
  /-- A text is no formula, definition or number. -/
  | parse
  /-- An evaluation fails. -/
  | calculation
  | divisionByZero
  /-- An operation is applied outside its domain. -/
  | undefined
  | unknownVariable
  /-- An operation is not defined for the kinds of its operands. -/
  | notSupported
  /-- There is no rule for a derivative or an antiderivative. -/
  | derivative
  /-- An argument of a request is out of range or malformed. -/
  | invalidArgument
  /-- An integer is beyond the largest number. -/
  | integerTooLarge
  /-- No operator has the given symbol. -/
  | unknownOperator
  /-- A number has too many digits to be displayed. -/
  | tooManyDigits
  /-- The work in progress is nested too deeply to go on. -/
  | exhausted
  /-- A division by zero that no check has caught. -/
  | zeroDivisor
  /-- A call of a builtin function lacks an argument, or an atom lacks its text. -/
  | missingArgument
  /-- A call of a series has no loop variable. -/
  | noLoopVariable
  /-- An option of a command line is there without its value. -/
  | noValue
deriving DecidableEq, Repr

/-- What is known about a failure. Details that are empty are not known. -/
structure Report where
  message : String
  context : String := ""
  expected : String := ""
  received : String := ""
  suggestion : String := ""
  example_ : String := ""
  /-- Where in the formula, counted without blanks. -/
  position : Option Int := none
deriving DecidableEq, Repr

namespace Report

/-- A detail's line, if the detail is known. -/
private def detail (label value : String) : List String :=
  if value.isEmpty then [] else [label ++ ": " ++ value]

/-- The lines of a report. -/
def lines (r : Report) : List String :=
  ("Error: " ++ r.message) ::
    ((r.position.map fun p => "Position: " ++ toString p).toList ++
      detail "Received" r.received ++ detail "Expected" r.expected ++
      detail "Context" r.context ++ detail "Suggestion" r.suggestion ++
      detail "Example" r.example_)

/-- A report as text. -/
def text (r : Report) : String := "\n".intercalate r.lines

end Report

end Formulary
