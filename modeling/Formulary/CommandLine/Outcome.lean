import Formulary.CommandLine.Arguments
import Formulary.Engine

/-!
# Running a command line

A command line is run on an engine of its own: first the definitions are made, then the variables
are bound, and then the formula is read and derived, integrated, folded, rendered or evaluated as
the arguments ask. `run` gives all that can be seen of it: the exit code and the two outputs.

The first failure ends a run. Its message goes to the error output, after the lines that `verbose`
has logged until then. Failures that are no fault of the formula's author are not worded for them:
such a failure is the outcome itself.
-/

namespace Formulary

/-- Is the failure one that the author of a formula can be told about? -/
def Failure.isReportable (f : Failure) : Bool :=
  match f.kind with
  | .integerTooLarge | .unknownOperator | .tooManyDigits | .exhausted | .zeroDivisor
  | .missingArgument | .noLoopVariable | .noValue => false
  | _ => true

namespace CommandLine

/-- How a command line ends. -/
inductive Outcome where
  /-- The arguments are no command line. -/
  | rejected
  /-- It ends with a failure that is not reported. -/
  | failed (failure : Failure)
  /-- It ends with an exit code, having written to the output and to the error output. -/
  | exited (code : Nat) (output errors : String)

/-- An engine, and the lines that have been logged. -/
structure Console where
  engine : Engine
  verbose : Bool
  log : List String := []

/-- A part of a run. -/
abbrev ConsoleM (β : Type) := ExceptT Failure (StateM Console) β

/-- A line for the log of one part of the program. -/
def logLine (part line : String) : ConsoleM Unit :=
  modify fun console =>
    if console.verbose then { console with log := console.log ++ [part ++ ": " ++ line] } else console

/-- An operation on the engine. -/
def onEngine {β : Type} (x : EngineM β) : ConsoleM β :=
  ExceptT.mk fun console =>
    let (r, engine) := (x.run).run console.engine
    (r, { console with engine })

/-- The value of an option that has to have one. -/
def valueOf (value : Option String) : ConsoleM String :=
  match value with
  | some text => return text
  | none => throw .noValue

/-- A function defined. -/
def define (value : Option String) : ConsoleM Unit := do
  let d ← onEngine (Engine.define (← valueOf value))
  logLine "FormulaFunctionRegistry" ("Registered function " ++ d.describe ",")

/-- The variables bound, the last binding of a name being the one that counts. -/
def bind (values : List (Option String)) : ConsoleM (Bindings Float) := do
  let format := (← get).engine.language.format
  let pairs ← values.mapM fun value => do
    let text ← valueOf value
    ExceptT.mk (pure ((readBinding format text).mapError .binding))
  return .ofList pairs

section

variable [Scalar Float]

/-- The tree derived or integrated, if the arguments ask for that. -/
def transform (a : Arguments) (tree : Expr Float) : ConsoleM (Expr Float) := do
  if !a.derive.isEmpty then
    logLine "FormulaDifferentiator" ("Deriving by " ++ a.derive)
    onEngine (Engine.derive tree a.derive)
  else if !a.integrate.isEmpty then
    logLine "FormulaDifferentiator" ("Integrating by " ++ a.integrate)
    onEngine (Engine.integrate tree a.integrate)
  else return tree

/-- The tree optimized. -/
def optimize (tree : Expr Float) : ConsoleM (Expr Float) := do
  let console ← get
  let (optimized, engine) := (Engine.optimize tree).run console.engine
  set { console with engine }
  match optimized.failure with
  | some e => throw e
  | none =>
    logLine "FormulaConstantFolder" ("Folded " ++ toString optimized.count ++ " subtrees")
    logLine "FormulaOptimizer" "Ran FormulaConstantFolder"
    return optimized.tree

/-- What the arguments ask for, as a line of text. -/
def answer (a : Arguments) : ConsoleM String := do
  a.definitions.forM define
  let bindings ← bind a.bindings
  let tree ← onEngine (Engine.parse a.formula)
  let tree ← transform a tree
  let tree ← if a.optimize then optimize tree else pure tree
  if a.render || !a.derive.isEmpty || !a.integrate.isEmpty then onEngine (Engine.render tree)
  else onEngine do Engine.describe (← Engine.evaluate tree bindings)

end

/-- Lines as text. -/
def unlines (lines : List String) : String := String.join (lines.map (· ++ "\n"))

/-- The number format with a decimal separator, or the message that refuses it. -/
def numberFormat (decimalSeparator : Option String) : Except String NumberFormat :=
  match decimalSeparator with
  | none => .error "Invalid decimal separator: []"
  | some decimal =>
    let grouping := if decimal = "," then "." else ","
    (NumberFormat.make { decimal, grouping }).mapError SettingsError.message

/-- The outcome for arguments. -/
def Arguments.run [Scalar Float] (a : Arguments) (evaluator : Evaluator Float) : Outcome :=
  if !a.derive.isEmpty && !a.integrate.isEmpty then
    .exited 1 "" (unlines ["Error: Cannot use both --derive and --integrate"])
  else
    match numberFormat a.decimalSeparator with
    | .error message => .exited 1 "" (unlines ["Error: " ++ message])
    | .ok format =>
      let language : Language := { format, maxPending := evaluator.maxPending }
      let console : Console := { engine := { language, evaluator }, verbose := a.verbose }
      match ((answer a).run).run console with
      | (.ok line, console) => .exited 0 (unlines [line]) (unlines console.log)
      | (.error e, console) =>
        if e.isReportable then .exited 1 "" (unlines (console.log ++ [e.message])) else .failed e

/-- The outcome of a command line. -/
def run [Scalar Float] (arguments : List String) (evaluator : Evaluator Float)
    (separator : AttachedSeparator := .dropped) : Outcome :=
  match Arguments.read? separator arguments with
  | some a => a.run evaluator
  | none => .rejected

end CommandLine

end Formulary
