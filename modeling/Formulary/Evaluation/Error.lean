import Formulary.Builtin
import Formulary.Report
import Formulary.Text.Similar
import Formulary.Value.Display

/-!
# Errors of an evaluation

`EvalError` lists everything that can go wrong while a formula is evaluated, with the values that a
report shows; `kind` classifies it and `report` words it.
-/

namespace Formulary

/-- Why an evaluation has no value. -/
inductive EvalError (α : Type) where
  /-- An operation on numbers has no result, for a reason of its own. -/
  | numeric (error : ArithmeticError α)
  /-- The result of an operator is too large to represent. -/
  | tooLarge (op : BinaryOp) (left right : Value α)
  /-- An operator has no result for its operands. -/
  | noResult (op : BinaryOp) (left right : Value α)
  /-- The result of a function is too large to represent. -/
  | functionTooLarge (f : UnaryOp) (argument : Value α)
  /-- A function has no result for its argument. -/
  | functionNoResult (f : UnaryOp) (argument : Value α)
  /-- Two operands have no common kind. -/
  | incompatible (operator : String) (left right : Value α)
  /-- An arithmetic operator has a boolean operand. -/
  | booleanOperand (op : BinaryOp) (left right : Value α)
  /-- A logical operator has an operand that is no boolean. -/
  | numberOperand (op : BinaryOp) (left right : Value α)
  /-- A numeric function is applied to a boolean. -/
  | booleanArgument (f : UnaryOp) (argument : Value α)
  /-- Logical not is applied to a number. -/
  | numberNegated (argument : Value α)
  /-- A condition is no boolean. -/
  | condition (value : Value α)
  /-- A bound of a series is not real. -/
  | boundKind (series : Builtin) (bound start stop : Value α)
  /-- A bound of a series is infinite or a NaN. -/
  | boundInfinite (series : Builtin) (start stop : Value α)
  /-- A series has too many terms. -/
  | tooManyTerms (series : Builtin) (start stop : Value α) (limit : Int)
  /-- A call names no builtin function. -/
  | unknownBuiltin (name : String)
  /-- A variable is not bound; `available` are the names that the outermost scope binds. -/
  | unknownVariable (name : String) (available : List String)
  /-- The tree is nested too deeply. -/
  | tooDeep
  /-- A call of a builtin function lacks an argument. -/
  | missingArgument (name : String)
  /-- The first argument of a series is no variable. -/
  | noLoopVariable (name : String)

namespace ArithmeticError

/-- What a real function requires of its argument. -/
def realExpectation : UnaryOp → String
  | .sqrt => "A non-negative argument"
  | .ln | .log10 | .log => "A positive argument"
  | .cot | .csc => "An argument that is not a multiple of pi"
  | .sec => "An argument whose cosine is not zero"
  | .arcsin | .arccos => "An argument in [-1, 1]"
  | .arcsec | .arccsc => "An argument with absolute value of at least 1"
  | .arccosh => "An argument of at least 1"
  | .arctanh => "An argument in (-1, 1)"
  | .arccoth => "An argument with absolute value greater than 1"
  | .arcsech => "An argument in (0, 1]"
  | _ => "A non-zero argument"

/-- What a complex function requires of its argument. -/
def complexExpectation : UnaryOp → String
  | .ln => "A non-zero argument"
  | _ => "An argument away from the function's poles"

def kind {α : Type} : ArithmeticError α → ErrorKind
  | fault .zeroDivisor => .zeroDivisor
  | fault _ | realPower .. | realDomain .. | complexDomain .. => .undefined
  | realDivision .. | realZeroPower .. | complexDivision .. | complexZeroPower .. =>
    .divisionByZero

def report : ArithmeticError Float → Report
  | fault _ => { message := "" }
  | realDivision dividend => {
      message := "Division by zero"
      received := "Dividend: " ++ (Value.real dividend).describe ++ ", divisor: 0"
      suggestion := "Check the divisor, e.g. with if(y!=0,x/y,0)" }
  | realZeroPower exponent => {
      message := "Zero cannot be raised to a negative power"
      received := "Exponent: " ++ (Value.real exponent).describe }
  | realPower base exponent => {
      message := (Value.real base).describe ++ "^" ++ (Value.real exponent).describe ++
        " is undefined for real numbers"
      received := "Base: " ++ Binary64.spelled base ++ ", exponent: " ++ Binary64.spelled exponent
      expected := "A non-negative base or an integer exponent"
      suggestion := "Use a complex base, e.g. (-8+0i)^(1/3)" }
  | realDomain f x => {
      message := f.name ++ " is undefined for " ++ (Value.real x).describe
      received := "Argument: " ++ Binary64.spelled x
      expected := realExpectation f
      suggestion := "Use a complex argument, e.g. " ++ f.name ++ "(" ++ (Value.real x).describe ++
        "+0i), if a complex result is wanted" }
  | complexDivision dividend divisor => {
      message := "Division by a complex number of zero magnitude"
      received := "Dividend: " ++ (Value.complex dividend).describe ++ ", divisor: " ++
        (Value.complex divisor).describe }
  | complexZeroPower exponent => {
      message := "Zero cannot be raised to a power with non-positive real part"
      received := "Exponent: " ++ (Value.complex exponent).describe }
  | complexDomain f z => {
      message := f.name ++ " is undefined for " ++ (Value.complex z).describe
      received := "Argument: " ++ Binary64.spelledComplex z.re z.im
      expected := complexExpectation f }

end ArithmeticError

namespace EvalError

def kind {α : Type} : EvalError α → ErrorKind
  | numeric e => e.kind
  | tooLarge .. | noResult .. | functionTooLarge .. | functionNoResult .. | boundInfinite .. =>
    .undefined
  | incompatible .. | booleanOperand .. | numberOperand .. | booleanArgument ..
  | numberNegated .. | condition .. | boundKind .. => .notSupported
  | unknownVariable .. => .unknownVariable
  | tooManyTerms .. | unknownBuiltin .. | tooDeep => .calculation
  | missingArgument .. => .missingArgument
  | noLoopVariable .. => .noLoopVariable

/-- Does a call of a builtin function not have that function's shape? No formula that can be read
holds such a call. -/
def isMalformed {α : Type} : EvalError α → Bool
  | missingArgument .. | noLoopVariable .. => true
  | _ => false

/-- Two operands as a report lists them. -/
private def operands (left right : Value Float) : String :=
  "Operands: " ++ left.describe ++ ", " ++ right.describe

/-- The bounds of a series as a report lists them. -/
private def bounds (start stop : Value Float) : String :=
  "Bounds: " ++ start.describe ++ ", " ++ stop.describe

/-- A call of a series, to show how one is written. -/
private def seriesExample (series : Builtin) : String := series.name ++ "(k,1,10,k)"

def report : EvalError Float → Report
  | numeric e => e.report
  | tooLarge op left right => {
      message := "Result of '" ++ op.symbol ++ "' is too large to represent"
      received := operands left right }
  | noResult op left right => {
      message := "Result of '" ++ op.symbol ++ "' is undefined for these operands"
      received := operands left right
      expected := "Finite operands" }
  | functionTooLarge f x => {
      message := "Result of " ++ f.name ++ "(" ++ x.describe ++ ") is too large to represent"
      received := "Argument: " ++ x.describe }
  | functionNoResult f x => {
      message := f.name ++ "(" ++ x.describe ++ ") is undefined"
      received := "Argument: " ++ x.describe
      expected := "A finite argument" }
  | incompatible operator left right => {
      message := "Operator '" ++ operator ++ "' cannot combine " ++ left.typeName ++ " and " ++
        right.typeName
      received := operands left right
      expected := "Two booleans, or two numbers (real or complex)"
      suggestion :=
        "Booleans are never converted to numbers; use if(cond,1,0) to get a number" }
  | booleanOperand op left right => {
      message := "Operator '" ++ op.symbol ++ "' is not supported for booleans"
      received := operands left right
      expected := "Real or complex operands"
      suggestion := "Use &&, || or ## to combine booleans" }
  | numberOperand op left right => {
      message := "Operator '" ++ op.symbol ++ "' requires booleans, got " ++ left.typeName ++
        " and " ++ right.typeName
      received := operands left right
      expected := "Two booleans"
      example_ := "(x>1)&&(x<5)" }
  | booleanArgument f x => {
      message := "Function '" ++ f.name ++ "' is not supported for booleans"
      received := "Argument: " ++ x.describe
      expected := "A real or complex number" }
  | numberNegated x => {
      message := "Operator '!' requires a boolean, got " ++ x.typeName
      received := "Operand: " ++ x.describe
      expected := "A boolean, e.g. !(x>2)" }
  | condition v => {
      message := "Condition of 'if' must be a boolean, got " ++ v.typeName
      received := "Condition: " ++ v.describe
      expected := "A comparison or logic expression"
      example_ := "if(x>2,1,0)" }
  | boundKind series bound start stop => {
      message := "Range bounds of '" ++ series.name ++ "' must be real, got " ++ bound.typeName
      received := bounds start stop
      example_ := seriesExample series }
  | boundInfinite series start stop => {
      message := "Range bounds of '" ++ series.name ++ "' must be finite"
      received := bounds start stop
      example_ := seriesExample series }
  | tooManyTerms series start stop limit => {
      message := "Range of '" ++ series.name ++ "' is too large"
      received := bounds start stop
      expected := "At most " ++ toString limit ++ " terms" }
  | unknownBuiltin name => { message := "Unknown builtin function: '" ++ name ++ "'" }
  | unknownVariable name available =>
    let similar := Text.similarNames name available 3
    { message := "Unknown variable: '" ++ name ++ "'"
      received := "Variable: " ++ name
      context :=
        if available.isEmpty then "No variables are bound"
        else "Available variables: " ++ ", ".intercalate available
      suggestion :=
        if similar.isEmpty then "Bind the variable before evaluating"
        else "Did you mean " ++ ", ".intercalate similar ++ "?" }
  | tooDeep => {
      message := "Formula too deeply nested to evaluate"
      suggestion := "Split the formula into smaller user-defined functions" }
  | missingArgument name => { message := "Call of '" ++ name ++ "' lacks an argument" }
  | noLoopVariable name => { message := "Call of '" ++ name ++ "' has no loop variable" }

end EvalError

end Formulary
