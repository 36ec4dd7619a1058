import Formulary.Proofs.Arithmetic.Divisors
import Formulary.Proofs.Outcome
import Formulary.Value.Operation

/-!
# Failures of operators and functions

Some failures are the formula's, such as a division by zero or a logarithm of a boolean. Others
would be the evaluation's own: a fault that no operation has reported, a builtin function that does
not exist, a call that lacks an argument or a loop variable. The first ones are the proper failures.

Operators and functions on values word some failures themselves, among them overflows and domain
faults, and pass on those of the numbers. Whatever holds of both holds of all their failures
(`Value.Reports`, `Value.PassesOn`). So they fail properly, as quotients by zero do not occur
(`NoZeroDivisor`), and never for a variable that is not bound.
-/

namespace Formulary

/-- The kinds of failure that are calculation errors. -/
def ErrorKind.isCalculation : ErrorKind → Bool
  | calculation | divisionByZero | undefined | unknownVariable | notSupported => true
  | _ => false

/-- The formula and its values account for the failure. -/
def EvalError.isProper {α : Type} : EvalError α → Bool
  | numeric (.fault _) | unknownBuiltin _ | missingArgument _ | noLoopVariable _ => false
  | _ => true

/-- Proper failures are calculation errors. -/
theorem EvalError.isCalculation_kind {α : Type} {e : EvalError α} (h : e.isProper = true) :
    e.kind.isCalculation = true := by
  cases e with
  | numeric e =>
    cases e with
    | fault fault => cases h
    | _ => rfl
  | unknownBuiltin name => cases h
  | missingArgument name => cases h
  | noLoopVariable name => cases h
  | _ => rfl

/-- If there is no result, it is for a proper failure. -/
abbrev Proper {α β : Type} (r : Except (EvalError α) β) : Prop :=
  FailsOnly (fun e => e.isProper = true) r

namespace Value

variable {α β : Type} {P : EvalError α → Prop}

/-! ## The failures of operators and functions -/

/-- `P` holds of the failures that operators and functions word themselves. -/
structure Reports (P : EvalError α → Prop) : Prop where
  tooLarge (op : BinaryOp) (left right : Value α) : P (.tooLarge op left right)
  noResult (op : BinaryOp) (left right : Value α) : P (.noResult op left right)
  functionTooLarge (f : UnaryOp) (argument : Value α) : P (.functionTooLarge f argument)
  functionNoResult (f : UnaryOp) (argument : Value α) : P (.functionNoResult f argument)
  incompatible (operator : String) (left right : Value α) : P (.incompatible operator left right)
  booleanOperand (op : BinaryOp) (left right : Value α) : P (.booleanOperand op left right)
  numberOperand (op : BinaryOp) (left right : Value α) : P (.numberOperand op left right)
  booleanArgument (f : UnaryOp) (argument : Value α) : P (.booleanArgument f argument)
  numberNegated (argument : Value α) : P (.numberNegated argument)

/-- `P` holds of the error of a computation with numbers, unless it is a fault that the operator or
function words anew. -/
def PassesOn (P : EvalError α → Prop) (r : Computed α β) : Prop :=
  FailsOnly (fun e => e ≠ .fault .overflow → e ≠ .fault .domain → P (.numeric e)) r

section Generic

variable (hP : Reports P)

include hP

/-- What an operator reports of numbers. -/
theorem failsOnly_reported {r : Computed α β} (h : PassesOn P r) {op : BinaryOp}
    {left right : Value α} {wrap : β → Value α} :
    FailsOnly P (reported op left right wrap r) := by
  unfold reported
  split
  · exact .ok _
  · exact .error (hP.tooLarge op left right)
  · exact .error (hP.noResult op left right)
  · next e hoverflow hdomain => exact .error (h e rfl hoverflow hdomain)

/-- What a function reports of a number. -/
theorem failsOnly_reportedFunction {r : Computed α β} (h : PassesOn P r) {f : UnaryOp}
    {argument : Value α} {wrap : β → Value α} :
    FailsOnly P (reportedFunction f argument wrap r) := by
  unfold reportedFunction
  split
  · exact .ok _
  · exact .error (hP.functionTooLarge f argument)
  · exact .error (hP.functionNoResult f argument)
  · next e hoverflow hdomain => exact .error (h e rfl hoverflow hdomain)

/-- A function reports what its formulas report, or that it takes no value of this kind. -/
theorem failsOnly_function {onReal : α → Computed α α}
    {onComplex : Cartesian α → Computed α (Cartesian α)} (hreal : ∀ x, PassesOn P (onReal x))
    (hcomplex : ∀ z, PassesOn P (onComplex z)) {f : UnaryOp} {argument : Value α} :
    FailsOnly P (function f onReal onComplex argument) := by
  cases argument with
  | boolean b => exact .error (hP.booleanArgument f _)
  | real x => exact failsOnly_reportedFunction hP (hreal x)
  | complex z => exact failsOnly_reportedFunction hP (hcomplex z)

/-- A logic operator reports that an operand is no truth value. -/
theorem failsOnly_logic (op : BinaryOp) (combine : Bool → Bool → Bool) (left right : Value α) :
    FailsOnly P (logic op combine left right) := by
  unfold logic
  split
  · exact .ok _
  · exact .error (hP.numberOperand op _ _)

variable [Scalar α]

/-- A negation reports that its operand is no truth value. -/
theorem failsOnly_not (argument : Value α) : FailsOnly P (applyUnary .not argument) := by
  cases argument with
  | boolean b => exact .ok _
  | _ => exact .error (hP.numberNegated _)

/-- Operands that have no kind in common are reported. -/
theorem failsOnly_promote (operator : String) (left right : Value α) :
    FailsOnly P (promote operator left right) := by
  unfold promote
  split
  · exact .ok _
  · exact .error (hP.incompatible operator left right)

/-- An operator reports what its formulas report, or that its operands have no kind in common. -/
theorem failsOnly_arithmetic {onReals : α → α → Computed α α}
    {onComplexes : Cartesian α → Cartesian α → Computed α (Cartesian α)}
    (hreals : ∀ x y, PassesOn P (onReals x y)) (hcomplexes : ∀ z w, PassesOn P (onComplexes z w))
    {op : BinaryOp} {left right : Value α} :
    FailsOnly P (arithmetic op onReals onComplexes left right) := by
  unfold arithmetic
  split
  · exact failsOnly_reported hP (hreals _ _)
  · exact failsOnly_reported hP (hcomplexes _ _)
  · exact .error (hP.booleanOperand op left right)

/-- A comparison reports operands that cannot be compared. -/
theorem failsOnly_equality (op : BinaryOp) (left right : Value α) :
    FailsOnly P (equality op left right) := by
  refine .bind (failsOnly_promote hP _ left right) fun operands => ?_
  cases operands <;> exact .ok _

/-- Only what has an order is ordered. -/
theorem failsOnly_ordering (left right : Value α) : FailsOnly P (ordering left right) := by
  refine .bind (failsOnly_promote hP _ left right) fun operands => ?_
  cases operands <;> exact .ok _

/-- Only quotients and powers of numbers fail. -/
theorem failsOnly_applyBinary (hdiv : ∀ x y : α, PassesOn P (RealFunction.div x y))
    (hpow : ∀ x y : α, PassesOn P (RealFunction.pow x y))
    (hdiv' : ∀ z w : Cartesian α, PassesOn P (z.div w))
    (hpow' : ∀ z w : Cartesian α, PassesOn P (z.pow w)) (op : BinaryOp) (left right : Value α) :
    FailsOnly P (applyBinary op left right) := by
  cases op with
  | add => exact failsOnly_arithmetic hP (fun _ _ => .ok _) (fun _ _ => .ok _)
  | sub => exact failsOnly_arithmetic hP (fun _ _ => .ok _) (fun _ _ => .ok _)
  | mul => exact failsOnly_arithmetic hP (fun _ _ => .ok _) (fun _ _ => .ok _)
  | div => exact failsOnly_arithmetic hP hdiv hdiv'
  | pow => exact failsOnly_arithmetic hP hpow hpow'
  | equal => exact .map (failsOnly_equality hP .equal left right) _
  | notEqual => exact .map (failsOnly_equality hP .notEqual left right) _
  | greater => exact .map (failsOnly_ordering hP left right) _
  | less => exact .map (failsOnly_ordering hP left right) _
  | atLeast => exact .map (failsOnly_ordering hP left right) _
  | atMost => exact .map (failsOnly_ordering hP left right) _
  | and => exact failsOnly_logic hP .and _ left right
  | or => exact failsOnly_logic hP .or _ left right
  | xor => exact failsOnly_logic hP .xor _ left right

end Generic

/-! ## Variables that are not bound -/

/-- Operators and functions know of no variables. -/
theorem reports_bound : Reports fun e : EvalError α => e.kind ≠ .unknownVariable where
  tooLarge _ _ _ := nofun
  noResult _ _ _ := nofun
  functionTooLarge _ _ := nofun
  functionNoResult _ _ := nofun
  incompatible _ _ _ := nofun
  booleanOperand _ _ _ := nofun
  numberOperand _ _ _ := nofun
  booleanArgument _ _ := nofun
  numberNegated _ := nofun

/-- And neither do numbers. -/
theorem passesOn_bound (r : Computed α β) :
    PassesOn (fun e => e.kind ≠ .unknownVariable) r := by
  intro e _ _ _
  cases e with
  | fault fault => cases fault <;> nofun
  | _ => nofun

/-! ## Proper failures -/

/-- The errors that operators and functions report themselves are proper failures. -/
theorem reports_proper : Reports fun e : EvalError α => e.isProper = true where
  tooLarge _ _ _ := rfl
  noResult _ _ _ := rfl
  functionTooLarge _ _ := rfl
  functionNoResult _ _ := rfl
  incompatible _ _ _ := rfl
  booleanOperand _ _ _ := rfl
  numberOperand _ _ _ := rfl
  booleanArgument _ _ := rfl
  numberNegated _ := rfl

/-- An error that is no fault accounts for itself. -/
theorem passesOn_proper {r : Computed α β} (h : NoZeroDivisor r) :
    PassesOn (fun e => e.isProper = true) r := by
  rintro e rfl hoverflow hdomain
  cases e with
  | fault fault =>
    cases fault with
    | overflow => exact absurd rfl hoverflow
    | domain => exact absurd rfl hdomain
    | zeroDivisor => exact absurd rfl h
  | _ => rfl

/-- A function whose formulas do not divide by zero unnoticed fails properly. -/
theorem proper_function {onReal : α → Computed α α}
    {onComplex : Cartesian α → Computed α (Cartesian α)}
    (hreal : ∀ x, NoZeroDivisor (onReal x)) (hcomplex : ∀ z, NoZeroDivisor (onComplex z))
    {f : UnaryOp} {argument : Value α} : Proper (function f onReal onComplex argument) :=
  failsOnly_function reports_proper (fun x => passesOn_proper (hreal x))
    (fun z => passesOn_proper (hcomplex z))

variable [Scalar α]

/-- No operator looks up a variable. -/
theorem applyBinary_bound (op : BinaryOp) (left right : Value α) :
    FailsOnly (fun e => e.kind ≠ .unknownVariable) (applyBinary op left right) :=
  failsOnly_applyBinary reports_bound (fun _ _ => passesOn_bound _) (fun _ _ => passesOn_bound _)
    (fun _ _ => passesOn_bound _) (fun _ _ => passesOn_bound _) op left right

/-- No function looks up a variable. -/
theorem applyUnary_bound (f : UnaryOp) (argument : Value α) :
    FailsOnly (fun e => e.kind ≠ .unknownVariable) (applyUnary f argument) := by
  cases f with
  | not => exact failsOnly_not reports_bound argument
  | _ =>
    exact failsOnly_function reports_bound (fun _ => passesOn_bound _) (fun _ => passesOn_bound _)

variable [LawfulDivision α]

/-- Operators fail properly, whatever their operands. -/
theorem proper_applyBinary (op : BinaryOp) (left right : Value α) :
    Proper (applyBinary op left right) :=
  failsOnly_applyBinary reports_proper
    (fun x y => passesOn_proper (RealFunction.noZeroDivisor_div x y))
    (fun x y => passesOn_proper (RealFunction.noZeroDivisor_pow x y))
    (fun z w => passesOn_proper (Cartesian.noZeroDivisor_div z w))
    (fun z w => passesOn_proper (Cartesian.noZeroDivisor_pow z w)) op left right

/-- The functions of one argument fail properly, whatever it is. -/
theorem proper_applyUnary (f : UnaryOp) (argument : Value α) :
    Proper (applyUnary f argument) := by
  cases f with
  | not => exact failsOnly_not reports_proper argument
  | arcsinh => exact proper_function (.call .asinh) Cartesian.noZeroDivisor_arcsinh
  | arccosh =>
    exact proper_function RealFunction.noZeroDivisor_arccosh Cartesian.noZeroDivisor_arccosh
  | arctanh =>
    exact proper_function RealFunction.noZeroDivisor_arctanh Cartesian.noZeroDivisor_arctanh
  | arccoth =>
    exact proper_function RealFunction.noZeroDivisor_arccoth Cartesian.noZeroDivisor_arccoth
  | arcsech =>
    exact proper_function RealFunction.noZeroDivisor_arcsech Cartesian.noZeroDivisor_arcsech
  | arccsch =>
    exact proper_function RealFunction.noZeroDivisor_arccsch Cartesian.noZeroDivisor_arccsch
  | arcsin => exact proper_function RealFunction.noZeroDivisor_arcsin Cartesian.noZeroDivisor_arcsin
  | arccos => exact proper_function RealFunction.noZeroDivisor_arccos Cartesian.noZeroDivisor_arccos
  | arctan => exact proper_function (.call .atan) Cartesian.noZeroDivisor_arctan
  | arccot => exact proper_function RealFunction.noZeroDivisor_arccot Cartesian.noZeroDivisor_arccot
  | arcsec => exact proper_function RealFunction.noZeroDivisor_arcsec Cartesian.noZeroDivisor_arcsec
  | arccsc => exact proper_function RealFunction.noZeroDivisor_arccsc Cartesian.noZeroDivisor_arccsc
  | log10 => exact proper_function RealFunction.noZeroDivisor_log10 Cartesian.noZeroDivisor_log10
  | log => exact proper_function RealFunction.noZeroDivisor_log10 Cartesian.noZeroDivisor_log10
  | sinh => exact proper_function RealFunction.noZeroDivisor_sinh Cartesian.noZeroDivisor_sinh
  | cosh => exact proper_function RealFunction.noZeroDivisor_cosh Cartesian.noZeroDivisor_cosh
  | tanh => exact proper_function (.call .tanh) Cartesian.noZeroDivisor_tanh
  | coth => exact proper_function RealFunction.noZeroDivisor_coth Cartesian.noZeroDivisor_coth
  | sech => exact proper_function RealFunction.noZeroDivisor_sech Cartesian.noZeroDivisor_sech
  | csch => exact proper_function RealFunction.noZeroDivisor_csch Cartesian.noZeroDivisor_csch
  | sqrt => exact proper_function RealFunction.noZeroDivisor_sqrt Cartesian.noZeroDivisor_sqrt
  | sin => exact proper_function (.call .sin) Cartesian.noZeroDivisor_sin
  | cos => exact proper_function (.call .cos) Cartesian.noZeroDivisor_cos
  | tan => exact proper_function (.call .tan) Cartesian.noZeroDivisor_tan
  | cot => exact proper_function RealFunction.noZeroDivisor_cot Cartesian.noZeroDivisor_cot
  | sec => exact proper_function RealFunction.noZeroDivisor_sec Cartesian.noZeroDivisor_sec
  | csc => exact proper_function RealFunction.noZeroDivisor_csc Cartesian.noZeroDivisor_csc
  | abs => exact proper_function (fun _ => .ok _) (fun _ => .ok _)
  | sgn => exact proper_function (fun _ => .ok _) (fun _ => .ok _)
  | exp => exact proper_function RealFunction.noZeroDivisor_exp Cartesian.noZeroDivisor_exp
  | neg => exact proper_function (fun _ => .ok _) (fun _ => .ok _)
  | int => exact proper_function (fun _ => .ok _) (fun _ => .ok _)
  | ln => exact proper_function RealFunction.noZeroDivisor_ln Cartesian.noZeroDivisor_ln

end Value

end Formulary
