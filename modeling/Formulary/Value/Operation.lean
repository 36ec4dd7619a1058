import Formulary.Arithmetic.RealFunction
import Formulary.Evaluation.Error

/-!
# Operators and functions applied to values

Every operator first widens its operands to a common kind and then applies one operation of that
kind. Booleans take part in comparisons and logic only. A fault of an elementary function is
reported here, where the operands are known: an overflow as a result that is too large, a domain
fault as a result that is undefined.
-/

namespace Formulary.Value

variable {α : Type} [Scalar α]

/-- The outcome of applying an operator or a function. -/
abbrev Applied (α : Type) := Except (EvalError α) (Value α)

/-- The result of an operator on numbers, its faults reported with the operands. -/
def reported (op : BinaryOp) (left right : Value α) {β : Type} (wrap : β → Value α) :
    Computed α β → Applied α
  | .ok x => .ok (wrap x)
  | .error (.fault .overflow) => .error (.tooLarge op left right)
  | .error (.fault .domain) => .error (.noResult op left right)
  | .error e => .error (.numeric e)

/-- The result of a function on numbers, its faults reported with the argument. -/
def reportedFunction (f : UnaryOp) (argument : Value α) {β : Type} (wrap : β → Value α) :
    Computed α β → Applied α
  | .ok x => .ok (wrap x)
  | .error (.fault .overflow) => .error (.functionTooLarge f argument)
  | .error (.fault .domain) => .error (.functionNoResult f argument)
  | .error e => .error (.numeric e)

/-- Two values widened to their common kind; `operator` names the operator in a report. -/
def promote (operator : String) (left right : Value α) : Except (EvalError α) (Operands α) :=
  match promote? left right with
  | some operands => .ok operands
  | none => .error (.incompatible operator left right)

/-- An arithmetic operator, given by its operations on real and on complex numbers. -/
def arithmetic (op : BinaryOp) (onReals : α → α → Computed α α)
    (onComplexes : Cartesian α → Cartesian α → Computed α (Cartesian α))
    (left right : Value α) : Applied α :=
  match promote? left right with
  | some (.reals a b) => reported op left right real (onReals a b)
  | some (.complexes a b) => reported op left right complex (onComplexes a b)
  | _ => .error (.booleanOperand op left right)

/-- Equality; two values of no common kind cannot be compared. -/
def equality (op : BinaryOp) (left right : Value α) : Except (EvalError α) Bool := do
  match ← promote op.symbol left right with
  | .booleans a b => return a == b
  | .reals a b => return Scalar.eq a b
  | .complexes a b => return a.equals b

/-- The order of two values: false comes before true, and complex numbers are ordered by
magnitude. -/
def ordering (left right : Value α) : Except (EvalError α) Ordering := do
  match ← promote "comparison" left right with
  | .booleans a b => return if a == b then .eq else if b then .lt else .gt
  | .reals a b => return RealFunction.compare a b
  | .complexes a b => return a.compare b

/-- A logical operator. -/
def logic (op : BinaryOp) (combine : Bool → Bool → Bool) (left right : Value α) : Applied α :=
  match left, right with
  | boolean a, boolean b => .ok (boolean (combine a b))
  | _, _ => .error (.numberOperand op left right)

/-- A binary operator applied to its operands. -/
def applyBinary (op : BinaryOp) (left right : Value α) : Applied α :=
  match op with
  | .add => arithmetic .add (fun a b => .ok (a + b)) (fun a b => .ok (a.add b)) left right
  | .sub => arithmetic .sub (fun a b => .ok (a - b)) (fun a b => .ok (a.sub b)) left right
  | .mul => arithmetic .mul (fun a b => .ok (a * b)) (fun a b => .ok (a.mul b)) left right
  | .div => arithmetic .div RealFunction.div Cartesian.div left right
  | .pow => arithmetic .pow RealFunction.pow Cartesian.pow left right
  | .equal => (equality .equal left right).map boolean
  | .notEqual => (equality .notEqual left right).map (boolean ∘ not)
  | .greater => (ordering left right).map fun o => boolean (o == .gt)
  | .less => (ordering left right).map fun o => boolean (o == .lt)
  | .atLeast => (ordering left right).map fun o => boolean (o != .lt)
  | .atMost => (ordering left right).map fun o => boolean (o != .gt)
  | .and => logic .and (· && ·) left right
  | .or => logic .or (· || ·) left right
  | .xor => logic .xor (· != ·) left right

/-- A numeric function, given by its operations on real and on complex numbers. -/
def function (f : UnaryOp) (onReal : α → Computed α α)
    (onComplex : Cartesian α → Computed α (Cartesian α)) (argument : Value α) : Applied α :=
  match argument with
  | boolean _ => .error (.booleanArgument f argument)
  | real x => reportedFunction f argument real (onReal x)
  | complex z => reportedFunction f argument complex (onComplex z)

/-- A unary function or prefix operator applied to its operand. -/
def applyUnary (f : UnaryOp) (argument : Value α) : Applied α :=
  match f with
  | .not =>
    match argument with
    | boolean b => .ok (boolean (!b))
    | _ => .error (.numberNegated argument)
  | .arcsinh => function .arcsinh (lift ∘ Scalar.asinh) Cartesian.arcsinh argument
  | .arccosh => function .arccosh RealFunction.arccosh Cartesian.arccosh argument
  | .arctanh => function .arctanh RealFunction.arctanh Cartesian.arctanh argument
  | .arccoth => function .arccoth RealFunction.arccoth Cartesian.arccoth argument
  | .arcsech => function .arcsech RealFunction.arcsech Cartesian.arcsech argument
  | .arccsch => function .arccsch RealFunction.arccsch Cartesian.arccsch argument
  | .arcsin => function .arcsin RealFunction.arcsin Cartesian.arcsin argument
  | .arccos => function .arccos RealFunction.arccos Cartesian.arccos argument
  | .arctan => function .arctan (lift ∘ Scalar.atan) Cartesian.arctan argument
  | .arccot => function .arccot RealFunction.arccot Cartesian.arccot argument
  | .arcsec => function .arcsec RealFunction.arcsec Cartesian.arcsec argument
  | .arccsc => function .arccsc RealFunction.arccsc Cartesian.arccsc argument
  | .log10 => function .log10 RealFunction.log10 Cartesian.log10 argument
  | .log => function .log RealFunction.log10 Cartesian.log10 argument
  | .sinh => function .sinh RealFunction.sinh Cartesian.sinh argument
  | .cosh => function .cosh RealFunction.cosh Cartesian.cosh argument
  | .tanh => function .tanh (lift ∘ Scalar.tanh) Cartesian.tanh argument
  | .coth => function .coth RealFunction.coth Cartesian.coth argument
  | .sech => function .sech RealFunction.sech Cartesian.sech argument
  | .csch => function .csch RealFunction.csch Cartesian.csch argument
  | .sqrt => function .sqrt RealFunction.sqrt Cartesian.sqrt argument
  | .sin => function .sin (lift ∘ Scalar.sin) Cartesian.sin argument
  | .cos => function .cos (lift ∘ Scalar.cos) Cartesian.cos argument
  | .tan => function .tan (lift ∘ Scalar.tan) Cartesian.tan argument
  | .cot => function .cot RealFunction.cot Cartesian.cot argument
  | .sec => function .sec RealFunction.sec Cartesian.sec argument
  | .csc => function .csc RealFunction.csc Cartesian.csc argument
  | .abs => function .abs (.ok ∘ Scalar.abs) (.ok ∘ Cartesian.abs) argument
  | .sgn => function .sgn (.ok ∘ RealFunction.sgn) (.ok ∘ Cartesian.sgn) argument
  | .exp => function .exp RealFunction.exp Cartesian.exp argument
  | .neg => function .neg (.ok ∘ (- ·)) (.ok ∘ Cartesian.neg) argument
  | .int => function .int (.ok ∘ Scalar.truncate) (.ok ∘ Cartesian.int) argument
  | .ln => function .ln RealFunction.ln Cartesian.ln argument

end Formulary.Value
