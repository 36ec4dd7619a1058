import Formulary.Evaluation.Basic

/-!
# Derivatives and antiderivatives

There are rules for a few sorts of tree only. Derivatives are known of constants, variables,
differences, quotients, powers whose exponent has no free variables, tangents and sums;
antiderivatives of constants, variables, differences and sums. Any other tree has none, rather than
a guess.

An inner derivative that is one is left out of a product. Whether it is one is decided by evaluating
it, if it has no free variables.

## Pending calls

`depth` is the number of calls that are pending when a tree is derived or integrated. A rule takes
one more to find out what sort of tree it is, and most rules one for the sort. On top of these, a
rule copies the parts that a derivative has more than once, goes through a part for its variables,
or evaluates it. Only in the last case it is reported as an error of the formula that there is no
more room (`DerivativeError.inner`).
-/

namespace Formulary

/-- Which of the two transformations is meant. -/
inductive Calculus where
  | derivative
  | antiderivative
deriving DecidableEq, Repr

/-- Why a tree has no derivative or antiderivative here. -/
inductive DerivativeError (α : Type) where
  /-- The exponent of a power has free variables. -/
  | exponent (names : List String)
  /-- An inner derivative cannot be evaluated. -/
  | inner (error : EvalError α)
  /-- A sum is transformed by its own loop variable. -/
  | loopVariable (what : Calculus) (name : String)
  /-- The range of a sum depends on the variable. -/
  | range (what : Calculus) (variable_ : String) (names : List String)
  /-- There is no rule for a tree of this sort. -/
  | noRule (what : Calculus) (sort variable_ : String)
  /-- A call of a builtin function does not have that function's shape. -/
  | malformed (error : EvalError α)
  /-- There is no room for more pending calls. -/
  | exhausted

namespace DerivativeError

/-- The name of a transformation inside a sentence. -/
private def phrase : Calculus → String
  | .derivative => "derivative"
  | .antiderivative => "antiderivative"

/-- The name of a transformation at the start of a sentence. -/
private def title : Calculus → String
  | .derivative => "Derivative"
  | .antiderivative => "Antiderivative"

private def supported : Calculus → String
  | .derivative =>
    "Supported: constants, variables, '-', '/', '^' with a constant exponent, tan and sum"
  | .antiderivative => "Supported: constants, variables, '-' and sum"

def kind {α : Type} : DerivativeError α → ErrorKind
  | malformed e => e.kind
  | exhausted => .exhausted
  | _ => .derivative

def report : DerivativeError Float → Report
  | exponent names => {
      message := "Derivative of a power is only implemented for exponents without variables"
      received := "Exponent contains: " ++ ", ".intercalate names
      suggestion := "Rewrite the power with a constant exponent" }
  | inner e => {
      message := "Error simplifying inner derivative"
      received := "Error: " ++ e.report.message }
  | loopVariable what name => {
      message := "Cannot build the " ++ phrase what ++ " of sum by its own loop variable '" ++
        name ++ "'"
      received := "Loop variable: " ++ name
      suggestion := "Rename the loop variable of sum" }
  | range what variable_ names => {
      message := "Cannot build the " ++ phrase what ++ " of sum when its range depends on '" ++
        variable_ ++ "'"
      received := "Range uses: " ++ ", ".intercalate names }
  | noRule what sort variable_ => {
      message := title what ++ " of " ++ sort ++ " is not implemented"
      context := "Variable: " ++ variable_
      suggestion := supported what }
  | malformed e => e.report
  | exhausted => { message := "" }

end DerivativeError

namespace Expr

variable {α : Type}

/-- A transformation that may fail, and may take random draws where it evaluates. -/
abbrev Transform (α β : Type) := ExceptT (DerivativeError α) (StateM Nat) β

/-- What a report calls a tree for which there is no rule. -/
def ruleName : Expr α → String
  | const .. => "FormulaConstant"
  | var _ => "FormulaVariable"
  | binary op _ _ => "operator '" ++ op.symbol ++ "'"
  | unary f _ => "function '" ++ f.name ++ "'"
  | builtin f _ => "function '" ++ f.name ++ "'"
  | apply d _ => "function '" ++ d.name ++ "'"

/-- A step that makes so many calls pending, if there is room for them. -/
def within {m : Type → Type} [MonadExcept (DerivativeError α) m] {β : Type} (limit : CallLimit)
    (calls : Nat) (x : m β) : m β :=
  if limit.isExceeded calls then throw .exhausted else x

mutual

/-- How many more calls are pending at most while a tree is copied. The arguments of a function are
copied as a list. -/
def copyCalls : Expr α → Nat
  | const .. | var _ => 1
  | binary _ l r => max l.copyCalls r.copyCalls + 1
  | unary _ x => x.copyCalls + 1
  | builtin _ args | apply _ args => copyCallsOfAll args + 2

/-- The most calls that any of several trees takes. -/
def copyCallsOfAll : List (Expr α) → Nat
  | [] => 0
  | e :: es => max e.copyCalls (copyCallsOfAll es)

end

variable [Scalar α]

/-- A real constant. -/
def number (n : Nat) : Expr α := const (.real (Scalar.ofNat n))

/-- Does a tree without free variables have the value one? -/
def isOne (ev : Evaluator α) (depth : Nat) (e : Expr α) : Transform α Bool :=
  within ev.maxPending (depth + 1 + e.height) <|
    if e.isClosed then
      ExceptT.mk do
        match ← (ev.evalAt .empty (depth + 2) e).run with
        | .ok (.real x) => return .ok (Scalar.eq x Scalar.one)
        | .ok _ => return .ok false
        | .error err => return .error (if err.isMalformed then .malformed err else .inner err)
    else pure false

/-- One less than an exponent. -/
def predecessor : Expr α → Expr α
  | const (.real x) _ => const (.real (x - Scalar.one))
  | e => binary .sub e (number 1)

/-- `f' g - f g'` over `g²`. -/
def quotientRule (f f' g g' : Expr α) : Expr α :=
  binary .div (binary .sub (binary .mul f' g) (binary .mul f g')) (binary .pow g (number 2))

/-- The exponent times the base raised to one less: the derivative of a power by its base. -/
def powerRule (base exponent : Expr α) : Expr α :=
  binary .mul exponent (binary .pow base (predecessor exponent))

/-- The squared secant: the derivative of the tangent. -/
def tangentRule (operand : Expr α) : Expr α := binary .pow (unary .sec operand) (number 2)

/-- Why the range of a sum stands in the way of a transformation, if it does. -/
def rangeError? (what : Calculus) (x : String) (start stop : Expr α) : Option (DerivativeError α) :=
  let names := start.freeVars ++ stop.freeVars
  if x ∈ names then some (.range what x (sortedNames names)) else none

/-- Why a sum that lacks its loop variable or its term has no derivative or antiderivative. -/
def malformedSum (what : Calculus) (x : String) : List (Expr α) → DerivativeError α
  | var k :: args =>
    let missing := .malformed (.missingArgument Builtin.sum.name)
    if k = x then .loopVariable what x
    else
      match args with
      | start :: stop :: _ => (rangeError? what x start stop).getD missing
      | _ => missing
  | _ :: _ => .malformed (.noLoopVariable Builtin.sum.name)
  | [] => .malformed (.missingArgument Builtin.sum.name)

/-- A sum whose term is transformed, where so many calls are pending. -/
def summation {m : Type → Type} [Monad m] [MonadExcept (DerivativeError α) m] (limit : CallLimit)
    (what : Calculus) (x : String) (depth : Nat) (k : String) (start stop : Expr α)
    (term : m (Expr α)) : m (Expr α) :=
  if k = x then throw (.loopVariable what x)
  else
    within limit (depth + max start.height stop.height) <|
      match rangeError? what x start stop with
      | some e => throw e
      | none =>
        within limit (depth + max start.copyCalls stop.copyCalls) do
          return builtin .sum [var k, start, stop, ← term]

/-- The derivative of a tree by the variable `x`. The parts of a rule are made in the order in which
the derivative is put together. -/
def derive (ev : Evaluator α) (x : String) (depth : Nat) (e : Expr α) : Transform α (Expr α) :=
  if ev.isTooDeep (depth + 1) then throw .exhausted
  else
    match e with
    | const .. => pure (number 0)
    | var name => pure (number (if name = x then 1 else 0))
    | binary .sub f g => do
      let f' ← derive ev x (depth + 2) f
      let g' ← derive ev x (depth + 2) g
      return binary .sub f' g'
    | binary .div f g => do
      let f' ← derive ev x (depth + 2) f
      let g' ← within ev.maxPending (depth + 2 + max f.copyCalls g.copyCalls) <|
        derive ev x (depth + 2) g
      return quotientRule f f' g g'
    | binary .pow base exponent =>
      within ev.maxPending (depth + 2 + exponent.height) <|
        if exponent.isClosed then
          within ev.maxPending (depth + 2 + max exponent.copyCalls base.copyCalls) do
            let inner ← derive ev x (depth + 2) base
            let outer := powerRule base exponent
            if ← isOne ev (depth + 3) inner then return outer else return binary .mul outer inner
        else throw (.exponent exponent.freeNames)
    | unary .tan operand =>
      within ev.maxPending (depth + 2 + operand.copyCalls) do
        let inner ← derive ev x (depth + 2) operand
        let outer := tangentRule operand
        if ← isOne ev (depth + 2) inner then return outer else return binary .mul inner outer
    | builtin .sum (var k :: start :: stop :: term :: _) =>
      summation ev.maxPending .derivative x (depth + 2) k start stop (derive ev x (depth + 2) term)
    | builtin .sum args => throw (malformedSum .derivative x args)
    | e => throw (.noRule .derivative e.ruleName x)

/-- An antiderivative of a tree by the variable `x`, without a constant. -/
def integrate (limit : CallLimit) (x : String) (depth : Nat) (e : Expr α) :
    Except (DerivativeError α) (Expr α) :=
  if limit.isExceeded (depth + 1) then .error .exhausted
  else
    match e with
    | const v origin => return binary .mul (const v origin) (var x)
    | var name =>
      return if name = x then binary .div (binary .pow (var x) (number 2)) (number 2)
        else binary .mul (var name) (var x)
    | binary .sub f g => do
      let f' ← integrate limit x (depth + 1) f
      let g' ← integrate limit x (depth + 1) g
      return binary .sub f' g'
    | builtin .sum (var k :: start :: stop :: term :: _) =>
      summation limit .antiderivative x (depth + 2) k start stop (integrate limit x (depth + 2) term)
    | builtin .sum args => throw (malformedSum .antiderivative x args)
    | e => throw (.noRule .antiderivative e.ruleName x)

end Expr

end Formulary
