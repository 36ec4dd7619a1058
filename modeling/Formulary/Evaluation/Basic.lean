import Formulary.Pending
import Formulary.Scope
import Formulary.Value.Operation

/-!
# Evaluation

Both operands of an operator are always evaluated, also those of `&&` and `||`, so an error in
either always shows. Only `if` is lazy: it evaluates its condition and then the branch that was
chosen.

Random draws are numbered. An evaluation starts with the number of the next draw and ends with that
of the first one it has left over, whether it has a value or fails.

## Limits

`Evaluator.maxSeriesTerms` bounds the terms of one series and `Evaluator.maxPending` the calls that
may be pending. `depth` is the number of those that are pending already. A node takes two more: one
that finds out what sort of node it is, and one for its sort. From there on it depends on the sort
how many calls lead to an operand. The search for a variable takes one call for each scope that it
comes to.
-/

namespace Formulary

/-- What evaluations take from their surroundings: two limits and the random draws. -/
structure Evaluator (α : Type) where
  maxSeriesTerms : Int := 1000000
  maxPending : CallLimit := .standard
  draw : Nat → α

/-- A computation that may fail and takes random draws in turn. -/
abbrev Eval (α β : Type) := ExceptT (EvalError α) (StateM Nat) β

namespace Eval

variable {α β : Type}

/-- A step that takes no draw. -/
def of (r : Except (EvalError α) β) : Eval α β := ExceptT.mk (pure r)

/-- The number of the next draw, which is thereby taken. -/
def next : Eval α Nat := ExceptT.mk fun n => (.ok n, n + 1)

end Eval

namespace Evaluator

variable {α : Type} [Scalar α]

/-- Are these more calls than may be pending? -/
def isTooDeep (ev : Evaluator α) (depth : Nat) : Bool := ev.maxPending.isExceeded depth

/-- The bounds of a series as real numbers. -/
def bounds (series : Builtin) (start stop : Value α) : Except (EvalError α) (α × α) :=
  match start, stop with
  | .real a, .real b =>
    if Scalar.isFinite a && Scalar.isFinite b then .ok (a, b)
    else .error (.boundInfinite series start stop)
  | .real _, _ => .error (.boundKind series stop start stop)
  | _, _ => .error (.boundKind series start start stop)

/-- The number of terms of a series over `[a, b]`: one for each whole step from `a`. Counting them
beforehand keeps the loop finite where a step of one would not change the loop variable. -/
def termCount (ev : Evaluator α) (series : Builtin) (a b : α) : Except (EvalError α) Nat :=
  let span := b - a
  let tooLarge := if Scalar.isFinite span then ev.maxSeriesTerms ≤ Scalar.floor span
    else Scalar.lt Scalar.zero span
  if tooLarge then .error (.tooManyTerms series (.real a) (.real b) ev.maxSeriesTerms)
  else if Scalar.isFinite span then .ok (Scalar.floor span + 1).toNat
  else .ok 0

/-- The operator that joins the terms of a series, and the value of an empty series. -/
def seriesOperator : Builtin → BinaryOp × Value α
  | .prod => (.mul, .real Scalar.one)
  | _ => (.add, .real Scalar.zero)

/-- The terms for `start + step`, `start + step + 1`, … joined to `result`, `count` of them. -/
def accumulate (op : BinaryOp) (term : α → Eval α (Value α)) (start : α) :
    (step count : Nat) → (result : Value α) → Eval α (Value α)
  | _, 0, result => pure result
  | step, count + 1, result => do
    let value ← term (start + Scalar.ofNat step)
    let joined ← Eval.of (result.applyBinary op value)
    accumulate op term start (step + 1) count joined

/-- A series, given its bounds and its term as a function of the loop variable. -/
def series (ev : Evaluator α) (f : Builtin) (start stop : Value α) (term : α → Eval α (Value α)) :
    Eval α (Value α) := do
  let (a, b) ← Eval.of (bounds f start stop)
  let count ← Eval.of (ev.termCount f a b)
  let (op, neutral) := seriesOperator f
  accumulate op term a 0 count neutral

/-- The scope of a series' term: one inside `scope` that binds the loop variable. -/
def loopScope (scope : Scope α) (f : Builtin) (name : String) (x : α) : Scope α :=
  (scope.child f.name).define name (.real x)

/-- The truth of a condition. -/
def truth : Value α → Except (EvalError α) Bool
  | .boolean b => .ok b
  | v => .error (.condition v)

/-- The value of a variable. -/
def evalVar (ev : Evaluator α) (scope : Scope α) (depth : Nat) (name : String) : Eval α (Value α) :=
  if ev.isTooDeep (depth + scope.reach name) then throw .tooDeep else Eval.of (scope.lookup name)

mutual

/-- The value of a tree in a scope, where so many calls are pending. -/
def evalAt (ev : Evaluator α) (scope : Scope α) (depth : Nat) (e : Expr α) : Eval α (Value α) :=
  if ev.isTooDeep (depth + 2) then throw .tooDeep
  else
    match e with
    | .const v _ => pure v
    | .var name => ev.evalVar scope (depth + 2) name
    | .binary op l r => do
      let a ← ev.evalAt scope (depth + 2) l
      let b ← ev.evalAt scope (depth + 2) r
      Eval.of (a.applyBinary op b)
    | .unary f x => do
      let v ← ev.evalAt scope (depth + 2) x
      Eval.of (v.applyUnary f)
    | .builtin f args => ev.evalCall scope (depth + 2) f args
    | .apply d args => do
      -- one call for the function, and inside it one for the list of its arguments
      let values ← ev.evalAll scope (depth + 4) args
      ev.evalBody (depth + 3) values d

/-- The value of a call of a builtin function, which takes one call itself, and a series two. -/
def evalCall (ev : Evaluator α) (scope : Scope α) (depth : Nat) :
    Builtin → List (Expr α) → Eval α (Value α)
  | .other name, _ => throw (.unknownBuiltin name)
  | .cond, condition :: branches => do
    let v ← ev.evalAt scope (depth + 1) condition
    let b ← Eval.of (truth v)
    ev.evalBranch scope (depth + 1) b branches
  | .rand, limit :: _ => do
    let v ← ev.evalAt scope (depth + 1) limit
    let n ← Eval.next
    Eval.of ((Value.real (ev.draw n)).applyBinary .mul v)
  | .sum, .var k :: args => ev.evalSeries scope (depth + 2) .sum k args
  | .prod, .var k :: args => ev.evalSeries scope (depth + 2) .prod k args
  | f, [] => throw (.missingArgument f.name)
  | f, _ :: _ => throw (.noLoopVariable f.name)

/-- The value of a series with the loop variable `k`, given its bounds and its term. -/
def evalSeries (ev : Evaluator α) (scope : Scope α) (depth : Nat) (f : Builtin) (k : String) :
    List (Expr α) → Eval α (Value α)
  | start :: stop :: term => do
    let a ← ev.evalAt scope depth start
    let b ← ev.evalAt scope depth stop
    ev.series f a b fun x => ev.evalTerm (loopScope scope f k x) depth f term
  | [start] => do
    let _ ← ev.evalAt scope depth start
    throw (.missingArgument f.name)
  | [] => throw (.missingArgument f.name)

/-- The value of the term of a series, which is the first of the arguments that are left. A series
without one can still be empty. -/
def evalTerm (ev : Evaluator α) (scope : Scope α) (depth : Nat) (f : Builtin) :
    List (Expr α) → Eval α (Value α)
  | term :: _ => ev.evalAt scope depth term
  | [] => throw (.missingArgument f.name)

/-- The value of the branch that a condition chooses; a missing second branch is zero. -/
def evalBranch (ev : Evaluator α) (scope : Scope α) (depth : Nat) (b : Bool) :
    List (Expr α) → Eval α (Value α)
  | [] => if b then throw (.missingArgument Builtin.cond.name) else pure (.real Scalar.zero)
  | [yes] => if b then ev.evalAt scope depth yes else pure (.real Scalar.zero)
  | yes :: no :: _ => if b then ev.evalAt scope depth yes else ev.evalAt scope depth no

/-- The values of arguments, from left to right. -/
def evalAll (ev : Evaluator α) (scope : Scope α) (depth : Nat) :
    List (Expr α) → Eval α (List (Value α))
  | [] => pure []
  | e :: es => do
    let v ← ev.evalAt scope depth e
    let vs ← ev.evalAll scope depth es
    return v :: vs

/-- The value of a function's body in a scope that holds the parameters and nothing else. -/
def evalBody (ev : Evaluator α) (depth : Nat) (values : List (Value α)) :
    Definition (Expr α) → Eval α (Value α)
  | ⟨name, params, body, _⟩ =>
    ev.evalAt (.ofBindings (.ofList (params.zip values)) name) depth body

end

/-- The value of a tree in a scope, as it is asked for from outside. -/
def evaluate (ev : Evaluator α) (scope : Scope α) (e : Expr α) : Eval α (Value α) :=
  ev.evalAt scope 2 e

end Evaluator

end Formulary
