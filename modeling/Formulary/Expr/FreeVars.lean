import Formulary.Expr.Basic

/-!
# Free variables

A variable is free in a tree if the tree needs a binding for it. The loop variable of a series is
bound inside the term and free in the bounds; the body of a user-defined function sees its
parameters only, so that of a call just the arguments count.
-/

namespace Formulary

/-- The names in order of their code points, each of them once. -/
def sortedNames (names : List String) : List String :=
  names.eraseDups.mergeSort fun a b => !decide (b < a)

namespace Expr

variable {α : Type}

mutual

/-- The names of the free variables, once for each occurrence. -/
def freeVars : Expr α → List String
  | const .. => []
  | var name => [name]
  | binary _ l r => l.freeVars ++ r.freeVars
  | unary _ x => x.freeVars
  | builtin .sum [var k, start, stop, term] | builtin .prod [var k, start, stop, term] =>
    start.freeVars ++ stop.freeVars ++ term.freeVars.filter (· != k)
  | builtin _ args | apply _ args => freeVarsOfAll args

/-- The names of the variables that are free in any of the trees. -/
def freeVarsOfAll : List (Expr α) → List String
  | [] => []
  | e :: es => e.freeVars ++ freeVarsOfAll es

end

/-- The names of the free variables, sorted. -/
def freeNames (e : Expr α) : List String := sortedNames e.freeVars

/-- No variable is free. -/
def isClosed (e : Expr α) : Bool := e.freeVars.isEmpty

end Expr

end Formulary
