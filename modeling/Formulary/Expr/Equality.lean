import Formulary.Expr.Basic

/-!
# Equality of trees

Trees are equal when they are put together alike from equal constants. Calls are equal when their
names and arguments are, whatever they are calls of.

## Numbers that differ from themselves

A NaN compares as different from every number, and yet a constant is equal to its copies. So a
constant that holds a NaN is equal to those of the same origin. `Expr.identify` gives the constants
of a tree that have no origin one each, which no constant made before has.
-/

namespace Formulary.Expr

variable {α : Type}

/-- Do two constants have one origin? -/
def sameOrigin : Option Origin → Option Origin → Bool
  | some a, some b => a == b
  | _, _ => false

mutual

/-- Equality of trees; constants are compared by `Value.equal`. -/
def equal [Scalar α] : Expr α → Expr α → Bool
  | const a o, const b o' => a.equal (sameOrigin o o') b
  | var a, var b => a == b
  | binary op l r, binary op' l' r' => op == op' && l.equal l' && r.equal r'
  | unary f x, unary f' x' => f == f' && x.equal x'
  | builtin f args, builtin f' args' => f == f' && equalAll args args'
  | builtin f args, apply d args' => f.name == d.name && equalAll args args'
  | apply d args, builtin f args' => d.name == f.name && equalAll args args'
  | apply d args, apply d' args' => d.name == d'.name && equalAll args args'
  | _, _ => false

/-- Equality of lists of trees. -/
def equalAll [Scalar α] : List (Expr α) → List (Expr α) → Bool
  | [], [] => true
  | e :: es, e' :: es' => e.equal e' && equalAll es es'
  | _, _ => false

end

mutual

/-- A tree with an origin for every constant, and the first number that is still free; `next` is
the first one that may be given away. -/
def identify (next : Nat) : Expr α → Expr α × Nat
  | const v none => (const v (some (.numbered next)), next + 1)
  | const v origin => (const v origin, next)
  | var name => (var name, next)
  | binary op l r =>
    let (l, next) := l.identify next
    let (r, next) := r.identify next
    (binary op l r, next)
  | unary f x =>
    let (x, next) := x.identify next
    (unary f x, next)
  | builtin f args =>
    let (args, next) := identifyAll next args
    (builtin f args, next)
  | apply d args =>
    let (args, next) := identifyAll next args
    (apply d args, next)

/-- The same for the trees of a list, one after the other. -/
def identifyAll (next : Nat) : List (Expr α) → List (Expr α) × Nat
  | [] => ([], next)
  | e :: es =>
    let (e, next) := e.identify next
    let (es, next) := identifyAll next es
    (e :: es, next)

end

end Formulary.Expr
