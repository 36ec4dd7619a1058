import Formulary.Builtin
import Formulary.Value.Basic

/-!
# Expression trees

A formula is a tree of operators, functions, constants, variables and calls. A call of a
user-defined function carries the function's definition, so that a tree means the same whatever is
defined later.

A child is reached by its index. `modifyAt` follows a path of indexes from the root, and
`replaceChild?` puts a new tree in the place of one child.
-/

namespace Formulary

/-- A user-defined function: its name, the names of its parameters, and its body as a tree and as it
was written. -/
structure Definition (ε : Type) where
  name : String
  params : List String
  body : ε
  bodyText : String
deriving Repr

namespace Definition

/-- The definition as text, with a separator of one's choice between the parameters. -/
def describe {ε : Type} (separator : String) (d : Definition ε) : String :=
  d.name ++ "(" ++ separator.intercalate d.params ++ ")=" ++ d.bodyText

/-- The number of parameters. -/
def arity {ε : Type} (d : Definition ε) : Nat := d.params.length

end Definition

/-- Which constant a constant is. The copies of one constant share its origin. -/
inductive Origin where
  /-- A real number given as data. There is one NaN among these. -/
  | data
  /-- A constant that was made for itself. -/
  | numbered (n : Nat)
deriving DecidableEq, Repr

/-- Formulas over some scalars. The `origin` of a constant is of interest to equality alone
(`Formulary.Expr.Equality`). -/
inductive Expr (α : Type) where
  | const (value : Value α) (origin : Option Origin := none)
  | var (name : String)
  | binary (op : BinaryOp) (left right : Expr α)
  | unary (f : UnaryOp) (operand : Expr α)
  | builtin (f : Builtin) (args : List (Expr α))
  | apply (definition : Definition (Expr α)) (args : List (Expr α))

namespace Expr

variable {α : Type}

/-- The direct children, from left to right. -/
def children : Expr α → List (Expr α)
  | const .. | var _ => []
  | binary _ l r => [l, r]
  | unary _ x => [x]
  | builtin _ args | apply _ args => args

/-- The precedence level at which the tree is rendered. -/
def level : Expr α → Level
  | binary op _ _ => op.level
  | unary f _ => f.level
  | _ => .atom

def isConst : Expr α → Bool
  | const .. => true
  | _ => false

mutual

/-- The tree itself and all its descendants, parents before their children. -/
def nodes : Expr α → List (Expr α)
  | e@(const ..) | e@(var _) => [e]
  | e@(binary _ l r) => e :: (l.nodes ++ r.nodes)
  | e@(unary _ x) => e :: x.nodes
  | e@(builtin _ args) | e@(apply _ args) => e :: nodesOfAll args

/-- The nodes of a list of trees. -/
def nodesOfAll : List (Expr α) → List (Expr α)
  | [] => []
  | e :: es => e.nodes ++ nodesOfAll es

end

mutual

/-- The number of nodes on the longest path from the root to a leaf. Bodies of called functions are
no part of it. -/
def height : Expr α → Nat
  | const .. | var _ => 1
  | binary _ l r => max l.height r.height + 1
  | unary _ x => x.height + 1
  | builtin _ args | apply _ args => heightOfAll args + 1

/-- The height of the highest of several trees. -/
def heightOfAll : List (Expr α) → Nat
  | [] => 0
  | e :: es => max e.height (heightOfAll es)

end

/-- The name of a node's sort in a report. -/
def sortName : Expr α → String
  | const .. => "FormulaConstant"
  | var _ => "FormulaVariable"
  | binary .. => "FormulaBinaryOp"
  | unary .. => "FormulaUnaryFunc"
  | builtin .. | apply .. => "FormulaFunctionCall"

/-- The tree with another child at an index, if it has a child there. -/
def replaceChild? (e : Expr α) (index : Nat) (child : Expr α) : Option (Expr α) :=
  match e, index with
  | binary op _ r, 0 => some (binary op child r)
  | binary op l _, 1 => some (binary op l child)
  | unary f _, 0 => some (unary f child)
  | builtin f args, index =>
    if index < args.length then some (builtin f (args.set index child)) else none
  | apply d args, index =>
    if index < args.length then some (apply d (args.set index child)) else none
  | _, _ => none

/-- The tree with the node at the end of a path of child indexes replaced by its image under `f`.
There is none if the path leaves the tree or `f` fails. -/
def modifyAt {ε : Type} (noNode : ε) (f : Expr α → Except ε (Expr α)) :
    (path : List Nat) → Expr α → Except ε (Expr α)
  | [], e => f e
  | index :: path, e =>
    match e.children[index]? with
    | none => .error noNode
    | some child => do
      match e.replaceChild? index (← modifyAt noNode f path child) with
      | some e' => return e'
      | none => .error noNode

end Expr

end Formulary
