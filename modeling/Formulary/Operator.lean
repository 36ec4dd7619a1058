/-!
# Operators and functions

Formulas combine values with fourteen binary operators and thirty-four unary functions, negation and
logical not among them. Each has the text that a formula spells it with, and a precedence level that
decides where a rendered formula needs brackets.
-/

namespace Formulary

/-- Precedence levels, from the loosest to the tightest. -/
inductive Level where
  | logic
  | sum
  | product
  | power
  | atom
deriving DecidableEq, Repr

namespace Level

/-- The place of a level, counted from the loosest. -/
def rank : Level → Nat
  | logic => 1
  | sum => 2
  | product => 3
  | power => 4
  | atom => 5

end Level

/-- Operators between two operands. -/
inductive BinaryOp where
  | equal | notEqual | atLeast | atMost | greater | less
  | and | or | xor
  | add | sub | mul | div | pow
deriving DecidableEq, Repr

namespace BinaryOp

def all : List BinaryOp :=
  [equal, notEqual, atLeast, atMost, greater, less, and, or, xor, add, sub, mul, div, pow]

/-- How a formula spells the operator. -/
def symbol : BinaryOp → String
  | equal => "=="
  | notEqual => "!="
  | atLeast => ">="
  | atMost => "<="
  | greater => ">"
  | less => "<"
  | and => "&&"
  | or => "||"
  | xor => "##"
  | add => "+"
  | sub => "-"
  | mul => "*"
  | div => "/"
  | pow => "^"

def level : BinaryOp → Level
  | add | sub => .sum
  | mul | div => .product
  | pow => .power
  | _ => .logic

/-- The operator with this spelling. -/
def ofSymbol? (text : String) : Option BinaryOp := all.find? fun op => op.symbol == text

end BinaryOp

/-- Functions of one argument. `log` is a second spelling of the common logarithm `log10`. -/
inductive UnaryOp where
  | arcsinh | arccosh | arctanh | arccoth | arcsech | arccsch
  | arcsin | arccos | arctan | arccot | arcsec | arccsc
  | log10
  | sinh | cosh | tanh | coth | sech | csch
  | sqrt
  | sin | cos | tan | cot | sec | csc
  | abs | sgn | exp | log | neg | int | ln
  | not
deriving DecidableEq, Repr

namespace UnaryOp

def all : List UnaryOp :=
  [arcsinh, arccosh, arctanh, arccoth, arcsech, arccsch,
    arcsin, arccos, arctan, arccot, arcsec, arccsc,
    log10, sinh, cosh, tanh, coth, sech, csch, sqrt,
    sin, cos, tan, cot, sec, csc, abs, sgn, exp, log, neg, int, ln, not]

/-- The name of the function; that of logical not is its prefix. -/
def name : UnaryOp → String
  | arcsinh => "arcsinh"
  | arccosh => "arccosh"
  | arctanh => "arctanh"
  | arccoth => "arccoth"
  | arcsech => "arcsech"
  | arccsch => "arccsch"
  | arcsin => "arcsin"
  | arccos => "arccos"
  | arctan => "arctan"
  | arccot => "arccot"
  | arcsec => "arcsec"
  | arccsc => "arccsc"
  | log10 => "log10"
  | sinh => "sinh"
  | cosh => "cosh"
  | tanh => "tanh"
  | coth => "coth"
  | sech => "sech"
  | csch => "csch"
  | sqrt => "sqrt"
  | sin => "sin"
  | cos => "cos"
  | tan => "tan"
  | cot => "cot"
  | sec => "sec"
  | csc => "csc"
  | abs => "abs"
  | sgn => "sgn"
  | exp => "exp"
  | log => "log"
  | neg => "neg"
  | int => "int"
  | ln => "ln"
  | not => "!"

/-- Negation is rendered as a prefix minus and logical not as a prefix `!`, so they bind like the
operators of those levels. -/
def level : UnaryOp → Level
  | neg => .sum
  | not => .logic
  | _ => .atom

/-- The function with this name. -/
def ofName? (text : String) : Option UnaryOp := all.find? fun op => op.name == text

theorem ofName?_name (op : UnaryOp) : ofName? op.name = some op := by
  cases op <;> decide

end UnaryOp

end Formulary
