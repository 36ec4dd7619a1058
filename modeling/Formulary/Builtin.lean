import Formulary.Operator

/-!
# Builtin functions

Functions of one argument are recognised by their names alone, without a bracket: `sinx` is the sine
of `x`. Where one name begins another (`sin`, `sinh`), the longer one is meant, so names are tried
from the longest to the shortest. Functions of several arguments are recognised only in front of a
round bracket.
-/

namespace Formulary

/-- Functions with an argument list. A call may also name a function that does not exist, which is
noticed when it is evaluated. -/
inductive Builtin where
  | cond
  | sum
  | prod
  | rand
  | other (name : String)
deriving DecidableEq, Repr

namespace Builtin

/-- The functions that a formula can call. -/
def all : List Builtin := [cond, sum, prod, rand]

def name : Builtin → String
  | cond => "if"
  | sum => "sum"
  | prod => "prod"
  | rand => "rand"
  | other name => name

/-- The function with this name, which may be one that does not exist. -/
def ofName (text : String) : Builtin := (all.find? fun f => f.name == text).getD (other text)

def minArgs : Builtin → Nat
  | cond => 2
  | sum | prod => 4
  | rand => 1
  | other _ => 0

def maxArgs : Builtin → Nat
  | cond => 3
  | sum | prod => 4
  | rand => 1
  | other _ => 0

/-- How a call of the function is written. -/
def usage : Builtin → String
  | cond => "if(condition, then[, else])"
  | sum => "sum(variable, start, end, term)"
  | prod => "prod(variable, start, end, factor)"
  | rand => "rand(limit)"
  | other _ => ""

/-- Does the function bind its first argument as a loop variable over its last one? -/
def isSeries : Builtin → Bool
  | sum | prod => true
  | _ => false

/-- Can two evaluations of a call differ? -/
def isRandom : Builtin → Bool
  | rand => true
  | _ => false

end Builtin

namespace UnaryOp

/-- The functions that a formula calls by name, longest names first and otherwise in the order in
which they are declared. -/
def byNameLength : List UnaryOp :=
  (all.filter (· ≠ not)).mergeSort fun f g => g.name.length ≤ f.name.length

/-- The function whose name begins a text, and the rest of the text. -/
def match? (text : List Char) : Option (UnaryOp × List Char) :=
  byNameLength.findSome? fun f =>
    if f.name.toList.isPrefixOf text then some (f, text.drop f.name.length) else none

end UnaryOp

namespace Builtin

/-- The function with an argument list that a text calls. -/
def match? (text : List Char) : Option Builtin :=
  all.find? fun f => (f.name.toList ++ ['(']).isPrefixOf text

/-- The names of all builtin functions. -/
def allNames : List String := UnaryOp.byNameLength.map UnaryOp.name ++ all.map name

/-- Is this the name of a function with an argument list? -/
def isName (text : String) : Bool := all.any fun f => f.name == text

end Builtin

/-- A call that shows how a function is used. -/
def exampleCall (name : String) : String :=
  match name with
  | "if" => "if(x>2,1,0)"
  | "sum" => "sum(k,1,10,k^2)"
  | "prod" => "prod(k,1,5,k)"
  | "rand" => "rand(10)"
  | "sqrt" => "sqrt(16)"
  | "abs" => "abs(3+4i)"
  | "ln" => "ln(e)"
  | "log" => "log(1000)"
  | "log10" => "log10(1000)"
  | "neg" => "neg(5)"
  | "int" => "int(6.725)"
  | "sin" => "sin(pi/2)"
  | "tan" => "tan(0.5)"
  | _ => name ++ "(x)"

end Formulary
