import Formulary.Arithmetic.Cartesian

/-!
# Values

A value is a boolean, a real number or a complex number. The numeric kinds are ordered by width: a
real number widens to a complex one where the two meet. Booleans never convert.
-/

namespace Formulary

/-- What formulas compute. -/
inductive Value (α : Type) where
  | boolean (b : Bool)
  | real (x : α)
  | complex (z : Cartesian α)
deriving Repr

/-- The kinds of value. -/
inductive Kind where
  | boolean
  | real
  | complex
deriving DecidableEq, Repr

/-- Two operands of one kind. -/
inductive Operands (α : Type) where
  | booleans (a b : Bool)
  | reals (a b : α)
  | complexes (a b : Cartesian α)

namespace Kind

/-- The name of a kind in reports. -/
def name : Kind → String
  | boolean => "boolean"
  | real => "real"
  | complex => "complex"

/-- The place of a kind in the order by width. -/
def rank : Kind → Nat
  | boolean => 0
  | real => 1
  | complex => 2

end Kind

namespace Value

variable {α : Type}

def kind : Value α → Kind
  | boolean _ => .boolean
  | real _ => .real
  | complex _ => .complex

/-- The name of the value's kind. -/
def typeName (v : Value α) : String := v.kind.name

/-- Two values widened to their common kind, if they have one. -/
def promote? [Scalar α] : Value α → Value α → Option (Operands α)
  | boolean a, boolean b => some (.booleans a b)
  | real a, real b => some (.reals a b)
  | real a, complex b => some (.complexes (.ofReal a) b)
  | complex a, real b => some (.complexes a (.ofReal b))
  | complex a, complex b => some (.complexes a b)
  | _, _ => none

/-- No component is infinite or a NaN, so that the value can be written as a number. -/
def isFinite [Scalar α] : Value α → Bool
  | boolean _ => true
  | real x => Scalar.isFinite x
  | complex z => Scalar.isFinite z.re && Scalar.isFinite z.im

/-- Equality of values of one kind. Numbers are equal when they compare so, and `sameOrigin` decides
about numbers that differ from themselves. Values of different kinds differ. -/
def equal [Scalar α] (sameOrigin : Bool) : Value α → Value α → Bool
  | boolean a, boolean b => a == b
  | real a, real b => same a b
  | complex a, complex b => same a.re b.re && same a.im b.im
  | _, _ => false
where
  same (a b : α) : Bool :=
    Scalar.eq a b || (sameOrigin && !Scalar.eq a a && !Scalar.eq b b)

end Value

namespace Operands

variable {α : Type}

/-- The first operand as a value. -/
def left : Operands α → Value α
  | booleans a _ => .boolean a
  | reals a _ => .real a
  | complexes a _ => .complex a

/-- The second operand as a value. -/
def right : Operands α → Value α
  | booleans _ b => .boolean b
  | reals _ b => .real b
  | complexes _ b => .complex b

end Operands

end Formulary
