/-!
# Scalars

The operations on real and complex values are written once, over any type of `Scalar`s. Binary64
numbers are the scalars that formulas compute with (`Formulary.Arithmetic.Elementary`); the laws of
the complex functions are about the same definitions over ideal real numbers.

An elementary function can fail in three ways, its `Fault`s. A fault says nothing about the formula;
whoever applies an operator or a function turns it into an error that does.
-/

namespace Formulary

/-- What can go wrong inside an elementary operation. -/
inductive Fault where
  /-- The result is too large to represent. -/
  | overflow
  /-- The argument is outside the function's domain. -/
  | domain
  /-- A divisor is zero. -/
  | zeroDivisor
deriving DecidableEq, Repr

/-- Numbers with the elementary operations that real and complex functions are built from. -/
class Scalar (α : Type) extends Add α, Sub α, Mul α, Neg α where
  ofNat : Nat → α
  half : α
  pi : α
  euler : α
  infinity : α
  /-- Equality of numbers. The two zeros are equal, and a NaN equals nothing. -/
  eq : α → α → Bool
  lt : α → α → Bool
  isFinite : α → Bool
  /-- An odd integer, as the exponent of a power. -/
  isOddInteger : α → Bool
  /-- The integer part, rounded toward zero; what is not finite stays as it is. -/
  truncate : α → α
  /-- The largest integer that is not above a finite number. -/
  floor : α → Int
  abs : α → α
  /-- The length of the vector with these components. -/
  hypotenuse : α → α → α
  /-- The angle of the point `(x, y)`, as a function of `y` and `x`. -/
  angle : α → α → α
  quotient : α → α → Except Fault α
  power : α → α → Except Fault α
  square : α → Except Fault α
  sqrt : α → Except Fault α
  exp : α → Except Fault α
  log : α → Except Fault α
  log10 : α → Except Fault α
  sin : α → Except Fault α
  cos : α → Except Fault α
  tan : α → Except Fault α
  asin : α → Except Fault α
  acos : α → Except Fault α
  atan : α → Except Fault α
  sinh : α → Except Fault α
  cosh : α → Except Fault α
  tanh : α → Except Fault α
  asinh : α → Except Fault α
  acosh : α → Except Fault α
  atanh : α → Except Fault α

namespace Scalar

variable {α : Type} [Scalar α]

def zero : α := ofNat 0

def one : α := ofNat 1

def two : α := ofNat 2

/-- Less than or equal, so false beside a NaN. -/
def le (x y : α) : Bool := lt x y || eq x y

/-- One of the zeros. -/
def isZero (x : α) : Bool := eq x zero

/-- Below zero. -/
def isNegative (x : α) : Bool := lt x zero

end Scalar

end Formulary
