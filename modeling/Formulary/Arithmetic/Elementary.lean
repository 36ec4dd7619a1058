import Formulary.Arithmetic.Scalar
import Formulary.Number.Hypotenuse

/-!
# Elementary functions of binary64 numbers

Each elementary function is the usual one of the platform, with its exceptional results told apart:

* a NaN that comes from a number means that the number is outside the domain;
* an infinity that comes from a finite number is an overflow where the function grows without
  bound, and a pole, hence again outside the domain, elsewhere.

So no function turns numbers into a NaN without a fault. The platform's functions are an
`ElementaryLibrary`: what its functions compute is theirs, and arithmetic with their results is
written once for all of them.
-/

namespace Formulary.Elementary

open Binary64

/-- What an infinite result of a finite argument means. -/
inductive InfiniteResult where
  | tooLarge
  | pole

/-- The fault that an infinite result stands for. -/
def InfiniteResult.fault : InfiniteResult → Fault
  | tooLarge => .overflow
  | pole => .domain

/-- The result of a function of one argument, with exceptional results told apart. -/
def checked (infinite : InfiniteResult) (f : Float → Float) (x : Float) : Except Fault Float :=
  let y := f x
  if y.isNaN && !x.isNaN then .error .domain
  else if !isFinite y && !y.isNaN && isFinite x then .error infinite.fault
  else .ok y

/-- A power. Infinite and NaN operands follow the usual conventions and never fail. -/
def power (pow : Float → Float → Float) (x y : Float) : Except Fault Float :=
  let r := pow x y
  if isFinite x && isFinite y then
    if r.isNaN then .error .domain
    else if isFinite r then .ok r
    else if isZero x then .error .domain
    else .error .overflow
  else .ok r

/-- A square overflows when a finite number has an infinite one. -/
def square (pow : Float → Float → Float) (x : Float) : Except Fault Float :=
  let r := pow x 2.0
  if isFinite x && !isFinite r then .error .overflow else .ok r

/-- A quotient by zero is a fault, whatever the dividend. -/
def quotient (x y : Float) : Except Fault Float :=
  if y == 0.0 then .error .zeroDivisor else .ok (x / y)

end Formulary.Elementary

namespace Formulary

/-- The elementary functions that a platform computes. -/
structure ElementaryLibrary where
  power : Float → Float → Float
  /-- The angle of the point `(x, y)`, as a function of `y` and `x`. -/
  angle : Float → Float → Float
  sqrt : Float → Float
  exp : Float → Float
  log : Float → Float
  log10 : Float → Float
  sin : Float → Float
  cos : Float → Float
  tan : Float → Float
  asin : Float → Float
  acos : Float → Float
  atan : Float → Float
  sinh : Float → Float
  cosh : Float → Float
  tanh : Float → Float
  asinh : Float → Float
  acosh : Float → Float
  atanh : Float → Float

namespace ElementaryLibrary

/-- The functions of the platform that runs the program. -/
@[reducible]
def platform : ElementaryLibrary where
  power := Float.pow
  angle := Float.atan2
  sqrt := Float.sqrt
  exp := Float.exp
  log := Float.log
  log10 := Float.log10
  sin := Float.sin
  cos := Float.cos
  tan := Float.tan
  asin := Float.asin
  acos := Float.acos
  atan := Float.atan
  sinh := Float.sinh
  cosh := Float.cosh
  tanh := Float.tanh
  asinh := Float.asinh
  acosh := Float.acosh
  atanh := Float.atanh

/-- Binary64 numbers as scalars, with the elementary functions of a library. -/
@[reducible]
def scalar (lib : ElementaryLibrary) : Scalar Float where
  ofNat := Float.ofNat
  half := 0.5
  pi := 3.141592653589793
  euler := 2.718281828459045
  infinity := Binary64.infinity
  eq := Float.beq
  lt := Float.lt
  isFinite := Binary64.isFinite
  isOddInteger := Binary64.isOddInteger
  truncate := Binary64.truncate
  floor := Binary64.floor
  abs := Float.abs
  hypotenuse := Binary64.hypotenuse
  angle := lib.angle
  quotient := Elementary.quotient
  power := Elementary.power lib.power
  square := Elementary.square lib.power
  sqrt := Elementary.checked .pole lib.sqrt
  exp := Elementary.checked .tooLarge lib.exp
  log := Elementary.checked .pole lib.log
  log10 := Elementary.checked .pole lib.log10
  sin := Elementary.checked .pole lib.sin
  cos := Elementary.checked .pole lib.cos
  tan := Elementary.checked .pole lib.tan
  asin := Elementary.checked .pole lib.asin
  acos := Elementary.checked .pole lib.acos
  atan := Elementary.checked .pole lib.atan
  sinh := Elementary.checked .tooLarge lib.sinh
  cosh := Elementary.checked .tooLarge lib.cosh
  tanh := Elementary.checked .pole lib.tanh
  asinh := Elementary.checked .pole lib.asinh
  acosh := Elementary.checked .pole lib.acosh
  atanh := Elementary.checked .pole lib.atanh

end ElementaryLibrary

/-- Binary64 numbers as scalars, with the functions of the platform. -/
instance : Scalar Float := ElementaryLibrary.platform.scalar

end Formulary
