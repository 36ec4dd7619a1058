import Formulary.Arithmetic.Scalar
import Formulary.Operator

/-!
# Complex arithmetic

A complex number is a pair of scalars. Powers are `exp (w * ln z)` on the principal branch, and the
inverse trigonometric and hyperbolic functions are built from `ln` and `sqrt`, so they all share the
branch cut of `ln`. The quotients among the direct functions (`tan`, `sec` and so on) are expanded
into one real divisor, and fail where that divisor is zero.

`ArithmeticError` is what can go wrong here and in the arithmetic of real numbers, with the operands
that a report shows.
-/

namespace Formulary

/-- A complex number by its real and imaginary parts. -/
structure Cartesian (α : Type) where
  re : α
  im : α
deriving Repr

/-- Why an operation on numbers has no result. -/
inductive ArithmeticError (α : Type) where
  /-- An elementary function failed. -/
  | fault (fault : Fault)
  /-- A real number is divided by zero. -/
  | realDivision (dividend : α)
  /-- The real number zero is raised to a negative power. -/
  | realZeroPower (exponent : α)
  /-- A negative real number is raised to a power that is no integer. -/
  | realPower (base exponent : α)
  /-- A real function is applied outside its domain. -/
  | realDomain (function : UnaryOp) (argument : α)
  /-- A complex number is divided by one of magnitude zero. -/
  | complexDivision (dividend divisor : Cartesian α)
  /-- The complex number zero is raised to a power whose real part is not positive. -/
  | complexZeroPower (exponent : Cartesian α)
  /-- A complex function is applied outside its domain. -/
  | complexDomain (function : UnaryOp) (argument : Cartesian α)

namespace ArithmeticError

variable {α : Type}

/-- Is the error a division by zero, also one that hides in a power? -/
def isDivision : ArithmeticError α → Bool
  | realDivision .. | realZeroPower .. | complexDivision .. | complexZeroPower .. => true
  | _ => false

end ArithmeticError

/-- An operation on numbers: a result or the reason why there is none. -/
abbrev Computed (α β : Type) := Except (ArithmeticError α) β

/-- An elementary operation, with its fault as an error. -/
def lift {α β : Type} (r : Except Fault β) : Computed α β := r.mapError .fault

namespace Cartesian

variable {α : Type} [Scalar α]

open Scalar (isZero isNegative quotient)

/-- A real number as a complex one. -/
def ofReal (x : α) : Cartesian α := ⟨x, Scalar.zero⟩

def zero : Cartesian α := ofReal Scalar.zero

def one : Cartesian α := ofReal Scalar.one

def two : Cartesian α := ofReal Scalar.two

/-- The imaginary unit. -/
def i : Cartesian α := ⟨Scalar.zero, Scalar.one⟩

def twoI : Cartesian α := ⟨Scalar.zero, Scalar.two⟩

/-- Both parts are zero. -/
def isOrigin (z : Cartesian α) : Bool := isZero z.re && isZero z.im

def magnitude (z : Cartesian α) : α := Scalar.hypotenuse z.re z.im

/-! ## Arithmetic -/

def add (z w : Cartesian α) : Cartesian α := ⟨z.re + w.re, z.im + w.im⟩

def sub (z w : Cartesian α) : Cartesian α := ⟨z.re - w.re, z.im - w.im⟩

def mul (z w : Cartesian α) : Cartesian α :=
  ⟨z.re * w.re - z.im * w.im, z.re * w.im + z.im * w.re⟩

def neg (z : Cartesian α) : Cartesian α := ⟨-z.re, -z.im⟩

/-- The squared magnitude of the divisor decides whether there is a quotient. -/
def div (z w : Cartesian α) : Computed α (Cartesian α) := do
  let divisor := w.re * w.re + w.im * w.im
  if isZero divisor then .error (.complexDivision z w)
  else
    let re ← lift (quotient (z.re * w.re + z.im * w.im) divisor)
    let im ← lift (quotient (z.im * w.re - z.re * w.im) divisor)
    return ⟨re, im⟩

def exp (z : Cartesian α) : Computed α (Cartesian α) := do
  let scale ← lift (Scalar.exp z.re)
  let c ← lift (Scalar.cos z.im)
  let s ← lift (Scalar.sin z.im)
  return ⟨scale * c, scale * s⟩

/-- The principal branch: the angle is above `-π` and up to `π`. -/
def ln (z : Cartesian α) : Computed α (Cartesian α) := do
  if isOrigin z then .error (.complexDomain .ln z)
  else
    let re ← lift (Scalar.log (magnitude z))
    return ⟨re, Scalar.angle z.im z.re⟩

def log10 (z : Cartesian α) : Computed α (Cartesian α) := do
  let natural ← ln z
  let scale ← lift (Scalar.log (Scalar.ofNat 10))
  let re ← lift (quotient natural.re scale)
  let im ← lift (quotient natural.im scale)
  return ⟨re, im⟩

/-- Zero has powers of its own; any other number goes through its logarithm. -/
def pow (z w : Cartesian α) : Computed α (Cartesian α) := do
  if isOrigin z then
    if isOrigin w then return one
    else if Scalar.lt Scalar.zero w.re then return zero
    else .error (.complexZeroPower w)
  else exp (mul w (← ln z))

def sqrt (z : Cartesian α) : Computed α (Cartesian α) :=
  if isOrigin z then .ok zero else pow z (ofReal Scalar.half)

/-- The magnitude, as a complex number. -/
def abs (z : Cartesian α) : Cartesian α := ofReal (magnitude z)

/-- The sign of the real part. -/
def sgn (z : Cartesian α) : Cartesian α :=
  if Scalar.lt Scalar.zero z.re then one
  else if isNegative z.re then ofReal (-Scalar.one)
  else zero

/-- Both parts rounded toward zero. -/
def int (z : Cartesian α) : Cartesian α := ⟨Scalar.truncate z.re, Scalar.truncate z.im⟩

/-! ## Comparison -/

def equals (z w : Cartesian α) : Bool := Scalar.eq z.re w.re && Scalar.eq z.im w.im

/-- Complex numbers are ordered by magnitude. -/
def compare (z w : Cartesian α) : Ordering :=
  if Scalar.lt (magnitude z) (magnitude w) then .lt
  else if Scalar.lt (magnitude w) (magnitude z) then .gt
  else .eq

/-! ## Direct functions -/

/-- A quotient by a real number, undefined for `z` where that is zero. -/
def ratio (f : UnaryOp) (z : Cartesian α) (re im divisor : α) : Computed α (Cartesian α) := do
  if isZero divisor then .error (.complexDomain f z)
  else
    let re ← lift (quotient re divisor)
    let im ← lift (quotient im divisor)
    return ⟨re, im⟩

def sin (z : Cartesian α) : Computed α (Cartesian α) := do
  let sinA ← lift (Scalar.sin z.re)
  let coshB ← lift (Scalar.cosh z.im)
  let cosA ← lift (Scalar.cos z.re)
  let sinhB ← lift (Scalar.sinh z.im)
  return ⟨sinA * coshB, cosA * sinhB⟩

def cos (z : Cartesian α) : Computed α (Cartesian α) := do
  let cosA ← lift (Scalar.cos z.re)
  let coshB ← lift (Scalar.cosh z.im)
  let sinA ← lift (Scalar.sin z.re)
  let sinhB ← lift (Scalar.sinh z.im)
  return ⟨cosA * coshB, -sinA * sinhB⟩

/-- With both parts doubled: `(sin 2a + i sinh 2b) / (cos 2a + cosh 2b)`. -/
def tan (z : Cartesian α) : Computed α (Cartesian α) := do
  let a := Scalar.two * z.re
  let b := Scalar.two * z.im
  let cosA ← lift (Scalar.cos a)
  let coshB ← lift (Scalar.cosh b)
  let sinA ← lift (Scalar.sin a)
  let sinhB ← lift (Scalar.sinh b)
  ratio .tan z sinA sinhB (cosA + coshB)

/-- With both parts doubled: `(sin 2a - i sinh 2b) / (cosh 2b - cos 2a)`. -/
def cot (z : Cartesian α) : Computed α (Cartesian α) := do
  let a := Scalar.two * z.re
  let b := Scalar.two * z.im
  let coshB ← lift (Scalar.cosh b)
  let cosA ← lift (Scalar.cos a)
  let sinA ← lift (Scalar.sin a)
  let sinhB ← lift (Scalar.sinh b)
  ratio .cot z sinA (-sinhB) (coshB - cosA)

/-- The conjugate of the cosine over its squared magnitude. -/
def sec (z : Cartesian α) : Computed α (Cartesian α) := do
  let cosA ← lift (Scalar.cos z.re)
  let sinA ← lift (Scalar.sin z.re)
  let coshB ← lift (Scalar.cosh z.im)
  let sinhB ← lift (Scalar.sinh z.im)
  let u ← lift (Scalar.square (cosA * coshB))
  let v ← lift (Scalar.square (sinA * sinhB))
  ratio .sec z (cosA * coshB) (sinA * sinhB) (u + v)

/-- The conjugate of the sine over its squared magnitude. -/
def csc (z : Cartesian α) : Computed α (Cartesian α) := do
  let cosA ← lift (Scalar.cos z.re)
  let sinA ← lift (Scalar.sin z.re)
  let coshB ← lift (Scalar.cosh z.im)
  let sinhB ← lift (Scalar.sinh z.im)
  let u ← lift (Scalar.square (sinA * coshB))
  let v ← lift (Scalar.square (cosA * sinhB))
  ratio .csc z (sinA * coshB) (-cosA * sinhB) (u + v)

def sinh (z : Cartesian α) : Computed α (Cartesian α) := do
  let sinhA ← lift (Scalar.sinh z.re)
  let cosB ← lift (Scalar.cos z.im)
  let coshA ← lift (Scalar.cosh z.re)
  let sinB ← lift (Scalar.sin z.im)
  return ⟨sinhA * cosB, coshA * sinB⟩

def cosh (z : Cartesian α) : Computed α (Cartesian α) := do
  let coshA ← lift (Scalar.cosh z.re)
  let cosB ← lift (Scalar.cos z.im)
  let sinhA ← lift (Scalar.sinh z.re)
  let sinB ← lift (Scalar.sin z.im)
  return ⟨coshA * cosB, sinhA * sinB⟩

/-- With both parts doubled: `(sinh 2a + i sin 2b) / (cosh 2a + cos 2b)`. -/
def tanh (z : Cartesian α) : Computed α (Cartesian α) := do
  let a := Scalar.two * z.re
  let b := Scalar.two * z.im
  let coshA ← lift (Scalar.cosh a)
  let cosB ← lift (Scalar.cos b)
  let sinhA ← lift (Scalar.sinh a)
  let sinB ← lift (Scalar.sin b)
  ratio .tanh z sinhA sinB (coshA + cosB)

/-- With both parts doubled: `(sinh 2a - i sin 2b) / (cosh 2a - cos 2b)`. -/
def coth (z : Cartesian α) : Computed α (Cartesian α) := do
  let a := Scalar.two * z.re
  let b := Scalar.two * z.im
  let coshA ← lift (Scalar.cosh a)
  let cosB ← lift (Scalar.cos b)
  let sinhA ← lift (Scalar.sinh a)
  let sinB ← lift (Scalar.sin b)
  ratio .coth z sinhA (-sinB) (coshA - cosB)

/-- The conjugate of the hyperbolic cosine over its squared magnitude. -/
def sech (z : Cartesian α) : Computed α (Cartesian α) := do
  let coshA ← lift (Scalar.cosh z.re)
  let sinhA ← lift (Scalar.sinh z.re)
  let cosB ← lift (Scalar.cos z.im)
  let sinB ← lift (Scalar.sin z.im)
  let u ← lift (Scalar.square (coshA * cosB))
  let v ← lift (Scalar.square (sinhA * sinB))
  ratio .sech z (coshA * cosB) (-sinhA * sinB) (u + v)

/-- The conjugate of the hyperbolic sine over its squared magnitude. -/
def csch (z : Cartesian α) : Computed α (Cartesian α) := do
  let coshA ← lift (Scalar.cosh z.re)
  let sinhA ← lift (Scalar.sinh z.re)
  let cosB ← lift (Scalar.cos z.im)
  let sinB ← lift (Scalar.sin z.im)
  let u ← lift (Scalar.square (sinhA * cosB))
  let v ← lift (Scalar.square (coshA * sinB))
  ratio .csch z (sinhA * cosB) (-coshA * sinB) (u + v)

/-! ## Inverse functions -/

/-- A composite formula for `f`, in which an inner division by zero is a pole of `f` at `z`. -/
def atPole (f : UnaryOp) (z : Cartesian α) (r : Computed α (Cartesian α)) :
    Computed α (Cartesian α) :=
  match r with
  | .error e => if e.isDivision then .error (.complexDomain f z) else .error e
  | .ok w => .ok w

/-- `ln (i z + √(1 - z²)) / i` -/
def arcsin (z : Cartesian α) : Computed α (Cartesian α) :=
  atPole .arcsin z do
    let root ← sqrt (sub one (mul z z))
    let l ← ln (add (mul i z) root)
    div l i

/-- `ln (z + √(z² - 1)) / i` -/
def arccos (z : Cartesian α) : Computed α (Cartesian α) :=
  atPole .arccos z do
    let root ← sqrt (sub (mul z z) one)
    let l ← ln (add z root)
    div l i

/-- `ln ((i - z) / (i + z)) / 2i` -/
def arctan (z : Cartesian α) : Computed α (Cartesian α) :=
  atPole .arctan z do
    let q ← div (sub i z) (add i z)
    let l ← ln q
    div l twoI

/-- `ln ((z + i) / (z - i)) / 2i` -/
def arccot (z : Cartesian α) : Computed α (Cartesian α) :=
  atPole .arccot z do
    let q ← div (add z i) (sub z i)
    let l ← ln q
    div l twoI

/-- `ln ((1 + √(1 - z²)) / z) / i` -/
def arcsec (z : Cartesian α) : Computed α (Cartesian α) :=
  atPole .arcsec z do
    let root ← sqrt (sub one (mul z z))
    let q ← div (add one root) z
    let l ← ln q
    div l i

/-- `ln ((i + √(z² - 1)) / z) / i` -/
def arccsc (z : Cartesian α) : Computed α (Cartesian α) :=
  atPole .arccsc z do
    let root ← sqrt (sub (mul z z) one)
    let q ← div (add i root) z
    let l ← ln q
    div l i

/-- `ln (√(z² + 1) + z)` -/
def arcsinh (z : Cartesian α) : Computed α (Cartesian α) :=
  atPole .arcsinh z do
    let root ← sqrt (add (mul z z) one)
    ln (add root z)

/-- `ln (√(z² - 1) + z)` -/
def arccosh (z : Cartesian α) : Computed α (Cartesian α) :=
  atPole .arccosh z do
    let root ← sqrt (sub (mul z z) one)
    ln (add root z)

/-- `ln ((z + 1) / (1 - z)) / 2` -/
def arctanh (z : Cartesian α) : Computed α (Cartesian α) :=
  atPole .arctanh z do
    let q ← div (add z one) (sub one z)
    let l ← ln q
    div l two

/-- `ln ((z + 1) / (z - 1)) / 2` -/
def arccoth (z : Cartesian α) : Computed α (Cartesian α) :=
  atPole .arccoth z do
    let q ← div (add z one) (sub z one)
    let l ← ln q
    div l two

/-- `ln ((√(1 - z²) + 1) / z)` -/
def arcsech (z : Cartesian α) : Computed α (Cartesian α) :=
  atPole .arcsech z do
    let root ← sqrt (sub one (mul z z))
    let q ← div (add root one) z
    ln q

/-- `ln ((√(z² + 1) + 1) / z)` -/
def arccsch (z : Cartesian α) : Computed α (Cartesian α) :=
  atPole .arccsch z do
    let root ← sqrt (add (mul z z) one)
    let q ← div (add root one) z
    ln q

end Cartesian

end Formulary
