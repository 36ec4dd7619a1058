import Formulary.Arithmetic.Cartesian

/-!
# Real arithmetic

The operations on real values. Each checks its domain first, so that an argument outside it is an
error and not a NaN; powers, exponentials and hyperbolic functions that are too large become
infinite instead of failing.
-/

namespace Formulary.RealFunction

variable {α : Type} [Scalar α]

open Scalar (zero one le lt isZero isNegative quotient)

/-- The function is undefined for its argument. -/
def undefined {β : Type} (f : UnaryOp) (x : α) : Computed α β := .error (.realDomain f x)

/-- An elementary function whose overflow is the infinity `limit`. -/
def saturating (limit : α) : Except Fault α → Computed α α
  | .error .overflow => .ok limit
  | r => lift r

/-- A quotient whose divisor has been checked. -/
def ratio (x y : α) : Computed α α := lift (quotient x y)

/-! ## Arithmetic -/

def div (x y : α) : Computed α α :=
  if isZero y then .error (.realDivision x) else ratio x y

/-- A power that is too large is infinite, with the sign of the base if the exponent is odd. -/
def pow (base exponent : α) : Computed α α :=
  if isZero base && isNegative exponent then .error (.realZeroPower exponent)
  else
    match Scalar.power base exponent with
    | .error .domain => .error (.realPower base exponent)
    | r =>
      let negative := isNegative base && Scalar.isOddInteger exponent
      saturating (if negative then -Scalar.infinity else Scalar.infinity) r

def sgn (x : α) : α :=
  if isNegative x then -one
  else if lt zero x then one
  else zero

def sqrt (x : α) : Computed α α :=
  if isNegative x then undefined .sqrt x else lift (Scalar.sqrt x)

def exp (x : α) : Computed α α := saturating Scalar.infinity (Scalar.exp x)

def ln (x : α) : Computed α α :=
  if le x zero then undefined .ln x else lift (Scalar.log x)

def log10 (x : α) : Computed α α :=
  if le x zero then undefined .log10 x else lift (Scalar.log10 x)

/-! ## Comparison -/

/-- Two numbers of which neither is below the other count as equal in order. -/
def compare (x y : α) : Ordering :=
  if lt x y then .lt
  else if lt y x then .gt
  else .eq

/-! ## Trigonometric functions -/

def cot (x : α) : Computed α α := do
  let s ← lift (Scalar.sin x)
  if isZero s then undefined .cot x
  else
    let c ← lift (Scalar.cos x)
    ratio c s

def sec (x : α) : Computed α α := do
  let c ← lift (Scalar.cos x)
  if isZero c then undefined .sec x else ratio one c

def csc (x : α) : Computed α α := do
  let s ← lift (Scalar.sin x)
  if isZero s then undefined .csc x else ratio one s

/-- Between `-1` and `1`, the ends included. -/
def inUnitRange (x : α) : Bool := le (-one) x && le x one

/-- Between `-1` and `1`, the ends excluded. -/
def insideUnitRange (x : α) : Bool := lt (-one) x && lt x one

def arcsin (x : α) : Computed α α :=
  if inUnitRange x then lift (Scalar.asin x) else undefined .arcsin x

def arccos (x : α) : Computed α α :=
  if inUnitRange x then lift (Scalar.acos x) else undefined .arccos x

/-- The branch with values between `0` and `π`. -/
def arccot (x : α) : Computed α α := do
  if isZero x then undefined .arccot x
  else
    let result ← lift (Scalar.atan (← ratio one x))
    return if isNegative x then result + Scalar.pi else result

def arcsec (x : α) : Computed α α := do
  if insideUnitRange x then undefined .arcsec x else lift (Scalar.acos (← ratio one x))

def arccsc (x : α) : Computed α α := do
  if insideUnitRange x then undefined .arccsc x else lift (Scalar.asin (← ratio one x))

/-! ## Hyperbolic functions -/

def sinh (x : α) : Computed α α :=
  saturating (if isNegative x then -Scalar.infinity else Scalar.infinity) (Scalar.sinh x)

def cosh (x : α) : Computed α α := saturating Scalar.infinity (Scalar.cosh x)

def coth (x : α) : Computed α α := do
  if isZero x then undefined .coth x else ratio one (← lift (Scalar.tanh x))

def sech (x : α) : Computed α α := do ratio one (← cosh x)

def csch (x : α) : Computed α α := do
  if isZero x then undefined .csch x else ratio one (← sinh x)

def arccosh (x : α) : Computed α α :=
  if lt x one then undefined .arccosh x else lift (Scalar.acosh x)

def arctanh (x : α) : Computed α α :=
  if insideUnitRange x then lift (Scalar.atanh x) else undefined .arctanh x

/-- `ln ((x + 1) / (x - 1)) / 2` -/
def arccoth (x : α) : Computed α α := do
  if inUnitRange x then undefined .arccoth x
  else
    let l ← lift (Scalar.log (← ratio (x + one) (x - one)))
    return Scalar.half * l

/-- `ln ((1 + √(1 - x²)) / x)` -/
def arcsech (x : α) : Computed α α := do
  if lt zero x && le x one then
    let root ← lift (Scalar.sqrt (one - x * x))
    lift (Scalar.log (← ratio (one + root) x))
  else undefined .arcsech x

/-- `ln ((1 ± √(1 + x²)) / x)`, with the sign of `x`. -/
def arccsch (x : α) : Computed α α := do
  if isZero x then undefined .arccsch x
  else
    let root ← lift (Scalar.sqrt (one + x * x))
    if lt zero x then lift (Scalar.log (← ratio (one + root) x))
    else lift (Scalar.log (← ratio (one - root) x))

end Formulary.RealFunction
