import Formulary.Number.Binary64

/-!
# The shortest decimal that reads back

Every finite binary64 number stands for an interval of reals: those that are nearer to it than to
any other binary64 number, the ends included exactly when its mantissa is even. `shortest x` is a
decimal inside that interval with as few digits as possible and, among those, the one nearest to
`x`. It is found by trying 1, 2, … 17 digits: on the grid of decimals with that many digits only the
two neighbours of `x` have to be looked at, because if any grid point lies in the interval, one of
these does.

Everything is counted in quarters of the last place, so that the interval's ends are integers.
-/

namespace Formulary

/-- The number `coefficient * 10 ^ exponent`. -/
structure Decimal where
  coefficient : Nat
  exponent : Int
deriving DecidableEq, Repr

/-- The exponent `t` with `10 ^ t ≤ num / den < 10 ^ (t + 1)`, for a positive quotient. The binary
exponent gives it up to one. -/
def decimalExponent (num den : Nat) : Int :=
  let guess := ((num.log2 : Int) - den.log2) * 30103 / 100000
  if num * tenTo (-guess).toNat < den * tenTo guess.toNat then guess - 1
  else if den * tenTo (guess + 1).toNat ≤ num * tenTo (-(guess + 1)).toNat then guess + 1
  else guess

namespace Binary64

/-- Four times the magnitude, counted in last places. -/
def centre (x : Float) : Nat := 4 * mantissa x

/-- The lower end of the interval that rounds to `x`: half a place down, or a quarter where the
places get narrower below a power of two. -/
def lowerEnd (x : Float) : Nat :=
  if mantissa x = twoTo 52 ∧ -1074 < exponent x then centre x - 1 else centre x - 2

/-- The upper end of the interval that rounds to `x`. -/
def upperEnd (x : Float) : Nat := centre x + 2

/-- Does `num / den`, in quarters of the last place, round to `x`? -/
def roundsTo (x : Float) (num den : Nat) : Bool :=
  if mantissa x % 2 = 0 then lowerEnd x * den ≤ num && num ≤ upperEnd x * den
  else lowerEnd x * den < num && num < upperEnd x * den

/-- The decimals around `x` on the grid of multiples of `10 ^ q`: the best one that rounds to `x`,
if there is one. Of two, the nearer wins, and of two equally near the even one. -/
def onGrid? (x : Float) (q : Int) : Option Decimal :=
  let step := tenTo q.toNat * twoTo (2 - exponent x).toNat
  let unit := tenTo (-q).toNat * twoTo (exponent x - 2).toNat
  let value := centre x * unit
  let below := value / step
  let belowFits := roundsTo x (below * step) unit
  let aboveFits := roundsTo x ((below + 1) * step) unit
  let best := roundDiv value step
  if belowFits && aboveFits then some ⟨best, q⟩
  else if belowFits then some ⟨below, q⟩
  else if aboveFits then some ⟨below + 1, q⟩
  else none

/-- The first grid, from `n` digits on, that holds a decimal for `x`; `tries` bounds the search. -/
def shortestFrom (x : Float) (top : Int) : (tries n : Nat) → Decimal
  | 0, n => ⟨roundDiv (numerator x * tenTo (n - 1 - top).toNat)
      (denominator x * tenTo (top - n + 1).toNat), top - n + 1⟩
  | tries + 1, n =>
    match onGrid? x (top - n + 1) with
    | some d => d
    | none => shortestFrom x top tries (n + 1)

/-- The shortest decimal that reads back as the magnitude of a finite number. -/
def shortest (x : Float) : Decimal :=
  if isZero x then ⟨0, 0⟩
  else shortestFrom x (decimalExponent (numerator x) (denominator x)) 16 1

end Binary64

end Formulary
