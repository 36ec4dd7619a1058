import Formulary.Number.Binary64

/-!
# The length of a vector, correctly rounded

`hypotenuse x y` is the binary64 number nearest to `√(x² + y²)`. The sum of the squares is taken
exactly; it is widened by a power of four until its integer root has more bits than a mantissa
holds, and a last bit records whether the root was exact, so that the final rounding is the only
one.
-/

namespace Formulary.Binary64

/-- The integer square root: the largest `r` with `r * r ≤ n`. -/
def squareRoot (n : Nat) : Nat :=
  if h : n = 0 then 0
  else
    let r := 2 * squareRoot (n / 4)
    if (r + 1) * (r + 1) ≤ n then r + 1 else r
termination_by n
decreasing_by omega

/-- The number nearest to `√(x² + y²)`; an infinite component makes it infinite, also beside a
NaN. -/
def hypotenuse (x y : Float) : Float :=
  if magnitudeBits x == infinityBits || magnitudeBits y == infinityBits then infinity
  else if !isFinite x || !isFinite y then notANumber
  else
    let e := min (exponent x) (exponent y)
    let a := mantissa x * twoTo (exponent x - e).toNat
    let b := mantissa y * twoTo (exponent y - e).toNat
    let square := a * a + b * b
    let widening := 64 - square.log2 / 2
    let wide := square * twoTo (2 * widening)
    let root := squareRoot wide
    let sticky := if root * root = wide then 0 else 1
    let last : Int := e - widening - 1
    nearest false ((2 * root + sticky) * twoTo last.toNat) (twoTo (-last).toNat)

end Formulary.Binary64
