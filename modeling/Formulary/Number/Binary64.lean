import Formulary.Number.Rounding

/-!
# Binary64 numbers, taken apart and put together exactly

A finite binary64 number is a sign, a natural mantissa and a power of two. `mantissa` and
`exponent` read the last two off the bits, so that the magnitude of `x` is exactly
`mantissa x * 2 ^ exponent x`, and `nearest` goes the other way: it rounds a quotient of two natural
numbers to the nearest binary64 number.

## Shape of `nearest`

Let the exponent `e` of the last place be chosen so that the quotient divided by `2 ^ e` has 53 bits
(or fewer, where `e` is already the smallest exponent there is), and let `m` be that number rounded.
Then the bits of the result are `(e + 1074) * 2 ^ 52 + m`: this one formula serves normal and
subnormal numbers alike, carries into the exponent when rounding yields `2 ^ 53`, and passes
`infinityBits` exactly when the quotient is too large.
-/

namespace Formulary.Binary64

/-- The bits of positive infinity; larger magnitudes are no numbers. -/
def infinityBits : Nat := 2047 * twoTo 52

/-- Bit 63 is the sign. -/
def isNegative (x : Float) : Bool := twoTo 63 ≤ x.toBits.toNat

/-- All bits but the sign. -/
def magnitudeBits (x : Float) : Nat := x.toBits.toNat % twoTo 63

/-- Neither infinite nor a NaN. -/
def isFinite (x : Float) : Bool := magnitudeBits x < infinityBits

/-- One of the two zeros. -/
def isZero (x : Float) : Bool := magnitudeBits x == 0

/-- The mantissa of a finite number: 53 bits, or fewer for a subnormal number. -/
def mantissa (x : Float) : Nat :=
  let bits : Nat := magnitudeBits x
  if bits / twoTo 52 = 0 then bits else bits % twoTo 52 + twoTo 52

/-- The exponent of the last place of a finite number. -/
def exponent (x : Float) : Int :=
  let biased : Nat := magnitudeBits x / twoTo 52
  if biased = 0 then -1074 else (biased : Int) - 1075

/-- The numerator of the magnitude of a finite number. -/
def numerator (x : Float) : Nat := mantissa x * twoTo (exponent x).toNat

/-- The denominator of the magnitude of a finite number. -/
def denominator (x : Float) : Nat := twoTo (-exponent x).toNat

/-- The number with these magnitude bits and this sign. -/
def ofMagnitudeBits (negative : Bool) (bits : Nat) : Float :=
  Float.ofBits (UInt64.ofNat (if negative then bits + twoTo 63 else bits))

/-- Positive infinity. -/
def infinity : Float := ofMagnitudeBits false infinityBits

/-- A quotient that names no number. -/
def notANumber : Float := 0.0 / 0.0

/-- The exponent `t` with `2 ^ t ≤ num / den < 2 ^ (t + 1)`, for a positive quotient. -/
def topExponent (num den : Nat) : Int :=
  let d : Int := (num.log2 : Int) - den.log2
  if den * twoTo d.toNat ≤ num * twoTo (-d).toNat then d else d - 1

/-- The exponent of the last place of the binary64 numbers around a positive quotient. -/
def placeExponent (num den : Nat) : Int := max (topExponent num den - 52) (-1074)

/-- The magnitude bits of the binary64 number nearest to `num / den`, ties to the even mantissa. -/
def nearestBits (num den : Nat) : Nat :=
  if num = 0 then 0
  else
    let e := placeExponent num den
    let m := roundDiv (num * twoTo (-e).toNat) (den * twoTo e.toNat)
    min ((e + 1074).toNat * twoTo 52 + m) infinityBits

/-- The binary64 number nearest to `± num / den`; infinite beyond the largest number. -/
def nearest (negative : Bool) (num den : Nat) : Float :=
  ofMagnitudeBits negative (nearestBits num den)

/-- The binary64 number nearest to an integer. -/
def ofInt (n : Int) : Float := nearest (n < 0) n.natAbs 1

/-- The binary64 number nearest to an integer, unless that is infinite. -/
def ofInt? (n : Int) : Option Float :=
  if nearestBits n.natAbs 1 = infinityBits then none else some (ofInt n)

/-- The integer part of a finite number: the fraction is dropped, so it rounds toward zero. -/
def integerPart (x : Float) : Int :=
  let n := Int.ofNat (numerator x / denominator x)
  if isNegative x then -n else n

/-- The largest integer that is not above a finite number. -/
def floor (x : Float) : Int :=
  if isNegative x then -Int.ofNat ((numerator x + denominator x - 1) / denominator x)
  else Int.ofNat (numerator x / denominator x)

/-- A finite number rounded toward zero; infinities and NaN stay as they are. -/
def truncate (x : Float) : Float := if isFinite x then ofInt (integerPart x) else x

/-- An odd integer, as an exponent that keeps the sign of its base. -/
def isOddInteger (x : Float) : Bool :=
  isFinite x && numerator x % denominator x == 0 && numerator x / denominator x % 2 == 1

end Formulary.Binary64
