import Formulary.Number.Shortest

/-!
# Layouts of decimal numbers

One number has several texts, and all of them are made here from exact digits:

* `plain`: every digit written out, never an exponent (`0.000000001`);
* `spelled`: the shortest text that reads back, with an exponent for very large and very small
  numbers (`1e-09`), as reports of operands show it;
* `spelledComplex`: the same for a pair of components (`(1+2j)`);
* `scientific`: a chosen number of significant digits (`1.50e+00`);
* `fixed`: a chosen number of decimal places, without the zeros at their end.

The decisions that are no mathematics, such as where `spelled` changes to an exponent, are the
constants at the head of each section.
-/

namespace Formulary

/-- The decimal digits of a natural number, without leading zeros. -/
def digitsOf (n : Nat) : List Char := Nat.toDigits 10 n

/-- The list without the zeros at its end. -/
def dropTrailingZeros (digits : List Char) : List Char :=
  (digits.reverse.dropWhile (· == '0')).reverse

/-- Zeros in front until the list has at least `width` digits. -/
def padLeft (width : Nat) (digits : List Char) : List Char :=
  List.replicate (width - digits.length) '0' ++ digits

/-- A separator in front of every group of three digits, counted from the right. -/
def groupThousands (separator : Char) : List Char → List Char
  | [] => []
  | d :: ds =>
    if ds.length % 3 = 0 ∧ ds ≠ [] then d :: separator :: groupThousands separator ds
    else d :: groupThousands separator ds

namespace Decimal

/-- The same number with its coefficient's trailing zeros moved into the exponent. -/
def trimmed (d : Decimal) : Decimal :=
  if d.coefficient = 0 then ⟨0, 0⟩
  else
    let digits := digitsOf d.coefficient
    let zeros := digits.length - (dropTrailingZeros digits).length
    ⟨d.coefficient / tenTo zeros, d.exponent + zeros⟩

/-- The digits before and after the decimal separator. -/
def places (d : Decimal) : List Char × List Char :=
  if 0 ≤ d.exponent then (digitsOf (d.coefficient * tenTo d.exponent.toNat), [])
  else
    let fraction := (-d.exponent).toNat
    let digits := padLeft (fraction + 1) (digitsOf d.coefficient)
    (digits.take (digits.length - fraction), digits.drop (digits.length - fraction))

/-- Every digit written out. -/
def plain (separator : Char) (d : Decimal) : List Char :=
  match d.places with
  | (whole, []) => whole
  | (whole, fraction) => whole ++ separator :: fraction

end Decimal

namespace Binary64

/-- The texts that are no numbers. -/
def specialText (x : Float) : List Char :=
  if magnitudeBits x != infinityBits then "nan".toList
  else if isNegative x then "-inf".toList
  else "inf".toList

/-- A minus sign for every number whose sign bit is set, a zero too. -/
def signText (x : Float) : List Char := if isNegative x then ['-'] else []

/-- An exponent with its sign and at least two digits. -/
def exponentText (e : Int) : List Char :=
  (if e < 0 then '-' else '+') :: padLeft 2 (digitsOf e.natAbs)

/-- All digits of the shortest decimal, written out. -/
def plain (separator : Char) (x : Float) : List Char :=
  if isFinite x then signText x ++ (shortest x).trimmed.plain separator else specialText x

/-! ## Spelled numbers -/

/-- Numbers from `10 ^ positionalFrom` on are written without an exponent … -/
def positionalFrom : Int := -4

/-- … and numbers from `10 ^ positionalUpTo` on with one again. -/
def positionalUpTo : Int := 16

/-- The spelling of a finite number; `point` is what an integer has after its digits. -/
private def spelledWith (point : List Char) (x : Float) : List Char :=
  let d := (shortest x).trimmed
  let digits := digitsOf d.coefficient
  let top := d.exponent + digits.length - 1
  if positionalFrom ≤ top ∧ top < positionalUpTo then
    match d.places with
    | (whole, []) => signText x ++ whole ++ point
    | (whole, fraction) => signText x ++ whole ++ '.' :: fraction
  else
    let fraction := if digits.length ≤ 1 then [] else '.' :: digits.drop 1
    signText x ++ digits.take 1 ++ fraction ++ 'e' :: exponentText top

/-- The shortest text that reads back, with `.0` after an integer. -/
def spelled (x : Float) : String :=
  String.ofList (if isFinite x then spelledWith ['.', '0'] x else specialText x)

/-- A component of a complex number is spelled without a trailing `.0`. -/
private def spelledComponent (x : Float) : List Char :=
  if isFinite x then spelledWith [] x else specialText x

/-- A complex number in brackets; a real part that is positive zero is left out with the
brackets. -/
def spelledComplex (re im : Float) : String :=
  let imText := spelledComponent im
  if isZero re && !isNegative re then String.ofList (imText ++ ['j'])
  else
    let imSigned := if imText.head? = some '-' then imText else '+' :: imText
    String.ofList ('(' :: spelledComponent re ++ imSigned ++ ['j', ')'])

/-! ## Scientific notation -/

/-- The magnitude of a finite number with `count` significant digits, rounded half to even. -/
private def significant (count : Nat) (x : Float) : List Char × Int :=
  if isZero x then (List.replicate count '0', 0)
  else
    let top := decimalExponent (numerator x) (denominator x)
    let place := top - (count - 1 : Nat)
    let n := roundDiv (numerator x * tenTo (-place).toNat) (denominator x * tenTo place.toNat)
    if n = tenTo count then (digitsOf (n / 10), top + 1) else (digitsOf n, top)

/-- Scientific notation with `count` significant digits, taken from the exact expansion. -/
def scientific (count : Nat) (x : Float) : String :=
  if isFinite x then
    let (digits, e) := significant count x
    let fraction := if digits.length ≤ 1 then [] else '.' :: digits.drop 1
    String.ofList (signText x ++ digits.take 1 ++ fraction ++ 'e' :: exponentText e)
  else String.ofList (specialText x)

/-! ## A fixed number of decimal places -/

/-- The magnitude in units of `10 ^ -places`, rounded half to even. -/
def scaled (places : Nat) (x : Float) : Nat :=
  roundDiv (numerator x * tenTo places) (denominator x)

/-- At most `places` decimal places; a number that rounds to zero has no sign. -/
def fixed (separator : Char) (grouping : Option Char) (places : Nat) (x : Float) : List Char :=
  if isFinite x then
    let n := scaled places x
    let whole := digitsOf (n / tenTo places)
    let fraction := dropTrailingZeros (padLeft places (digitsOf (n % tenTo places)))
    let sign := if n ≠ 0 ∧ isNegative x then ['-'] else []
    let grouped := match grouping with
      | some mark => groupThousands mark whole
      | none => whole
    sign ++ grouped ++ if places = 0 ∨ fraction = [] then [] else separator :: fraction
  else specialText x

end Binary64

end Formulary
