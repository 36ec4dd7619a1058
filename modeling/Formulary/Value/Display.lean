import Formulary.Arithmetic.Elementary
import Formulary.Number.Format
import Formulary.Value.Basic

/-!
# Values as text

A value has three texts. `describe` rounds it for display; `spelled` shows all its digits in a
report; `rendered` writes it as an operand of a formula, with every digit, so that it is read back
as the same value.
-/

namespace Formulary.Value

/-- `true` or `false`. -/
def booleanText (b : Bool) : String := if b then "true" else "false"

/-- The text with a plus sign in front, unless it starts with a minus sign. -/
def signed (text : String) : String := if text.startsWith "-" then text else "+" ++ text

/-- The value rounded to the format's decimal places. A complex number has no imaginary term if its
imaginary part is zero. -/
def describeWith (f : NumberFormat) : Value Float → String
  | boolean b => booleanText b
  | real x => f.displayed x
  | complex z =>
    if Scalar.isZero z.im then f.displayed z.re
    else f.displayed z.re ++ signed (f.displayed z.im) ++ "i"

/-- The same, if every number in it keeps within the capacity of a display. -/
def describeWith? (f : NumberFormat) (v : Value Float) : Option String :=
  let fits := match v with
    | boolean _ => true
    | real x => f.canDisplay x
    | complex z => f.canDisplay z.re && (Scalar.isZero z.im || f.canDisplay z.im)
  if fits then some (v.describeWith f) else none

/-- The value as reports show it, in the standard number format. -/
def describe (v : Value Float) : String := v.describeWith .standard

/-- The value with all its digits, as reports show the exact operand. -/
def spelled : Value Float → String
  | boolean b => if b then "True" else "False"
  | real x => Binary64.spelled x
  | complex z => Binary64.spelledComplex z.re z.im

/-- The value as an operand of a formula. Negative and complex numbers are bracketed, so that they
stay a single operand. -/
def rendered (f : NumberFormat) : Value Float → String
  | boolean b => booleanText b
  | real x =>
    let text := f.exact x
    if text.startsWith "-" then "(" ++ text ++ ")" else text
  | complex z => "(" ++ f.exact z.re ++ signed (f.exact z.im) ++ "i)"

end Formulary.Value
