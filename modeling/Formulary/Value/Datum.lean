import Formulary.Text.Quoted
import Formulary.Value.Display
import Formulary.Report

/-!
# Data offered as values

Whoever evaluates a formula binds its variables to data of their own. Booleans and numbers become
values, and integers become the nearest real number; a text, or nothing at all, has no equivalent.
-/

namespace Formulary

/-- Data that may become a value. -/
inductive Datum where
  | boolean (b : Bool)
  | real (x : Float)
  | complex (z : Cartesian Float)
  | integer (n : Int)
  | text (s : String)
  | nothing

/-- Why data is no value. -/
inductive DatumError where
  /-- It is of a type without values; `shown` is how reports show it. -/
  | notConvertible (typeName shown : String)
  /-- It is an integer beyond the largest number. -/
  | integerTooLarge
deriving DecidableEq, Repr

namespace DatumError

def kind : DatumError → ErrorKind
  | notConvertible .. => .notSupported
  | integerTooLarge => .integerTooLarge

def message : DatumError → String
  | notConvertible typeName shown =>
    Report.text {
      message := "Cannot convert " ++ typeName ++ " to a formula value"
      received := "Value: " ++ shown
      expected := "bool, int, float or complex" }
  | integerTooLarge => "int too large to convert to float"

end DatumError

/-- The value that data stands for. -/
def Datum.toValue : Datum → Except DatumError (Value Float)
  | boolean b => .ok (.boolean b)
  | real x => .ok (.real x)
  | complex z => .ok (.complex z)
  | integer n =>
    match Binary64.ofInt? n with
    | some x => .ok (.real x)
    | none => .error .integerTooLarge
  | text s => .error (.notConvertible "str" (Text.quoted s))
  | nothing => .error (.notConvertible "NoneType" "None")

end Formulary
