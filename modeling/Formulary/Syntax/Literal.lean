import Formulary.Arithmetic.Elementary
import Formulary.Syntax.Error
import Formulary.Text.Blank
import Formulary.Value.Display

/-!
# Reading values

Complex numbers are written as a real part and an imaginary part with an `i` behind it, and either
may be missing: `2+1i`, `-3.5i`, `i`, `4`. A binding of a variable is a name, an equals sign and a
value, which is a number of either kind or a boolean.
-/

namespace Formulary

/-- The index of the last sign in a text, if it has one. -/
def lastSign? (text : List Char) : Option Nat :=
  match text.reverse.findIdx? fun c => c == '+' || c == '-' with
  | some k => some (text.length - 1 - k)
  | none => none

/-- The imaginary part in front of the `i`: a sign alone stands for one. -/
def readImaginary (f : NumberFormat) (text : List Char) : Except NumberError Float :=
  if text = [] ∨ text = ['+'] then .ok 1.0
  else if text = ['-'] then .ok (-1.0)
  else f.read text

/-- The complex number that a text spells. The last sign, unless it comes first, separates the
parts. -/
def readComplex (f : NumberFormat) (text : String) : Except ParseError (Cartesian Float) := do
  match (Text.compact text.toList).reverse with
  | [] => .error .emptyComplex
  | 'i' :: reversed =>
    let body := reversed.reverse
    let split := (lastSign? body).getD 0
    let im ← (readImaginary f (body.drop split)).mapError .number
    let re ← if split = 0 then pure 0.0 else (f.read (body.take split)).mapError .number
    return ⟨re, im⟩
  | reversed =>
    let re ← (f.read reversed.reverse).mapError .number
    return ⟨re, 0.0⟩

/-- Why a text is no binding. -/
inductive BindingError where
  /-- It is not of the form `name=value`. -/
  | form (text : String)
  /-- Its value cannot be read. -/
  | value (error : ParseError)

namespace BindingError

def kind : BindingError → ErrorKind
  | form _ => .invalidArgument
  | value e => e.kind

def message : BindingError → String
  | form text => "Invalid variable binding '" ++ text ++ "', expected name=value"
  | value e => e.message

end BindingError

/-- A name and its value, written as `name=value`. -/
def readBinding (f : NumberFormat) (text : String) :
    Except BindingError (String × Value Float) := do
  let chars := text.toList
  let name := String.ofList (Text.trim (chars.takeWhile (· != '=')))
  let value := Text.trim ((chars.dropWhile (· != '=')).drop 1)
  if name.isEmpty ∨ value.isEmpty then .error (.form text)
  else if value = "true".toList then return (name, .boolean true)
  else if value = "false".toList then return (name, .boolean false)
  else if value.getLast? = some 'i' then
    let z ← (readComplex f (String.ofList value)).mapError .value
    return (name, .complex z)
  else
    let x ← (f.read value).mapError (.value ∘ .number)
    return (name, .real x)

end Formulary
