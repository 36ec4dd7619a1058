import Formulary.Number.Layout
import Formulary.Text.Digit
import Formulary.Text.Quoted

/-!
# Number formats

A number format says how the numbers of a formula are written: with which decimal separator, whether
and how digits are grouped, how many decimal places a displayed result has, and what separates the
arguments of a call. `NumberFormat.make` accepts `Settings` only if no two of these marks can be
confused; what it checks is kept as proofs in the type.

* `read` accepts a whole number text or nothing, and gives the nearest binary64 number;
* `display` rounds to the format's decimal places;
* `exact` writes every digit that is needed to read the same number back.
-/

namespace Formulary

open Text

/-- What a number format is made from. An empty argument separator stands for the usual one. -/
structure Settings where
  decimal : String := "."
  grouping : String := ","
  groupingUsed : Bool := false
  maxFractionDigits : Int := 3
  argument : String := ""

/-- Why settings make no number format. -/
inductive SettingsError where
  | decimal (text : String)
  | grouping (text : String)
  | groupingIsDecimal
  | negativePlaces (places : Int)
  | argumentIsDecimal
  | argumentIsGrouping
deriving DecidableEq, Repr

/-- The wording of a refusal. -/
def SettingsError.message : SettingsError → String
  | .decimal text => "Invalid decimal separator: " ++ quoted text
  | .grouping text => "Invalid grouping separator: " ++ quoted text
  | .groupingIsDecimal => "Grouping separator must differ from the decimal separator"
  | .negativePlaces places => "max_fraction_digits must not be negative, got " ++ toString places
  | .argumentIsDecimal => "Argument separator must differ from the decimal separator"
  | .argumentIsGrouping => "Argument separator must differ from the grouping separator"

/-- A number format whose marks cannot be confused. -/
structure NumberFormat where
  decimal : Char
  grouping : Char
  groupingUsed : Bool
  maxFractionDigits : Nat
  argument : List Char
  decimal_not_digit : isDigit decimal = false
  grouping_not_digit : isDigit grouping = false
  grouping_ne_decimal : groupingUsed = true → grouping ≠ decimal
  argument_ne_nil : argument ≠ []
  argument_ne_decimal : argument ≠ [decimal]
  argument_ne_grouping : groupingUsed = true → argument ≠ [grouping]

namespace Settings

/-- A separator is one character that is no digit. -/
def separator? (text : String) : Option { c : Char // isDigit c = false } :=
  match text.toList with
  | [c] => if h : isDigit c = false then some ⟨c, h⟩ else none
  | _ => none

/-- A comma separates arguments, or a semicolon where numbers need the comma. -/
def usualArgument (decimal grouping : Char) (groupingUsed : Bool) : List Char :=
  if decimal = ',' ∨ (groupingUsed = true ∧ grouping = ',') then [';'] else [',']

/-- The argument separator that settings ask for. -/
def argumentMark (s : Settings) (decimal grouping : Char) : List Char :=
  if s.argument.toList = [] then usualArgument decimal grouping s.groupingUsed
  else s.argument.toList

theorem argumentMark_ne_nil (s : Settings) (decimal grouping : Char) :
    s.argumentMark decimal grouping ≠ [] := by
  unfold argumentMark usualArgument
  split
  · split <;> simp
  · assumption

/-- The separators that a locale's conventions name. What is missing or unusable is replaced by the
usual mark. -/
def ofConventions (decimalPoint thousands : Option String) : Settings :=
  let point := match decimalPoint with
    | some text => if text.isEmpty then "." else text
    | none => "."
  let group := thousands.getD ""
  let usable := group.length = 1 ∧ group ≠ point
  { decimal := point, grouping := if usable then group else if point = "," then "." else "," }

/-- A decimal comma, and points between groups of digits. -/
def german : Settings := { decimal := ",", grouping := "." }

end Settings

namespace NumberFormat

/-- The number format for some settings, or the first reason why there is none. -/
def make (s : Settings) : Except SettingsError NumberFormat :=
  match Settings.separator? s.decimal with
  | none => .error (.decimal s.decimal)
  | some ⟨decimal, decimal_ok⟩ =>
    match Settings.separator? s.grouping with
    | none => .error (.grouping s.grouping)
    | some ⟨grouping, grouping_ok⟩ =>
      if distinct : s.groupingUsed = true ∧ grouping = decimal then .error .groupingIsDecimal
      else if s.maxFractionDigits < 0 then .error (.negativePlaces s.maxFractionDigits)
      else
        let argument := s.argumentMark decimal grouping
        if notDecimal : argument = [decimal] then .error .argumentIsDecimal
        else if notGrouping : s.groupingUsed = true ∧ argument = [grouping] then
          .error .argumentIsGrouping
        else
          .ok {
            decimal, grouping, groupingUsed := s.groupingUsed
            maxFractionDigits := s.maxFractionDigits.toNat, argument
            decimal_not_digit := decimal_ok, grouping_not_digit := grouping_ok
            grouping_ne_decimal := fun used same => distinct ⟨used, same⟩
            argument_ne_nil := s.argumentMark_ne_nil decimal grouping
            argument_ne_decimal := notDecimal
            argument_ne_grouping := fun used same => notGrouping ⟨used, same⟩ }

/-- A decimal point, no grouping, three decimal places and commas between arguments. -/
def standard : NumberFormat where
  decimal := '.'
  grouping := ','
  groupingUsed := false
  maxFractionDigits := 3
  argument := [',']
  decimal_not_digit := by decide
  grouping_not_digit := by decide
  grouping_ne_decimal := by decide
  argument_ne_nil := by decide
  argument_ne_decimal := by decide
  argument_ne_grouping := by decide

/-- The argument separator as text. -/
def argumentText (f : NumberFormat) : String := String.ofList f.argument

/-! ## Reading -/

/-- Groups of a mark and three digits. -/
def isTriples (mark : Char) : List Char → Bool
  | [] => true
  | m :: a :: b :: c :: rest =>
    m == mark && isDecimalDigit a && isDecimalDigit b && isDecimalDigit c && isTriples mark rest
  | _ => false

/-- One to three digits, followed by at least one group. -/
def isGrouped (mark : Char) (text : List Char) : Bool :=
  let first := text.takeWhile isDecimalDigit
  let rest := text.dropWhile isDecimalDigit
  1 ≤ first.length && first.length ≤ 3 && !rest.isEmpty && isTriples mark rest

/-- The part before the decimal separator: digits, in groups only if the format groups them. -/
def isWhole (f : NumberFormat) (text : List Char) : Bool :=
  (!text.isEmpty && text.all isDecimalDigit) || (f.groupingUsed && isGrouped f.grouping text)

/-- A number without a sign: a whole part with an optional fraction, or a fraction alone. -/
def isUnsigned (f : NumberFormat) (text : List Char) : Bool :=
  let whole := text.takeWhile (· != f.decimal)
  match text.dropWhile (· != f.decimal) with
  | [] => f.isWhole whole
  | _ :: fraction =>
    fraction.all isDecimalDigit && (f.isWhole whole || (whole.isEmpty && !fraction.isEmpty))

/-- Is the text a number of this format, with or without a sign? A separator may itself be a sign
character, so both readings are tried. -/
def isNumber (f : NumberFormat) (text : List Char) : Bool :=
  f.isUnsigned text ||
    match text with
    | c :: rest => (c == '+' || c == '-') && f.isUnsigned rest
    | [] => false

/-- The text without grouping and with a point as its decimal separator. -/
def normalized (f : NumberFormat) (text : List Char) : List Char :=
  (if f.groupingUsed then text.filter (· != f.grouping) else text).map fun c =>
    if c = f.decimal then '.' else c

end NumberFormat

/-- The natural number that a list of decimal digits spells. -/
def digitsValue (digits : List Char) : Nat :=
  digits.foldl (fun n c => 10 * n + (digitValue? c).getD 0) 0

/-- The binary64 number nearest to digits with an optional sign and point; nothing for any other
text. -/
def readDecimal? (text : List Char) : Option Float :=
  let negative := text.head? == some '-'
  let unsigned := if text.head? = some '-' ∨ text.head? = some '+' then text.tail else text
  let whole := unsigned.takeWhile isDecimalDigit
  let value (fraction : List Char) : Float :=
    Binary64.nearest negative (digitsValue (whole ++ fraction)) (tenTo fraction.length)
  match unsigned.dropWhile isDecimalDigit with
  | [] => if whole.isEmpty then none else some (value [])
  | '.' :: fraction =>
    if fraction.all isDecimalDigit && !(whole.isEmpty && fraction.isEmpty) then some (value fraction)
    else none
  | _ => none

/-- Why a text gives no number. -/
inductive NumberError where
  /-- It is not written in the format. -/
  | notANumber (text : String) (decimal : Char)
  /-- It is, but a separator that doubles as a sign leaves no number to convert. -/
  | unconvertible (text : String)
deriving DecidableEq, Repr

namespace NumberFormat

/-- The number that a whole text spells in this format. -/
def read (f : NumberFormat) (text : List Char) : Except NumberError Float :=
  if f.isNumber text then
    match readDecimal? (f.normalized text) with
    | some x => .ok x
    | none => .error (.unconvertible (String.ofList (f.normalized text)))
  else .error (.notANumber (String.ofList text) f.decimal)

/-! ## Writing -/

/-- A displayed number has at most this many digits. -/
def displayCapacity : Nat := 1200

/-- More decimal places than this are refused for every number, zero included. -/
def placesCapacity : Nat := 2002398

/-- No number but zero can be displayed with more decimal places than this: the smallest one has
its first digit at the 324th. -/
def usefulPlaces : Nat := displayCapacity + 324

/-- The number rounded to the format's decimal places. -/
def displayed (f : NumberFormat) (x : Float) : String :=
  if Binary64.isZero x then "0"
  else
    String.ofList (Binary64.fixed f.decimal (if f.groupingUsed then some f.grouping else none)
      f.maxFractionDigits x)

/-- Does the displayed number, with all its decimal places, keep within the capacity? -/
def canDisplay (f : NumberFormat) (x : Float) : Bool :=
  !Binary64.isFinite x ||
    (if Binary64.isZero x then f.maxFractionDigits ≤ placesCapacity
    else f.maxFractionDigits ≤ usefulPlaces &&
      Binary64.scaled f.maxFractionDigits x < tenTo displayCapacity)

/-- The number rounded to the format's decimal places, if it keeps within the capacity. -/
def display? (f : NumberFormat) (x : Float) : Option String :=
  if f.canDisplay x then some (f.displayed x) else none

/-- The shortest text without an exponent that reads back as the same number. -/
def exact (f : NumberFormat) (x : Float) : String := String.ofList (Binary64.plain f.decimal x)

end NumberFormat

end Formulary
