import Formulary.Expr.Derivative
import Formulary.Syntax.Literal

/-!
# Failures

`Failure` is the sum of everything that can go wrong in the library, so that a caller who uses
several of its parts has one type to deal with. `kind` classifies a failure and `message` words it.
-/

namespace Formulary

/-- Whatever can go wrong. -/
inductive Failure where
  /-- A text cannot be read. -/
  | parse (error : ParseError)
  /-- An evaluation has no value. -/
  | evaluation (error : EvalError Float)
  /-- There is no derivative or antiderivative. -/
  | derivative (error : DerivativeError Float)
  /-- Data is no value. -/
  | datum (error : DatumError)
  /-- Settings make no number format. -/
  | settings (error : SettingsError)
  /-- A text is no binding of a variable. -/
  | binding (error : BindingError)
  /-- A number has too many digits to be displayed. -/
  | tooManyDigits
  /-- A tree of this sort does not have the child that was to be replaced. -/
  | noChild (sort : String)
  /-- Nothing has this name or symbol. -/
  | unknownName (name : String)
  /-- A number of suggestions is not positive. -/
  | suggestionCount (count : Int)
  /-- An option of a command line has no value. -/
  | noValue
  /-- There is no room for more pending calls. -/
  | exhausted

namespace Failure

def kind : Failure → ErrorKind
  | parse e => e.kind
  | evaluation e => e.kind
  | derivative e => e.kind
  | datum e => e.kind
  | settings _ => .invalidArgument
  | binding e => e.kind
  | tooManyDigits => .tooManyDigits
  | noChild _ => .invalidArgument
  | unknownName _ => .unknownOperator
  | suggestionCount _ => .invalidArgument
  | noValue => .noValue
  | exhausted => .exhausted

def message : Failure → String
  | parse e => e.message
  | evaluation e => e.report.text
  | derivative .exhausted => ""
  | derivative e => e.report.text
  | datum e => e.message
  | settings e => e.message
  | binding e => e.message
  | tooManyDigits => "Too many digits to display"
  | noChild sort => sort ++ " has no child to replace"
  | unknownName name => "Unknown name: " ++ name
  | suggestionCount count => "n must be > 0: " ++ toString count
  | noValue => "An option has no value"
  | exhausted => ""

end Failure

/-- At most `count` names that are similar to a name. Where there is nothing to compare, the count
does not matter. -/
def suggestNames (target : String) (names : List String) (count : Int) :
    Except Failure (List String) :=
  if target.isEmpty || names.isEmpty then .ok []
  else if count ≤ 0 then .error (.suggestionCount count)
  else .ok (Text.similarNames target names count.toNat)

end Formulary
