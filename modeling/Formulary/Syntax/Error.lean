import Formulary.Builtin
import Formulary.Number.Format
import Formulary.Report

/-!
# Errors of reading

`ParseError` lists everything that can be wrong with the text of a formula, of a function definition
or of a complex number. Positions count the characters of the text without its blanks.
-/

namespace Formulary

/-- The kinds of bracket. -/
inductive Bracket where
  | round
  | square
  | curly
deriving DecidableEq, Repr

namespace Bracket

def opening : Bracket → Char
  | round => '('
  | square => '['
  | curly => '\x7b'

def closing : Bracket → Char
  | round => ')'
  | square => ']'
  | curly => '\x7d'

def all : List Bracket := [round, square, curly]

/-- The kind of bracket that a character opens. -/
def opened? (c : Char) : Option Bracket := all.find? fun b => b.opening == c

/-- The kind of bracket that a character closes. -/
def closed? (c : Char) : Option Bracket := all.find? fun b => b.closing == c

end Bracket

/-- Why a text cannot be read. -/
inductive ParseError where
  /-- The formula is empty. -/
  | empty
  /-- The complex number is empty. -/
  | emptyComplex
  /-- A text is no number. -/
  | number (error : NumberError)
  /-- A definition has no signature or no body. -/
  | noBody (text argument : String)
  /-- The signature of a definition is malformed. -/
  | signature (text argument : String)
  /-- The name of a function would be read as something else. -/
  | hiddenName (name argument : String)
  /-- The name of a parameter is malformed or would be read as something else. -/
  | parameter (name params argument : String)
  /-- Two parameters have one name. -/
  | repeatedParameter (signature params : String)
  /-- The body of a function uses names that are no parameters. -/
  | unboundNames (names : List String) (text : String)
  /-- There is a function with this name already. -/
  | alreadyDefined (name given existing : String)
  /-- Brackets and functions are nested too deeply. -/
  | tooDeep (limit : Int) (position : Nat)
  /-- A character that is an operator only when doubled stands alone. -/
  | loneCharacter (c : Char) (position : Nat) (text : String)
  /-- A bracket is closed that is not open. -/
  | notOpen (bracket : Bracket) (position : Nat) (text : String)
  /-- A bracket is closed with one of another kind. -/
  | mismatch (bracket : Bracket) (openedAt : Nat) (closing : Bracket) (position : Nat)
      (text : String)
  /-- A bracket is never closed. -/
  | notClosed (bracket : Bracket) (position : Nat) (text : String)
  /-- An operator lacks an operand. -/
  | missingOperand (position : Nat) (text : String)
  /-- A function lacks its argument. -/
  | missingArgument (f : UnaryOp) (position : Nat) (text : String)
  /-- A call lacks its argument list. -/
  | noArgumentList (name : String) (position : Nat) (text separator : String)
  /-- A builtin function is called with too few or too many arguments. -/
  | builtinArity (f : Builtin) (given position : Nat) (text : String)
  /-- The loop variable of a series is no variable. -/
  | loopVariable (f : Builtin) (position : Nat) (text : String)
  /-- A user-defined function is called with too few or too many arguments. -/
  | arity (name : String) (expected given position : Nat) (text definition : String)
  /-- A part of the formula is nothing that can be read. -/
  | unknownToken (text : String) (position : Nat) (decimal : Char) (similar : List String)
  /-- An atom has no text. The passes before leave no such atom. -/
  | emptyAtom
  /-- There is no room for more pending calls. -/
  | exhausted

namespace ParseError

def kind : ParseError → ErrorKind
  | number (.unconvertible _) => .invalidArgument
  | emptyAtom => .missingArgument
  | exhausted => .exhausted
  | _ => .parse

/-- Two definitions, to show how one is written. -/
private def definitionExample (argument : String) : String :=
  "cube(x)=x^3 or pythagoras(a" ++ argument ++ "b)=sqrt(a^2+b^2)"

private def one (c : Char) : String := String.singleton c

/-- A position as a report has it. -/
private def place (position : Nat) : Option Int := some position

/-- The number of arguments that a builtin function takes. -/
private def takes (f : Builtin) : String :=
  if f.minArgs = f.maxArgs then toString f.minArgs
  else toString f.minArgs ++ " to " ++ toString f.maxArgs

def report : ParseError → Report
  | empty => {
      message := "Empty formula"
      expected := "A formula"
      example_ := "2+3*4"
      suggestion := "Provide a formula to parse" }
  | emptyComplex => {
      message := "Cannot parse an empty complex number"
      expected := "Complex number in the form re+imi"
      example_ := "2+1i" }
  | number (.notANumber text decimal) => {
      message := "Cannot parse number: " ++ text
      received := "Token: " ++ text
      expected := "A number using '" ++ one decimal ++ "' as decimal separator"
      example_ := "42 or 3" ++ one decimal ++ "14"
      suggestion :=
        "Check the spelling of function and variable names (lowercase letters only)" }
  | number (.unconvertible _) => { message := "" }
  | noBody text argument => {
      message := "Function definition needs a signature, '=' and a body"
      received := "Definition: " ++ text
      expected := "name(parameters)=body"
      example_ := definitionExample argument }
  | signature text argument => {
      message := "Invalid function signature: " ++ text
      received := "Signature: " ++ text
      expected := "A lowercase name followed by bracketed parameter names"
      example_ := definitionExample argument }
  | hiddenName name argument => {
      message := "Function name '" ++ name ++ "' is hidden by a builtin or constant"
      received := "Name: " ++ name
      suggestion := "Choose a name that does not start with a builtin function name"
      example_ := definitionExample argument }
  | parameter name params argument => {
      message := "Invalid parameter name: '" ++ name ++ "'"
      received := "Parameters: " ++ params
      expected := "Lowercase names that are not builtin function or constant names"
      example_ := definitionExample argument }
  | repeatedParameter heading params => {
      message := "Duplicate parameter names in '" ++ heading ++ "'"
      received := "Parameters: " ++ params
      expected := "Each parameter name used once" }
  | unboundNames names text => {
      message := "Function body uses variables that are not parameters: " ++
        ", ".intercalate names
      received := "Definition: " ++ text
      context := "A function body can only see its own parameters"
      suggestion := "Add " ++ ", ".intercalate names ++ " to the parameter list" }
  | alreadyDefined name given existing => {
      message := "Function '" ++ name ++ "' is already defined"
      received := "Definition: " ++ given
      context := "Existing definition: " ++ existing
      suggestion := "Choose a different function name" }
  | tooDeep limit position => {
      message := "Formula too deeply nested (max depth: " ++ toString limit ++ ")"
      position := place position
      suggestion := "Reduce nesting depth or increase max_depth limit" }
  | loneCharacter c position text => {
      message := "Incomplete operator '" ++ one c ++ "'"
      position := place position
      received := "Text: " ++ text
      expected :=
        if c = '=' then "'==', '!=', '>=' or '<='" else "'" ++ one c ++ one c ++ "'"
      example_ := "x==2 or (x>1)&&(x<5)"
      suggestion := "Logic operators are written with two characters" }
  | notOpen bracket position text => {
      message := "Unexpected closing bracket '" ++ one bracket.closing ++ "'"
      position := place position
      received := "Text: " ++ text
      suggestion := "Remove the '" ++ one bracket.closing ++ "' or add a matching '" ++
        one bracket.opening ++ "'" }
  | mismatch bracket openedAt closing position text => {
      message := "Bracket '" ++ one bracket.opening ++ "' cannot be closed with '" ++
        one closing.closing ++ "'"
      position := place position
      received := "Text: " ++ text
      expected := "'" ++ one bracket.closing ++ "' to close the '" ++ one bracket.opening ++
        "' at position " ++ toString openedAt
      suggestion := "Brackets must be closed in the reverse order they were opened" }
  | notClosed bracket position text => {
      message := "Unterminated bracket '" ++ one bracket.opening ++ "'"
      position := place position
      received := "Text: " ++ text
      expected := "Closing '" ++ one bracket.closing ++ "'"
      suggestion := "Add '" ++ one bracket.closing ++ "' to close the bracket" }
  | missingOperand position text => {
      message := "Missing operand"
      position := place position
      received := "Text: " ++ text
      expected := "An operand on both sides of every operator"
      example_ := "2+3*4" }
  | missingArgument f position text => {
      message := "Function '" ++ f.name ++ "' is missing its argument"
      position := place position
      received := "Text: " ++ text
      example_ := exampleCall f.name }
  | noArgumentList name position text separator => {
      message := "Call of '" ++ name ++ "' must be followed by a bracketed argument list"
      position := place position
      received := "Text: " ++ text
      expected := name ++ "(arguments separated by '" ++ separator ++ "')"
      example_ := exampleCall name }
  | builtinArity f given position text => {
      message := "Function '" ++ f.name ++ "' takes " ++ takes f ++ " arguments, got " ++
        toString given
      position := place position
      received := "Call: " ++ text
      expected := f.usage
      example_ := exampleCall f.name }
  | loopVariable f position text => {
      message := "First argument of '" ++ f.name ++ "' must be a variable name"
      position := place position
      received := "Call: " ++ text
      expected := f.usage
      example_ := exampleCall f.name }
  | arity name expected given position text definition => {
      message := "Function '" ++ name ++ "' takes " ++ toString expected ++
        " arguments, got " ++ toString given
      position := place position
      received := "Call: " ++ text
      expected := definition }
  | unknownToken text position decimal similar => {
      message := "Unknown token: " ++ text
      position := place position
      received := "Token: " ++ text
      expected := "A number, variable, constant or function call"
      example_ := "3" ++ one decimal ++ "5, 2i, x, pi, sin(x)"
      suggestion :=
        if similar.isEmpty then "Names of functions and variables use lowercase letters only"
        else "Did you mean " ++ ", ".intercalate similar ++ "?" }
  | emptyAtom => { message := "string index out of range" }
  | exhausted => { message := "" }

/-- The whole wording of an error. -/
def message : ParseError → String
  | number (.unconvertible text) => "could not convert string to float: " ++ Text.quoted text
  | e => e.report.text

end ParseError

end Formulary
