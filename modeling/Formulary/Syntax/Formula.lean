import Formulary.Pending
import Formulary.Registry
import Formulary.Syntax.Split
import Formulary.Text.Blank
import Formulary.Text.Similar
import Formulary.Arithmetic.Elementary

/-!
# Reading formulas

A formula is read in five passes, from the loosest operators to the tightest. Each pass cuts its
text at its own operators, hands the parts to the next pass, and joins the results from left to
right, so that `a^b^c` is `(a^b)^c`:

1. logic and comparison, where a part may start with any number of `!`;
2. sums, where a leading minus negates the first term;
3. products;
4. powers;
5. atoms: brackets, functions, calls, constants, variables and numbers.

## Nesting

Brackets, function arguments and argument lists are read from the first pass on again. `formula`
descends on the number of such levels that are still allowed, which is what makes it terminate; a
limit as large as the length of the text is never reached, because every level uses up a character.

Apart from that limit, `Language.maxPending` bounds the calls that may be pending besides those that
come to the whole text, and `pending` is the number of those that are. A pass takes three to come to
one of its parts: its own, one that joins the parts, and one that hands a part on. A `!` takes one,
a bracket or a function one, and a call three more for its arguments. The number is looked at where
it can grow, which is where a formula begins and at a `!`.
-/

namespace Formulary

/-- What the reading of a formula depends on. -/
structure Language where
  format : NumberFormat := .standard
  registry : Registry := {}
  /-- How deeply brackets and functions may be nested. -/
  maxDepth : Int := 100
  /-- How many calls may be pending. -/
  maxPending : CallLimit := .standard

/-- The outcome of reading a formula. -/
abbrev Parsed := Except ParseError (Expr Float)

namespace Syntax

/-- The characters that are operators only when doubled. -/
def lone : List Char := ['=', '&', '|', '#']

/-- The operators of one pass as delimiters. -/
def operators (ops : List BinaryOp) : List (Delimiter BinaryOp) :=
  ops.map fun op => ⟨op.symbol.toList, op⟩

def logicOperators : List (Delimiter BinaryOp) :=
  operators [.equal, .notEqual, .atLeast, .atMost, .and, .or, .xor, .greater, .less]

def sumOperators : List (Delimiter BinaryOp) := operators [.add, .sub]

def productOperators : List (Delimiter BinaryOp) := operators [.mul, .div]

def powerOperators : List (Delimiter BinaryOp) := operators [.pow]

/-- The constants that have names. -/
def constant? (text : List Char) : Option (Value Float) :=
  match String.ofList text with
  | "e" => some (.real Scalar.euler)
  | "pi" => some (.real Scalar.pi)
  | "i" => some (.complex .i)
  | "true" => some (.boolean true)
  | "false" => some (.boolean false)
  | _ => none

def isLowercase (c : Char) : Bool := 'a' ≤ c && c ≤ 'z'

/-- One or more lowercase letters. -/
def isName (text : List Char) : Bool := !text.isEmpty && text.all isLowercase

/-- Operands joined from left to right by the operators between them. -/
def foldLeft (read : Segment → Parsed) (first : Expr Float)
    (rest : List (Delimiter BinaryOp × Segment)) : Parsed :=
  rest.foldlM (fun left (d, part) => return .binary d.tag left (← read part)) first

/-- A text cut at operators, its parts read and joined. -/
def readSplit (delimiters : List (Delimiter BinaryOp)) (lone : List Char)
    (read : Segment → Parsed) (s : Segment) : Parsed := do
  let parts ← s.split delimiters lone
  foldLeft read (← read parts.first) parts.rest

/-! ## Atoms -/

/-- The leading ASCII letters of a text, in lower case. -/
def leadingWord (text : List Char) : String :=
  String.ofList ((text.takeWhile fun c => c.isAlpha).map Char.toLower)

/-- A number literal; with an `i` behind it, an imaginary one. -/
def number (lang : Language) (s : Segment) : Parsed :=
  let read : Except NumberError (Value Float) :=
    if s.text.getLast? = some 'i' then
      (lang.format.read s.text.dropLast).map fun x => .complex ⟨0.0, x⟩
    else (lang.format.read s.text).map .real
  match read with
  | .ok v => .ok (.const v)
  | .error (.notANumber ..) =>
    let known := Builtin.allNames ++ lang.registry.names
    .error (.unknownToken s.shown s.offset lang.format.decimal
      (Text.similarNames (leadingWord s.text) known 3))
  | .error e => .error (.number e)

/-- The arguments of a call of the function `name`, each read by `inner`. -/
def arguments (lang : Language) (inner : Segment → Parsed) (name : String) (s : Segment) :
    Except ParseError (List (Expr Float)) := do
  let list := s.drop name.length
  if list.text.head? = some '(' ∧ isWrapped list.text then
    if list.inner.text.isEmpty then return []
    else
      let parts ← list.inner.split [⟨lang.format.argument, ()⟩] []
      parts.parts.mapM inner
  else .error (.noArgumentList name list.offset s.shown lang.format.argumentText)

/-- A tree that is a variable. -/
def isVar : Expr Float → Bool
  | .var _ => true
  | _ => false

/-- A call of a builtin function with an argument list. -/
def builtinCall (lang : Language) (inner : Segment → Parsed) (f : Builtin) (s : Segment) :
    Parsed := do
  let args ← arguments lang inner f.name s
  if args.length < f.minArgs ∨ f.maxArgs < args.length then
    .error (.builtinArity f args.length s.offset s.shown)
  else if f.isSeries && !(args.head?.any isVar) then .error (.loopVariable f s.offset s.shown)
  else return .builtin f args

/-- A call of a user-defined function. -/
def userCall (lang : Language) (inner : Segment → Parsed) (d : Definition (Expr Float))
    (s : Segment) : Parsed := do
  let args ← arguments lang inner d.name s
  if args.length ≠ d.arity then
    .error (.arity d.name d.arity args.length s.offset s.shown
      (d.describe lang.format.argumentText))
  else return .apply d args

/-- An atom: the first of its forms that fits is taken. `inner` reads a formula inside it, given how
many calls are pending. -/
def atom (lang : Language) (inner : Nat → Segment → Parsed) (pending : Nat) (s : Segment) : Parsed :=
  if s.text.isEmpty then .error .emptyAtom
  else if isWrapped s.text then inner (pending + 1) s.inner
  else
    match UnaryOp.match? s.text with
    | some (f, rest) =>
      if rest.isEmpty then .error (.missingArgument f s.offset s.shown)
      else return .unary f (← inner (pending + 1) (s.drop f.name.length))
    | none =>
      match Builtin.match? s.text with
      | some f => builtinCall lang (inner (pending + 4)) f s
      | none =>
        match lang.registry.lookup? s.text with
        | some d => userCall lang (inner (pending + 4)) d s
        | none =>
          match constant? s.text with
          | some v => .ok (.const v)
          | none => if isName s.text then .ok (.var s.shown) else number lang s

/-! ## Operators -/

def power (lang : Language) (inner : Nat → Segment → Parsed) (pending : Nat) : Segment → Parsed :=
  readSplit powerOperators [] (atom lang inner (pending + 3))

def product (lang : Language) (inner : Nat → Segment → Parsed) (pending : Nat) : Segment → Parsed :=
  readSplit productOperators [] (power lang inner (pending + 3))

/-- A sum. An empty first part stands in front of a minus sign that negates the first term. -/
def sum (lang : Language) (inner : Nat → Segment → Parsed) (pending : Nat) (s : Segment) : Parsed := do
  let parts ← s.split sumOperators []
  match parts.first.text, parts.rest with
  | [], (_, part) :: rest =>
    let first := .unary .neg (← product lang inner (pending + 1) part)
    foldLeft (product lang inner (pending + 3)) first rest
  | _, rest =>
    foldLeft (product lang inner (pending + 3)) (← product lang inner (pending + 3) parts.first) rest

/-- Is there no room for so many pending calls? -/
def isExhausted (lang : Language) (pending : Nat) : Bool := lang.maxPending.isExceeded pending

theorem isExhausted_of_none {lang : Language} (h : lang.maxPending = none) (pending : Nat) :
    isExhausted lang pending = false := by
  rw [isExhausted, h, CallLimit.isExceeded_none]

/-- A part of a logic formula: a sum with any number of `!` in front. -/
def operand (lang : Language) (inner : Nat → Segment → Parsed) :
    (pending offset : Nat) → List Char → Parsed
  | pending, offset, c :: cs =>
    if c = '!' then
      if isExhausted lang pending then .error .exhausted
      else return .unary .not (← operand lang inner (pending + 1) (offset + 1) cs)
    else sum lang inner (pending + 1) ⟨c :: cs, offset⟩
  | pending, offset, [] => sum lang inner (pending + 1) ⟨[], offset⟩

/-- A formula that may be nested `levels` deep, itself included. -/
def formula (lang : Language) : (levels pending : Nat) → Segment → Parsed
  | 0, _, s => .error (.tooDeep lang.maxDepth s.offset)
  | levels + 1, pending, s =>
    if isExhausted lang pending then .error .exhausted
    else
      readSplit logicOperators lone
        (fun part => operand lang (formula lang levels) (pending + 3) part.offset part.text) s

end Syntax

namespace Language

/-- The levels that a formula may have: the outermost one is none of those that a limit counts. -/
def levels (lang : Language) : Nat := (lang.maxDepth + 1).toNat

/-- The tree of a formula. Blanks do not matter. -/
def parse (lang : Language) (text : String) : Parsed :=
  match Text.compact text.toList with
  | [] => .error .empty
  | compact => Syntax.formula lang lang.levels 0 ⟨compact, 0⟩

end Language

end Formulary
