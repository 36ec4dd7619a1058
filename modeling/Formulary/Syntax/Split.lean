import Formulary.Syntax.Error

/-!
# Splitting a text at its delimiters

Formulas are read by splitting: a text is cut at every operator of one precedence level that stands
outside all brackets, and the parts are read by the next tighter level. An argument list is cut at
its separators in the same way.

`split` goes through the text once, from left to right, with a stack of the brackets that are open.
Of the delimiters that fit at one place the first in the list is taken, so longer spellings have to
come before shorter ones.
-/

namespace Formulary

/-- A piece of a formula, with its offset from the start of the formula. -/
structure Segment where
  text : List Char
  offset : Nat
deriving DecidableEq, Repr

namespace Segment

/-- What is left without the first `n` characters. -/
def drop (n : Nat) (s : Segment) : Segment := ⟨s.text.drop n, s.offset + n⟩

/-- What is left without the first and the last character. -/
def inner (s : Segment) : Segment := ⟨s.text.tail.dropLast, s.offset + 1⟩

/-- The segment's text as a report shows it. -/
def shown (s : Segment) : String := String.ofList s.text

end Segment

/-- A mark at which texts are split, with what it stands for. -/
structure Delimiter (κ : Type) where
  spelling : List Char
  tag : κ

/-- A text cut at delimiters: the first part, and each delimiter with the part behind it. -/
structure Split (κ : Type) where
  first : Segment
  rest : List (Delimiter κ × Segment)

namespace Split

variable {κ : Type}

/-- All parts, from left to right. -/
def parts (s : Split κ) : List Segment := s.first :: s.rest.map (·.2)

/-- The delimiters between the parts. -/
def delimiters (s : Split κ) : List (Delimiter κ) := s.rest.map (·.1)

/-- The first delimiter that begins the text. -/
def delimiterAt? (delimiters : List (Delimiter κ)) (text : List Char) : Option (Delimiter κ) :=
  delimiters.find? fun d => d.spelling.isPrefixOf text

/-- The part that a text begins with, and the parts that follow it with their delimiters.

`index` is the place of the text in `whole`, `stack` holds the open brackets with their places, and
`skip` counts the characters that still belong to the last delimiter. `lone` are the characters that
may not stand alone. -/
def scan (delimiters : List (Delimiter κ)) (lone : List Char) (whole : Segment) :
    (index : Nat) → (stack : List (Bracket × Nat)) → (skip : Nat) → List Char →
    Except ParseError (List Char × List (Delimiter κ × Segment))
  | _, [], _, [] => .ok ([], [])
  | _, (bracket, openedAt) :: _, _, [] =>
    .error (.notClosed bracket (whole.offset + openedAt) whole.shown)
  | index, stack, skip + 1, _ :: cs => scan delimiters lone whole (index + 1) stack skip cs
  | index, stack, 0, c :: cs =>
    match Bracket.opened? c, Bracket.closed? c, stack with
    | some bracket, _, _ => do
      let (part, rest) ← scan delimiters lone whole (index + 1) ((bracket, index) :: stack) 0 cs
      return (c :: part, rest)
    | none, some closing, [] => .error (.notOpen closing (whole.offset + index) whole.shown)
    | none, some closing, (bracket, openedAt) :: stack =>
      if bracket = closing then do
        let (part, rest) ← scan delimiters lone whole (index + 1) stack 0 cs
        return (c :: part, rest)
      else
        .error (.mismatch bracket (whole.offset + openedAt) closing (whole.offset + index)
          whole.shown)
    | none, none, _ :: _ => do
      let (part, rest) ← scan delimiters lone whole (index + 1) stack 0 cs
      return (c :: part, rest)
    | none, none, [] =>
      match delimiterAt? delimiters (c :: cs) with
      | some d => do
        let length := d.spelling.length
        let (part, rest) ← scan delimiters lone whole (index + 1) [] (length - 1) cs
        return ([], (d, ⟨part, whole.offset + index + length⟩) :: rest)
      | none =>
        if c ∈ lone then .error (.loneCharacter c (whole.offset + index) whole.shown)
        else do
          let (part, rest) ← scan delimiters lone whole (index + 1) [] 0 cs
          return (c :: part, rest)

/-- May the first part be empty? Only in front of a minus sign, which then negates the term behind
it. -/
def allowsEmptyFirst (s : Split κ) : Bool :=
  match s.rest with
  | (d, _) :: _ => d.spelling == ['-']
  | [] => false

/-- The first part that lacks its text. -/
def missing? (s : Split κ) : Option Segment :=
  if s.first.text.isEmpty && !s.allowsEmptyFirst then some s.first
  else (s.rest.map (·.2)).find? fun part => part.text.isEmpty

end Split

/-- A segment cut at every delimiter outside all brackets. Brackets have to match, no character of
`lone` may stand alone outside them, and every part needs text. -/
def Segment.split {κ : Type} (delimiters : List (Delimiter κ)) (lone : List Char) (s : Segment) :
    Except ParseError (Split κ) := do
  let (part, rest) ← Split.scan delimiters lone s 0 [] 0 s.text
  let result : Split κ := ⟨⟨part, s.offset⟩, rest⟩
  match result.missing? with
  | some part => .error (.missingOperand part.offset s.shown)
  | none => return result

/-- The index of the bracket that closes the one at the start of a text, where `depth` brackets are
open already. Kinds do not matter here, as texts are split before they are unwrapped. -/
def closingIndex? : (depth : Nat) → List Char → Option Nat
  | _, [] => none
  | depth, c :: cs =>
    if (Bracket.opened? c).isSome then (closingIndex? (depth + 1) cs).map (· + 1)
    else if (Bracket.closed? c).isSome then
      if depth ≤ 1 then some 0 else (closingIndex? (depth - 1) cs).map (· + 1)
    else (closingIndex? depth cs).map (· + 1)

/-- Is the text wrapped in one pair of brackets, the last character closing the first? -/
def isWrapped (text : List Char) : Bool :=
  match text with
  | c :: _ => (Bracket.opened? c).isSome && closingIndex? 0 text == some (text.length - 1)
  | [] => false

end Formulary
