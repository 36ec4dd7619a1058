import Formulary.Text.Digit

/-!
# Command line arguments

A command line holds one formula and any number of options around it. `Word.of` decides for each
argument by itself what it is; `Arguments.read` then goes through them from left to right.

* A long option may be shortened as long as only one option starts like that.
* A value follows its option as the next argument, or after `=`, or at once after a short option.
  Where `--` is attached to an option in one of the latter two ways, it is the value, or the option
  has none: releases of the argument parser differ in this (`AttachedSeparator`).
* A plain negative number and a text with a space are no options, though they start with a dash.
* After `--` nothing is an option.
-/

namespace Formulary.CommandLine

/-- The options there are. -/
inductive Flag where
  | help
  | var
  | define
  | optimize
  | render
  | derive
  | integrate
  | decimalSeparator
  | verbose
deriving DecidableEq, Repr

namespace Flag

/-- All options. -/
def all : List Flag :=
  [help, var, define, optimize, render, derive, integrate, decimalSeparator, verbose]

/-- The long name of an option. -/
def long : Flag → String
  | help => "--help"
  | var => "--var"
  | define => "--define"
  | optimize => "--optimize"
  | render => "--render"
  | derive => "--derive"
  | integrate => "--integrate"
  | decimalSeparator => "--decimal-separator"
  | verbose => "--verbose"

/-- The letter of an option that has a short name. -/
def letter : Flag → Option Char
  | help => some 'h'
  | var => some 'v'
  | define => some 'd'
  | _ => none

/-- Does the option come with a value? -/
def takesValue : Flag → Bool
  | var | define | derive | integrate | decimalSeparator => true
  | help | optimize | render | verbose => false

/-- The option with this short or long name. -/
def ofName? (name : List Char) : Option Flag :=
  all.find? fun f =>
    f.long.toList = name ||
      match f.letter, name with
      | some c, ['-', d] => c == d
      | _, _ => false

/-- The options whose long name starts like this. -/
def startingWith (start : List Char) : List Flag :=
  all.filter fun f => start.isPrefixOf f.long.toList

end Flag

/-- A dash and digits, with at most one point, which may come first but not last. -/
def isNegativeNumber : List Char → Bool
  | '-' :: text =>
    -- A line end after the number belongs to it.
    let text := if text.getLast? = some '\n' then text.dropLast else text
    match text.dropWhile Text.isDecimalDigit with
    | [] => !text.isEmpty
    | '.' :: fraction => !fraction.isEmpty && fraction.all Text.isDecimalDigit
    | _ => false
  | _ => false

/-- What an argument is. -/
inductive Word where
  /-- A formula, or the value of the option before it. -/
  | plain
  /-- The mark after which nothing is an option. -/
  | separator
  /-- An option, with the value that is attached to it. -/
  | flag (flag : Flag) (value : Option (List Char))
  /-- It looks like an option, but there is not exactly one with that name. -/
  | unknown
deriving DecidableEq, Repr

namespace Word

/-- A name that has to be cut off at a `=`, with what comes after that. -/
def cut (text : List Char) : List Char × Option (List Char) :=
  match text.dropWhile (· != '=') with
  | [] => (text, none)
  | _ :: value => (text.takeWhile (· != '='), some value)

/-- What a text that starts with a dash is when no option has exactly its name. -/
def ofOther (text : List Char) : Word :=
  if isNegativeNumber text || text.contains ' ' then plain else unknown

/-- What a text is that spells no option in full. -/
def ofShortened : List Char → Word
  | text@('-' :: '-' :: _) =>
    let (name, value) := cut text
    match Flag.startingWith name with
    | [f] => flag f value
    | [] => ofOther text
    | _ => unknown
  | text@('-' :: c :: value) =>
    match Flag.ofName? ['-', c] with
    | some f => flag f (some value)
    | none => ofOther text
  | _ => plain

/-- What an argument is. -/
def of (text : List Char) : Word :=
  if text = ['-', '-'] then separator
  else if text.head? ≠ some '-' || text = ['-'] then plain
  else
    match Flag.ofName? text with
    | some f => flag f none
    | none =>
      let (name, value) := cut text
      match value, Flag.ofName? name with
      | some v, some f => flag f (some v)
      | _, _ => ofShortened text

end Word

/-- What becomes of a `--` that is attached to an option. -/
inductive AttachedSeparator where
  /-- It is the value of the option. -/
  | kept
  /-- It is taken away, and the option has no value. -/
  | dropped
deriving DecidableEq, Repr

/-- The value that an option has from what is attached to it. -/
def AttachedSeparator.value? (separator : AttachedSeparator) (text : List Char) : Option String :=
  if separator = .dropped ∧ text = ['-', '-'] then none else some (String.ofList text)

/-- What a command line asks for. An option that has no value counts as given, as `none`. -/
structure Arguments where
  formula : String := ""
  bindings : List (Option String) := []
  definitions : List (Option String) := []
  optimize : Bool := false
  render : Bool := false
  /-- The variable to derive by, if it is not empty. -/
  derive : String := ""
  /-- The variable to integrate by, if it is not empty. -/
  integrate : String := ""
  decimalSeparator : Option String := some "."
  verbose : Bool := false
deriving DecidableEq, Repr

namespace Arguments

/-- The effect of an option. A request for help is not one that `Arguments` can express. -/
def set? (a : Arguments) (f : Flag) (value : Option String) : Option Arguments :=
  match f with
  | .help => none
  | .var => some { a with bindings := a.bindings ++ [value] }
  | .define => some { a with definitions := a.definitions ++ [value] }
  | .optimize => some { a with optimize := true }
  | .render => some { a with render := true }
  | .derive => some { a with derive := value.getD "" }
  | .integrate => some { a with integrate := value.getD "" }
  | .decimalSeparator => some { a with decimalSeparator := value }
  | .verbose => some { a with verbose := true }

/-- What the rest of a command line adds to what has been read of it; `found` if the formula has
been read. -/
def readRest (separator : AttachedSeparator) (a : Arguments) (found : Bool) :
    List String → Option Arguments
  | [] => if found then some a else none
  | word :: rest =>
    match Word.of word.toList, rest with
    | .unknown, _ => none
    | .separator, [formula] => if found then none else some { a with formula }
    | .separator, _ => none
    | .plain, ["--"] => if found then none else some { a with formula := word }
    | .plain, rest => if found then none else readRest separator { a with formula := word } true rest
    | .flag f (some value), rest =>
      if f.takesValue then
        match a.set? f (separator.value? value) with
        | some a => readRest separator a found rest
        | none => none
      else none
    | .flag f none, rest =>
      if f.takesValue then
        match rest with
        | value :: rest =>
          match Word.of value.toList, a.set? f (some value) with
          | .plain, some a => readRest separator a found rest
          | _, _ => none
        | [] => none
      else
        match a.set? f none with
        | some a => readRest separator a found rest
        | none => none

/-- What a command line asks for, if it is one. -/
def read? (separator : AttachedSeparator) (arguments : List String) : Option Arguments :=
  readRest separator {} false arguments

end Arguments

end Formulary.CommandLine
