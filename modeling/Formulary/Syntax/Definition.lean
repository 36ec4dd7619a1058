import Formulary.Expr.FreeVars
import Formulary.Syntax.Formula

/-!
# Reading function definitions

A definition is a signature, an equals sign and a body: `pythagoras(a,b)=sqrt(a^2+b^2)`. The body is
read with the functions that are registered so far, so no function can call itself, and it may use
its own parameters only. Names that a formula would read as something else are refused.
-/

namespace Formulary

namespace Syntax

/-- The pieces of a text between the occurrences of a mark; `skip` counts the characters of the last
mark that are still to come. -/
def separate (mark : List Char) : (skip : Nat) → List Char → List (List Char)
  | _, [] => [[]]
  | skip + 1, _ :: cs => separate mark skip cs
  | 0, c :: cs =>
    if mark.isPrefixOf (c :: cs) then [] :: separate mark (mark.length - 1) cs
    else
      match separate mark 0 cs with
      | piece :: pieces => (c :: piece) :: pieces
      | [] => [[c]]

/-- Would a formula read the name as something else? -/
def isReserved (name : List Char) : Bool :=
  (constant? name).isSome || (UnaryOp.match? name).isSome || Builtin.isName (String.ofList name)

/-- The name of a function and the text between the brackets behind it. -/
def signature? (text : List Char) : Option (List Char × List Char) :=
  let name := text.takeWhile isLowercase
  match name, text.dropWhile isLowercase with
  | _ :: _, '(' :: rest => if rest.getLast? = some ')' then some (name, rest.dropLast) else none
  | _, _ => none

end Syntax

namespace Language

open Syntax

/-- The definition that a text writes. It is not registered. -/
def parseDefinition (lang : Language) (text : String) :
    Except ParseError (Definition (Expr Float)) := do
  let compact := Text.compact text.toList
  let argument := lang.format.argumentText
  let signature := compact.takeWhile (· != '=')
  let bodyText := (compact.dropWhile (· != '=')).drop 1
  if bodyText.isEmpty then .error (.noBody text argument)
  else
    match signature? signature with
    | none => .error (.signature (String.ofList signature) argument)
    | some (name, paramText) =>
      let params := if paramText.isEmpty then [] else separate lang.format.argument 0 paramText
      if isReserved name then .error (.hiddenName (String.ofList name) argument)
      else
        match params.find? fun p => !isName p || isReserved p with
        | some p => .error (.parameter (String.ofList p) (String.ofList paramText) argument)
        | none =>
          if params.eraseDups.length ≠ params.length then
            .error (.repeatedParameter (String.ofList signature) (String.ofList paramText))
          else
            let body ← lang.parse (String.ofList bodyText)
            -- the search for the free variables of the body takes a call for each of its levels
            if isExhausted lang body.height then .error .exhausted
            else
              let names := params.map String.ofList
              match sortedNames (body.freeVars.filter (· ∉ names)) with
              | [] => return ⟨String.ofList name, names, body, String.ofList bodyText⟩
              | unbound => .error (.unboundNames unbound (String.ofList compact))

/-- The language with one more function, unless its name is taken. -/
def register (lang : Language) (d : Definition (Expr Float)) : Except ParseError Language :=
  match lang.registry.get? d.name with
  | some existing => .error (.alreadyDefined d.name (d.describe ",") (existing.describe ","))
  | none => .ok { lang with registry := lang.registry.push d }

/-- A definition read and registered. -/
def define (lang : Language) (text : String) :
    Except ParseError (Definition (Expr Float) × Language) := do
  let d ← lang.parseDefinition text
  return (d, ← lang.register d)

end Language

end Formulary
