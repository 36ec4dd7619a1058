import Formulary.Evaluation.Error
import Formulary.Expr.FreeVars
import Formulary.Value.Datum

/-!
# Scopes

A scope binds names to values. Scopes nest: an inner scope, such as that of a loop variable, sees
the bindings of the outer ones and hides those of the same name. Nothing changes a scope; `define`
gives a new one.
-/

namespace Formulary

/-- Bindings in the order in which their names were first bound. -/
abbrev Bindings (α : Type) := List (String × Value α)

namespace Bindings

variable {α : Type}

/-- A binding added, or changed in its place. -/
def insert (name : String) (value : Value α) : Bindings α → Bindings α
  | [] => [(name, value)]
  | (n, v) :: rest => if n = name then (n, value) :: rest else (n, v) :: insert name value rest

/-- The bindings made one after the other. -/
def ofList (pairs : List (String × Value α)) : Bindings α :=
  pairs.foldl (fun bindings (name, value) => bindings.insert name value) []

/-- The bound names. -/
def names (bindings : Bindings α) : List String := bindings.map (·.1)

/-- The value of a bound name. -/
def get? (name : String) : Bindings α → Option (Value α)
  | [] => none
  | (n, v) :: rest => if n = name then some v else get? name rest

end Bindings

/-- The bindings of one level of nesting, with a name for the level. -/
structure Frame (α : Type) where
  name : String
  bindings : Bindings α

/-- Nested bindings, the innermost frame first. -/
structure Scope (α : Type) where
  inner : Frame α
  outer : List (Frame α)

namespace Scope

variable {α : Type}

/-- The name of a scope that is given no other. -/
def defaultName : String := "global"

/-- A scope without outer scopes. -/
def ofBindings (bindings : Bindings α) (name : String := defaultName) : Scope α :=
  ⟨⟨name, bindings⟩, []⟩

/-- Nothing is bound. -/
def empty : Scope α := ofBindings []

/-- The bindings for named data, or the first reason why there are none. -/
def bindingsOfData (data : List (String × Datum)) : Except DatumError (Bindings Float) := do
  let pairs ← data.mapM fun (name, datum) => return (name, ← datum.toValue)
  return .ofList pairs

/-- The scope with one more binding in its innermost frame. -/
def define (scope : Scope α) (name : String) (value : Value α) : Scope α :=
  ⟨⟨scope.inner.name, scope.inner.bindings.insert name value⟩, scope.outer⟩

/-- An empty scope inside this one. -/
def child (scope : Scope α) (name : String) : Scope α :=
  ⟨⟨name, []⟩, scope.inner :: scope.outer⟩

/-- All frames, the innermost first. -/
def frames (scope : Scope α) : List (Frame α) := scope.inner :: scope.outer

/-- The names of all bindings, the innermost first, hidden ones included. -/
def names (scope : Scope α) : List String := scope.frames.flatMap fun f => f.bindings.names

/-- The frame that all others are nested in. -/
def outermost (scope : Scope α) : Frame α := scope.outer.getLastD scope.inner

/-- The value of a name: that of the innermost frame that binds it. -/
def get? (scope : Scope α) (name : String) : Option (Value α) :=
  scope.frames.findSome? fun f => f.bindings.get? name

/-- How many frames a search for a name comes to: those up to the first one that binds it, or all.
-/
def searched (name : String) : List (Frame α) → Nat
  | [] => 0
  | f :: outer => if (f.bindings.get? name).isSome then 1 else searched name outer + 1

/-- How many frames a search for a name comes to, from the innermost one on. -/
def reach (scope : Scope α) (name : String) : Nat := searched name scope.frames

/-- The value of a name. A report of an unbound name lists what the outermost frame binds. -/
def lookup (scope : Scope α) (name : String) : Except (EvalError α) (Value α) :=
  match scope.get? name with
  | some v => .ok v
  | none => .error (.unknownVariable name (sortedNames scope.outermost.bindings.names))

/-- A short description of the innermost frame. -/
def describe (scope : Scope α) : String :=
  let names := ", ".intercalate (scope.inner.bindings.names.map Text.quoted)
  let parent := match scope.outer with
    | [] => ""
    | f :: _ => " (parent: " ++ f.name ++ ")"
  "FormulaEnvironment(" ++ scope.inner.name ++ ": [" ++ names ++ "]" ++ parent ++ ")"

end Scope

end Formulary
