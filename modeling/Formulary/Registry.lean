import Formulary.Expr.Basic

/-!
# Registered functions

User-defined functions are kept in the order in which they were registered. A call is recognised by
a function's name at the start of a text, and the function that was registered first wins. The list
only grows, and a name is registered once.
-/

namespace Formulary

/-- The registered functions, the oldest first. -/
structure Registry where
  definitions : List (Definition (Expr Float)) := []

namespace Registry

/-- The names of the registered functions. -/
def names (r : Registry) : List String := r.definitions.map (·.name)

/-- The first registered function whose name begins the text. -/
def lookup? (r : Registry) (text : List Char) : Option (Definition (Expr Float)) :=
  r.definitions.find? fun d => d.name.toList.isPrefixOf text

/-- The function with exactly this name. -/
def get? (r : Registry) (name : String) : Option (Definition (Expr Float)) :=
  r.definitions.find? fun d => d.name == name

/-- One more function. -/
def push (r : Registry) (d : Definition (Expr Float)) : Registry := ⟨r.definitions ++ [d]⟩

end Registry

end Formulary
