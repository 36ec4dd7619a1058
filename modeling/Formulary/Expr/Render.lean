import Formulary.Expr.Basic
import Formulary.Value.Display

/-!
# Rendered formulas

A tree is written back as formula text that is read as an equal tree. Brackets come from precedence
levels alone: a left operand gets them when it binds more loosely than its operator, a right operand
also when it binds equally loosely, because operators of one level are read from left to right.
-/

namespace Formulary.Expr

variable {α : Type}

/-- The text in brackets, if they are needed. -/
def bracketed (needed : Bool) (text : String) : String :=
  if needed then "(" ++ text ++ ")" else text

/-- The text of a unary function applied to an operand with this text and level. -/
def renderUnary (f : UnaryOp) (operand : String) (level : Level) : String :=
  match f with
  | .neg => "-" ++ bracketed (level.rank ≤ Level.sum.rank) operand
  | .not => "!" ++ bracketed (level.rank ≤ Level.logic.rank) operand
  | _ => f.name ++ "(" ++ operand ++ ")"

mutual

/-- The tree as formula text in a number format. -/
def render (f : NumberFormat) : Expr Float → String
  | const v _ => v.rendered f
  | var name => name
  | binary op l r =>
    bracketed (l.level.rank < op.level.rank) (l.render f) ++ op.symbol ++
      bracketed (r.level.rank ≤ op.level.rank) (r.render f)
  | unary g x => renderUnary g (x.render f) x.level
  | builtin g args => g.name ++ "(" ++ f.argumentText.intercalate (renderAll f args) ++ ")"
  | apply d args => d.name ++ "(" ++ f.argumentText.intercalate (renderAll f args) ++ ")"

/-- The texts of several trees. -/
def renderAll (f : NumberFormat) : List (Expr Float) → List String
  | [] => []
  | e :: es => e.render f :: renderAll f es

end

mutual

/-- How many more calls are pending at most while a tree is rendered. A level takes one call more
where brackets are considered, or a list of arguments is made. -/
def renderCalls : Expr α → Nat
  | const .. | var _ => 2
  | binary _ l r => max l.renderCalls r.renderCalls + 3
  | unary .neg x | unary .not x => x.renderCalls + 3
  | unary _ x => x.renderCalls + 2
  | builtin _ args | apply _ args => renderCallsOfAll args + 3

/-- The most calls that any of several trees takes. -/
def renderCallsOfAll : List (Expr α) → Nat
  | [] => 0
  | e :: es => max e.renderCalls (renderCallsOfAll es)

end

end Formulary.Expr
