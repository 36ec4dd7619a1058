import Formulary.Expr.Render
import Formulary.Proofs.Expr.Widening
import Formulary.Proofs.Number.Nearest

/-!
# Trees as they are read from their own texts

No number literal has a sign, and none stands for a complex number with two parts. So the text of a
constant is a small formula of its own, with a sign or a sum in it, and `Expr.respelled` is the tree
with these formulas for its constants. `Expr.nesting` counts the levels of brackets and calls that
the text of the tree has, with the brackets that precedence asks for.
-/

namespace Formulary

open Binary64

/-- The tree that the exact text of a number is read as. -/
def signedNumber (x : Float) : Expr Float :=
  if isNegative x then .unary .neg (.const (.real (unsigned x))) else .const (.real x)

/-- The tree that the text of a value is read as. -/
def Value.respelled : Value Float → Expr Float
  | boolean b => .const (.boolean b)
  | real x => signedNumber x
  | complex z =>
    .binary (if isNegative z.im then .sub else .add) (signedNumber z.re)
      (.const (.complex ⟨0.0, unsigned z.im⟩))

/-- The levels of brackets that the text of a value has. -/
def Value.nesting : Value Float → ℕ
  | boolean _ => 0
  | real x => if isNegative x then 1 else 0
  | complex _ => 1

namespace Expr

mutual

/-- The tree with the formulas that its constants are written as. -/
def respelled : Expr Float → Expr Float
  | const v _ => v.respelled
  | var name => var name
  | binary op l r => binary op l.respelled r.respelled
  | unary f x => unary f x.respelled
  | builtin f args => builtin f (respelledAll args)
  | apply d args => apply d (respelledAll args)

/-- The same for a list of trees. -/
def respelledAll : List (Expr Float) → List (Expr Float)
  | [] => []
  | e :: es => e.respelled :: respelledAll es

end

theorem respelledAll_eq (es : List (Expr Float)) : respelledAll es = es.map respelled := by
  induction es with
  | nil => rfl
  | cons e es ih => rw [respelledAll, ih, List.map_cons]

/-- The levels that a function of one argument adds to those of its operand. The name and the
brackets behind it are two, but the two prefix operators need neither. -/
def unaryLevels (f : UnaryOp) (level : Level) : ℕ :=
  match f with
  | .neg => if level.rank ≤ Level.sum.rank then 1 else 0
  | .not => if level.rank ≤ Level.logic.rank then 1 else 0
  | _ => 2

mutual

/-- The levels of brackets and calls that the text of a tree has. -/
def nesting : Expr Float → ℕ
  | const v _ => v.nesting
  | var _ => 0
  | binary op l r =>
    max (l.nesting + if l.level.rank < op.level.rank then 1 else 0)
      (r.nesting + if r.level.rank ≤ op.level.rank then 1 else 0)
  | unary f x => x.nesting + unaryLevels f x.level
  | builtin _ args => nestingAll args
  | apply _ args => nestingAll args

/-- The levels of an argument list, which is one itself if it is not empty. -/
def nestingAll : List (Expr Float) → ℕ
  | [] => 0
  | e :: es => max (e.nesting + 1) (nestingAll es)

end

theorem nesting_lt_nestingAll {e : Expr Float} {es : List (Expr Float)} (h : e ∈ es) :
    e.nesting + 1 ≤ nestingAll es := by
  induction es with
  | nil => cases h
  | cons a es ih =>
    rw [nestingAll]
    rcases List.mem_cons.1 h with rfl | h
    · exact Nat.le_max_left _ _
    · exact (ih h).trans (Nat.le_max_right _ _)

end Expr

end Formulary
