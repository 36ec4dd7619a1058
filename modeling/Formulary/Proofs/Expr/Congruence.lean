import Mathlib.Data.List.Forall2
import Formulary.Expr.Equality

/-!
# Congruences

Transformations that change a tree in a few places and keep the rest are sound in one way or
another: the result is related to the tree. For a relation that passes through every sort of node
only these places have to be looked at.
-/

namespace Formulary.Expr

variable {α : Type} {R : Expr α → Expr α → Prop}

/-- Trees are related to themselves, and nodes to nodes of their sort with related children. -/
structure Congruence (R : Expr α → Expr α → Prop) : Prop where
  refl (e : Expr α) : R e e
  binary (op : BinaryOp) {l l' r r' : Expr α} (hl : R l l') (hr : R r r') :
    R (.binary op l r) (.binary op l' r')
  unary (f : UnaryOp) {e e' : Expr α} (h : R e e') : R (.unary f e) (.unary f e')
  builtin (f : Builtin) {args args' : List (Expr α)} (h : List.Forall₂ R args args') :
    R (.builtin f args) (.builtin f args')
  apply (d : Definition (Expr α)) {args args' : List (Expr α)} (h : List.Forall₂ R args args') :
    R (.apply d args) (.apply d args')

theorem Congruence.refl_all (h : Congruence R) (es : List (Expr α)) : List.Forall₂ R es es :=
  List.forall₂_same.2 fun e _ => h.refl e

mutual

/-- Only constants are changed when they get origins. -/
theorem Congruence.identify (h : Congruence R)
    (hconst : ∀ v origin origin', R (.const v origin) (.const v origin')) (next : Nat) (e : Expr α) :
    R e (e.identify next).1 := by
  match e with
  | .const v none =>
    rw [Expr.identify]
    exact hconst v none _
  | .const v (some origin) =>
    rw [Expr.identify]
    · exact h.refl _
    · rintro ⟨⟩
  | .var name =>
    rw [Expr.identify]
    exact h.refl _
  | .binary op l r =>
    rw [Expr.identify]
    exact h.binary op (h.identify hconst next l) (h.identify hconst _ r)
  | .unary f x =>
    rw [Expr.identify]
    exact h.unary f (h.identify hconst next x)
  | .builtin f args =>
    rw [Expr.identify]
    exact h.builtin f (h.identifyAll hconst next args)
  | .apply d args =>
    rw [Expr.identify]
    exact h.apply d (h.identifyAll hconst next args)

theorem Congruence.identifyAll (h : Congruence R)
    (hconst : ∀ v origin origin', R (.const v origin) (.const v origin')) (next : Nat)
    (es : List (Expr α)) : List.Forall₂ R es (identifyAll next es).1 := by
  match es with
  | [] => exact .nil
  | e :: es =>
    rw [Expr.identifyAll]
    exact .cons (h.identify hconst next e) (h.identifyAll hconst _ es)

end

end Formulary.Expr
