import Formulary.Proofs.Arithmetic.Elementary
import Formulary.Proofs.Evaluation.Proper
import Formulary.Proofs.Syntax.Spelling
import Formulary.Proofs.Syntax.Rules

/-!
# Trees within reach

A tree is `Reachable` if it is read from a text or comes from a reachable tree by folding, a
derivative, an antiderivative or a copy, in any order and as often as one likes. All of these trees
are well-formed, so evaluating one has a value or fails with a calculation error
(`Reachable.value_or_proper_failure`).

The elementary functions are those of any library that is lawful where its values are divisors.
-/

open Formulary.Expr Formulary.Grammar

namespace Formulary

/-- The trees that come from reading a formula by transformations. Whatever is evaluated on the way,
with any limits, any draws and any number of pending calls, uses the same scalars. -/
inductive Reachable (scalar : Scalar Float) : Expr Float → Prop where
  | parse {lang : Language} {text : String} {t : Expr Float} (hregistry : lang.registry.Defined)
      (h : lang.parse text = .ok t) : Reachable scalar t
  | optimize {t : Expr Float} (h : Reachable scalar t) (ev : Evaluator Float) (drawn : Nat) :
      Reachable scalar ((Folding.run ev t).run drawn).1.tree
  | derive {t t' : Expr Float} (h : Reachable scalar t) (ev : Evaluator Float) (x : String)
      (depth drawn drawn' : Nat) (ht' : (t.derive ev x depth).run.run drawn = (.ok t', drawn')) :
      Reachable scalar t'
  | integrate {t t' : Expr Float} (h : Reachable scalar t) (limit : CallLimit) (x : String)
      (depth : Nat) (ht' : t.integrate limit x depth = .ok t') : Reachable scalar t'
  | copy {t : Expr Float} (h : Reachable scalar t) (next : Nat) :
      Reachable scalar (t.identify next).1

/-- Reachable trees are well-formed. -/
theorem Reachable.wellFormed {scalar : Scalar Float} {t : Expr Float}
    (h : Reachable scalar t) : t.WellFormed := by
  induction h with
  | parse hregistry h => exact Language.wellFormed_of_parse hregistry.wellFormed h
  | optimize _ ev drawn ih => exact ih.run ev drawn
  | derive _ ev x depth drawn drawn' ht' ih => exact ih.derive ev x depth drawn _ drawn' ht'
  | integrate _ limit x depth ht' ih => exact ih.integrate ht'
  | copy _ next ih => exact ih.identify next

/-- Evaluating a reachable tree has a value or fails with a calculation error that the formula and
its values account for, in every scope and from every draw on. -/
theorem Reachable.value_or_proper_failure {lib : ElementaryLibrary} (hlib : lib.Lawful)
    {t : Expr Float} (h : Reachable lib.scalar t) (ev : Evaluator Float) (scope : Scope Float)
    (n : Nat) :
    letI := lib.scalar
    (∃ v, ((ev.evaluate scope t).outcome n).1 = .ok v) ∨
      ∃ e, ((ev.evaluate scope t).outcome n).1 = .error e ∧ e.isProper = true ∧
        e.kind.isCalculation = true := by
  let _ := lib.scalar
  have _ := hlib.lawfulDivision
  have hproper : Proper ((ev.evaluate scope t).outcome n).1 :=
    h.wellFormed.proper_evalAt ev scope 2 n
  generalize ((ev.evaluate scope t).outcome n).1 = r at hproper ⊢
  cases r with
  | ok v => exact .inl ⟨v, rfl⟩
  | error e =>
    have he := hproper e rfl
    exact .inr ⟨e, rfl, he, EvalError.isCalculation_kind he⟩

/-- The elementary functions as they are at zero, to first order, and the logarithms at ten. -/
def ElementaryLibrary.firstOrder : ElementaryLibrary where
  power _ _ := 0.0
  angle _ _ := 0.0
  sqrt x := x
  exp x := 1.0 + x
  log _ := 2.302585092994046
  log10 _ := 1.0
  sin x := x
  cos _ := 1.0
  tan x := x
  asin x := x
  acos x := 1.5707963267948966 - x
  atan x := x
  sinh x := x
  cosh _ := 1.0
  tanh x := x
  asinh x := x
  acosh _ := 0.0
  atanh x := x

/-- They have no zeros where they divide. -/
theorem ElementaryLibrary.lawful_firstOrder : firstOrder.Lawful where
  sinh _ hx := hx
  cosh _ := by
    show ((1.0 : Float) == 0) = false
    decide
  tanh _ hx := hx
  log_ten := by decide

/-- `sech(x)`, copied, at zero. -/
theorem Reachable.value_or_proper_failure_sech :
    letI := ElementaryLibrary.firstOrder.scalar
    let t : Expr Float := ((Expr.unary .sech (.var "x")).identify 0).1
    let ev : Evaluator Float := { draw := fun _ => 0.5 }
    let scope : Scope Float := .ofBindings [("x", .real 0.0)]
    ElementaryLibrary.firstOrder.Lawful ∧ Reachable ElementaryLibrary.firstOrder.scalar t ∧
      ((∃ v, ((ev.evaluate scope t).outcome 0).1 = .ok v) ∨
        ∃ e, ((ev.evaluate scope t).outcome 0).1 = .error e ∧ e.isProper = true ∧
          e.kind.isCalculation = true) := by
  intro t ev scope
  have hx : Atom { maxPending := none } ['x'] (.var "x") :=
    .variable ⟨not_wrapped_of_head (by decide), by decide, by decide, by decide⟩ rfl (by decide)
  have hbrackets : Atom { maxPending := none } ['(', 'x', ')'] (.var "x") :=
    .wrapped .round (.of_atom (by decide) hx)
  have hsech : Atom { maxPending := none } "sech(x)".toList (.unary .sech (.var "x")) :=
    .function .sech (longestName_call (by decide) ['x', ')']) (.part (by decide) hbrackets)
  have hparse : ({ maxPending := none } : Language).parse "sech(x)" = .ok _ :=
    Language.parse_of_formula NumberFormat.hasPlainMarks_standard rfl (by decide)
      (.of_atom (by decide) hsech)
  have ht : Reachable ElementaryLibrary.firstOrder.scalar t :=
    .copy (@Reachable.parse _ { maxPending := none } _ _ .empty hparse) 0
  exact ⟨ElementaryLibrary.lawful_firstOrder, ht,
    ht.value_or_proper_failure ElementaryLibrary.lawful_firstOrder ev scope 0⟩

end Formulary
