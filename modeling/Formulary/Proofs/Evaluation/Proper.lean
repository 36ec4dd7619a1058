import Formulary.Proofs.Evaluation.Failing
import Formulary.Proofs.Expr.WellFormed
import Formulary.Proofs.Value.Operation

/-!
# Evaluation fails properly

`Expr.WellFormed.proper_evalAt`: whatever is bound and drawn, a well-formed tree has a value or
fails properly. The induction is on the tree and the bodies of the functions that it calls. A call
has one of the shapes that `Builtin.shape` lists, and being well-formed excludes those that are the
evaluation's own failures.
-/

namespace Formulary

open Evaluator

variable {α : Type}

/-- From every draw on, there is a value or a proper failure. -/
abbrev Eval.Proper {β : Type} (x : Eval α β) : Prop := x.FailsOnly fun e => e.isProper = true

/-- An unbound name is reported as such. -/
theorem Scope.proper_lookup (scope : Scope α) (name : String) : Proper (scope.lookup name) := by
  unfold lookup
  split
  · exact .ok _
  · exact .error rfl

variable [Scalar α] [LawfulDivision α]

/-- All errors of operators, conditions, series and limits are proper. -/
theorem Evaluator.admits_proper : Admits fun e : EvalError α => e.isProper = true where
  tooDeep := rfl
  condition _ := rfl
  boundKind _ _ _ _ := rfl
  boundInfinite _ _ _ := rfl
  tooManyTerms _ _ _ _ := rfl
  binary op left right := left.proper_applyBinary op right
  unary f v := v.proper_applyUnary f

/-- A well-formed tree has a value or fails properly, whatever is bound and drawn. -/
theorem Expr.WellFormed.proper_evalAt {e : Expr α} (h : e.WellFormed) (ev : Evaluator α) :
    ∀ (scope : Scope α) (depth : Nat), (ev.evalAt scope depth e).Proper := by
  have hP := admits_proper (α := α)
  induction h with
  | const v origin =>
    intro scope depth
    rw [evalAt]
    exact failsOnly_guard hP (.pure v)
  | var name =>
    intro scope depth
    rw [evalAt]
    exact failsOnly_guard hP (failsOnly_evalVar hP (scope.proper_lookup name))
  | binary op _ _ ihl ihr =>
    intro scope depth
    rw [evalAt]
    exact failsOnly_guard hP <| .bind (ihl scope _) fun a => .bind (ihr scope _) fun b =>
      .of (hP.binary op a b)
  | unary f _ ih =>
    intro scope depth
    rw [evalAt]
    exact failsOnly_guard hP <| .bind (ih scope _) fun v => .of (hP.unary f v)
  | @builtin f args hf harity hloop _ ih =>
    intro scope depth
    rw [evalAt]
    refine failsOnly_guard hP <| failsOnly_evalCall hP hf harity.1 hloop
      (fun _ e he => ih e he scope _) ?_
    rintro - k start stop term rest rfl
    exact ⟨ih start (by simp) scope _, ih stop (by simp) scope _, fun x => ih term (by simp) _ _⟩
  | @apply d args _ _ _ ihbody ih =>
    intro scope depth
    -- the body is evaluated in a scope of its own, and the hypothesis is about all scopes
    obtain ⟨name, params, body, text⟩ := d
    rw [evalAt]
    refine failsOnly_guard hP <| .bind (failsOnly_evalAll fun e he => ih e he scope _) fun values => ?_
    rw [evalBody]
    exact ihbody _ _

end Formulary
