import Formulary.Evaluation.Basic

/-!
# The shapes of a call

How a call of a builtin function is evaluated depends on the function and on the first argument.
`Builtin.Shape` has one case for each way, and `Builtin.shape` finds the one that a call has; next
to it stand the equations of `evalCall` for the shapes that its definition does not spell out.
-/

namespace Formulary

variable {α : Type}

/-- The ways in which a call is evaluated. -/
inductive Builtin.Shape : Builtin → List (Expr α) → Prop where
  | other (name : String) (args : List (Expr α)) : Shape (.other name) args
  | cond (condition : Expr α) (branches : List (Expr α)) : Shape .cond (condition :: branches)
  | rand (limit : Expr α) (rest : List (Expr α)) : Shape .rand (limit :: rest)
  | series {f : Builtin} (hf : f.isSeries = true) (k : String) (args : List (Expr α)) :
      Shape f (.var k :: args)
  | missing {f : Builtin} (hf : f ∈ Builtin.all) : Shape f []
  | noVariable {f : Builtin} (hf : f.isSeries = true) {e : Expr α} (he : ∀ k, e ≠ .var k)
      (rest : List (Expr α)) : Shape f (e :: rest)

/-- Every call has a shape. -/
theorem Builtin.shape (f : Builtin) (args : List (Expr α)) : Shape f args := by
  have hseries : ∀ (g : Builtin) (e : Expr α) (rest : List (Expr α)), g.isSeries = true →
      Shape g (e :: rest) := by
    intro g e rest hg
    by_cases he : ∃ k, e = .var k
    · obtain ⟨k, rfl⟩ := he
      exact .series hg k rest
    · exact .noVariable hg (fun k hk => he ⟨k, hk⟩) rest
  rcases args with _ | ⟨e, rest⟩
  · cases f with
    | other name => exact .other name []
    | _ => exact .missing (by decide)
  · cases f with
    | cond => exact .cond e rest
    | rand => exact .rand e rest
    | sum => exact hseries .sum e rest rfl
    | prod => exact hseries .prod e rest rfl
    | other name => exact .other name (e :: rest)

namespace Evaluator

variable [Scalar α] (ev : Evaluator α) (scope : Scope α) (depth : Nat)

theorem evalCall_series {f : Builtin} (hf : f.isSeries = true) (k : String)
    (args : List (Expr α)) :
    ev.evalCall scope depth f (.var k :: args) = ev.evalSeries scope (depth + 2) f k args := by
  cases f with
  | sum | prod => rw [evalCall]
  | _ => cases hf

theorem evalCall_missing {f : Builtin} (hf : f ∈ Builtin.all) :
    ev.evalCall scope depth f [] = throw (.missingArgument f.name) := by
  cases f with
  | other name => simp [Builtin.all] at hf
  | _ => simp [evalCall]

theorem evalCall_noVariable {f : Builtin} (hf : f.isSeries = true) {e : Expr α}
    (he : ∀ k, e ≠ .var k) (rest : List (Expr α)) :
    ev.evalCall scope depth f (e :: rest) = throw (.noLoopVariable f.name) := by
  cases f with
  | sum | prod =>
    cases e with
    | var k => exact absurd rfl (he k)
    | _ => simp [evalCall]
  | _ => cases hf

end Evaluator

end Formulary
