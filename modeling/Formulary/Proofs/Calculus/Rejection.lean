import Formulary.Engine
import Formulary.Proofs.Calculus.Domain
import Formulary.Proofs.Optimization.Settled
import Formulary.Proofs.Reachable

/-!
# Which formulas an engine derives and integrates

An engine has a derivative of exactly the formulas in the domain of the rules, and an antiderivative
of exactly those in the domain of theirs. For any other formula it says so
(`Engine.hasDomain_derive_and_integrate`).

There is one exception. The rules are as deep as the formula, and copy parts of it before they look
whether these have rules. That there is no room left for this is not reported as a missing
derivative (`Engine.exhausted_derive_tangent`). It takes a formula that is high, as the rules need
so many calls for each level and no more.

A value that is asked for by a rule is one where the rule asks for it. An inner derivative that
could be evaluated by itself, but not where the calls of the rules are pending, is in the way of a
derivative like any other that has no value.
-/

namespace Formulary

open Formulary.Expr Grammar

/-! ## Making trees -/

namespace Engine

variable {engine : Engine} {t : Expr Float} {x : String}

/-- An operation makes a well-formed tree where the condition holds, and elsewhere has an error that
says that there is no derivative, except that its room may be exhausted. Either way, the engine
stays as it is. -/
inductive HasDomain (engine : Engine) (y : EngineM (Expr Float)) (domain exhausts : Prop) : Prop where
  | tree {t' : Expr Float} (hrun : y.run.run engine = (.ok t', engine)) (htree : t'.WellFormed)
      (h : domain)
  | noTree {failure : Failure} (hrun : y.run.run engine = (.error failure, engine))
      (hkind : failure.kind = .derivative) (h : ¬ domain)
  | exhausted {failure : Failure} (hrun : y.run.run engine = (.error failure, engine))
      (hkind : failure.kind = .exhausted) (h : exhausts)

/-- What the rules settle, an operation that does as they say settles as well. -/
theorem HasDomain.of_settles {y : EngineM (Expr Float)} {domain exhausts : Prop}
    {r : Except (DerivativeError Float) (Expr Float)} (h : Settles r domain exhausts)
    (htree : ∀ t', r = .ok t' → t'.WellFormed)
    (hrun : y.run.run engine = (r.mapError .derivative, engine)) :
    HasDomain engine y domain exhausts := by
  cases h with
  | ok t' hr hdomain =>
    subst hr
    exact .tree hrun (htree t' rfl) hdomain
  | error err hr hkind hdomain =>
    subst hr
    exact .noTree hrun hkind hdomain
  | exhausted hr hexhausts =>
    subst hr
    exact .exhausted hrun rfl hexhausts

section

variable [Scalar Float]

/-- An engine derives with its own evaluator, and takes the draws that this takes. -/
theorem run_derive (engine : Engine) (t : Expr Float) (x : String) :
    (derive t x).run.run engine =
      (((t.derive engine.evaluator x 2).run.run engine.drawn).1.mapError .derivative,
        { engine with drawn := ((t.derive engine.evaluator x 2).run.run engine.drawn).2 }) :=
  rfl

/-- An engine derives without draws, where the rules take none. -/
theorem run_derive_of_eq {r : Except (DerivativeError Float) (Expr Float)}
    (hr : t.derive engine.evaluator x 2 = Transform.of r) :
    (derive t x).run.run engine = (r.mapError .derivative, engine) := by
  rw [run_derive, hr]
  rfl

/-- An engine integrates by the rules. -/
theorem run_integrate (engine : Engine) (t : Expr Float) (x : String) :
    (integrate t x).run.run engine =
      ((t.integrate engine.evaluator.maxPending x 2).mapError .derivative, engine) :=
  rfl

/-- An engine integrates exactly the trees in the domain of antiderivatives. -/
theorem hasDomain_integrate (engine : Engine) (ht : t.WellFormed) (x : String) :
    HasDomain engine (integrate t x) (Integrable x t)
      (engine.isExhausted (2 * t.height + 2) = true) := by
  have hsettles := settles_integrate engine.evaluator.maxPending x 2 ht
  rw [Nat.add_comm] at hsettles
  exact .of_settles hsettles (fun t' ht' => ht.integrate ht') (run_integrate engine t x)

/-- An engine derives exactly the trees in the domain of derivatives. -/
theorem hasDomain_derive [LawfulDivision Float] (engine : Engine) (ht : t.WellFormed)
    (hdeterministic : t.isDeterministic = true) (x : String) :
    HasDomain engine (derive t x) (Differentiable engine.evaluator x 2 t)
      (engine.isExhausted (3 * t.height + 3) = true) := by
  obtain ⟨r, hr, hsettles⟩ := decides_derive engine.evaluator x 2 ht hdeterministic
  have htree : ∀ t', r = .ok t' → t'.WellFormed := by
    rintro t' rfl
    refine ht.derive engine.evaluator x 2 0 t' 0 ?_
    rw [hr, Transform.run_of]
  exact .of_settles (hsettles.mono (CallLimit.isExceeded_mono (by omega))) htree
    (run_derive_of_eq hr)

end

/-- An engine has a derivative of exactly the formulas in the domain of the rules, and an
antiderivative of exactly those in the domain of theirs, up to the height for which there is room.
-/
theorem hasDomain_derive_and_integrate {lib : ElementaryLibrary} (hlib : lib.Lawful)
    {text : String} (hregistry : engine.language.registry.Defined)
    (hparse : engine.language.parse text = .ok t) (hrand : ¬ t.ReachesRand) (x : String) :
    letI := lib.scalar
    HasDomain engine (derive t x) (Differentiable engine.evaluator x 2 t)
        (engine.isExhausted (3 * t.height + 3) = true) ∧
      HasDomain engine (integrate t x) (Integrable x t)
        (engine.isExhausted (2 * t.height + 2) = true) := by
  let _ := lib.scalar
  have _ : LawfulDivision Float := hlib.lawfulDivision
  have ht : t.WellFormed := Language.wellFormed_of_parse hregistry.wellFormed hparse
  exact ⟨hasDomain_derive engine ht (isDeterministic_iff.2 hrand) x, hasDomain_integrate engine ht x⟩

/-- A tangent is read with whatever its operand is. -/
theorem parse_tangent {text : String} {s : List Char}
    (htext : Text.compact text.toList = "tan(".toList ++ s ++ [')'])
    (h : Logic (AtomWithin { maxPending := none } 99) s t) :
    ({ maxPending := none } : Language).parse text = .ok (.unary .tan t) := by
  have hbrackets : AtomWithin { maxPending := none } 100 ('(' :: s ++ [')']) t := .wrapped .round h
  have htangent : AtomWithin { maxPending := none } 101
      (UnaryOp.tan.name.toList ++ ('(' :: s ++ [')'])) (.unary .tan t) :=
    .function .tan (longestName_call (by decide) (s ++ [')'])) (.part (by simp) hbrackets)
  have hcall : UnaryOp.tan.name.toList ++ ('(' :: s ++ [')']) = "tan(".toList ++ s ++ [')'] := by
    simp [UnaryOp.name]
  refine Language.parse_of_within NumberFormat.hasPlainMarks_standard rfl ?_
  rw [hcall] at htangent
  rw [htext]
  exact .part (.part (by simp) (.part (.part (.part htangent))))

/-- The tangent of a variable, for which there is a derivative and no antiderivative. -/
theorem hasDomain_derive_and_integrate_tangent :
    letI := ElementaryLibrary.firstOrder.scalar
    let engine : Engine :=
      { language := { maxPending := none }, evaluator := { draw := fun _ => 0.5 } }
    let t : Expr Float := .unary .tan (.var "y")
    ElementaryLibrary.firstOrder.Lawful ∧ engine.language.registry.Defined ∧
      engine.language.parse "tan(y)" = .ok t ∧ ¬ t.ReachesRand ∧
      HasDomain engine (derive t "y") (Differentiable engine.evaluator "y" 2 t)
        (engine.isExhausted (3 * t.height + 3) = true) ∧
      HasDomain engine (integrate t "y") (Integrable "y" t)
        (engine.isExhausted (2 * t.height + 2) = true) := by
  let _ := ElementaryLibrary.firstOrder.scalar
  intro engine t
  have hparse : engine.language.parse "tan(y)" = .ok t :=
    parse_tangent rfl (logic_sumText 98 0)
  have hrand : ¬ t.ReachesRand := isDeterministic_iff.1 rfl
  have hlawful := ElementaryLibrary.lawful_firstOrder
  exact ⟨hlawful, .empty, hparse, hrand,
    hasDomain_derive_and_integrate hlawful .empty hparse hrand "y"⟩

/-! ## A formula that is too high -/

/-- The text of the tangent of a sum has no blanks. -/
theorem compact_tangent (n : ℕ) :
    Text.compact (String.ofList ("tan(".toList ++ sumText n ++ [')'])).toList =
      "tan(".toList ++ sumText n ++ [')'] := by
  rw [String.toList_ofList]
  conv_rhs => rw [← compact_sumText n]
  rw [Text.compact, List.filter_append, List.filter_append]
  rfl

/-- The tangent of a high sum has no derivative, because the sum has none, but that is not what the
error says: the sum is copied first. -/
theorem exhausted_derive_tangent :
    let engine : Engine :=
      { language := { maxPending := none }, evaluator := { draw := fun _ => 0.5 } }
    ∃ t, engine.language.parse (String.ofList ("tan(".toList ++ sumText 12000 ++ [')'])) = .ok t ∧
      ¬ t.ReachesRand ∧ ¬ Differentiable engine.evaluator "y" 2 t ∧
      ∃ failure, (derive t "y").run.run engine = (.error failure, engine) ∧
        failure.kind ≠ .derivative := by
  intro engine
  let t : Expr Float := .unary .tan ((Expr.var "y").added 12000)
  have hparse : engine.language.parse _ = .ok t :=
    parse_tangent (compact_tangent 12000) (logic_sumText 98 12000)
  have hdeterministic : t.isDeterministic = true := by
    rw [Expr.isDeterministic]
    exact isDeterministic_added rfl 12000
  have hdomain (n : ℕ) :
      ¬ Differentiable engine.evaluator "y" 2 (.unary .tan ((Expr.var "y").added (n + 1))) := by
    intro htangent
    cases htangent with
    | tan hsum => cases hsum
  -- copying the sum takes a call for each addition
  have hroom : engine.evaluator.maxPending.isExceeded
      (2 + 2 + ((Expr.var "y").added 12000 : Expr Float).copyCalls) = true := by
    rw [copyCalls_added]
    rfl
  have hderive : t.derive engine.evaluator "y" 2 = Transform.of (.error .exhausted) := by
    rw [Expr.derive, if_neg (by decide), Expr.within, if_pos hroom]
    rfl
  exact ⟨t, hparse, isDeterministic_iff.1 hdeterministic, hdomain 11999, _,
    run_derive_of_eq hderive, by decide⟩

end Engine

end Formulary
