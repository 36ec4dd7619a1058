import Formulary.Proofs.Evaluation.Foldable
import Formulary.Proofs.Evaluation.Negations
import Formulary.Proofs.Optimization.Rejection

/-!
# What an optimization leaves

An optimization replaces subtrees in their places and may fail at any of them. Wherever it ends,
what is left of the formula has the outcomes of the formula (`Engine.outcome_of_optimize`,
`Engine.outcome_of_failed_optimize`), up to the limit of depth.

An evaluation takes two calls for each node that it is inside of, and folding takes one. So folding
can find the value of a part that the formula is too deep to evaluate, and then what is left of it
is less deep (`Engine.outcome_of_optimize_too_deep`, `Engine.outcome_of_failed_optimize_too_deep`).
-/

namespace Formulary

open Evaluator Grammar

namespace Engine

section

variable [Scalar Float]

/-- Whatever becomes of it, what is left of a tree stands for the tree, for all draws, and the
engine is left as it is. -/
theorem refines_optimize (engine : Engine) (t : Expr Float) :
    ((optimize t).run engine).2 = engine ∧ ∀ draw,
      Refines (engine.evaluator.withDraw draw) t ((optimize t).run engine).1.tree := by
  by_cases hexhausted : engine.isExhausted (3 + t.analysisCalls) = true
  · rw [run_optimize_of_isExhausted hexhausted]
    exact ⟨rfl, fun _ => .refl t⟩
  · have hroom : engine.isExhausted (3 + t.analysisCalls) = false := by simpa using hexhausted
    cases hseries : t.malformedSeries? with
    | some err =>
      rw [run_optimize_of_malformedSeries hroom hseries]
      exact ⟨rfl, fun _ => .refl t⟩
    | none =>
      obtain ⟨folding, hrun, hrefines, -⟩ := Folding.exists_run engine.evaluator t
      rw [run_optimize_of_run hroom hseries hrun]
      exact ⟨rfl, hrefines⟩

/-- Optimizing a tree takes no draw, and what is left of the tree has its outcomes, from every draw
on, unless the tree is too deep to evaluate. -/
theorem outcome_of_optimize (engine : Engine) (t : Expr Float) (draw : Nat → Float)
    (scope : Scope Float) (start : Nat) :
    let ev := engine.evaluator.withDraw draw
    let result := (optimize t).run engine
    result.2 = engine ∧
      ((ev.evaluate scope result.1.tree).outcome start = (ev.evaluate scope t).outcome start ∨
        (ev.IsLimited ∧ ((ev.evaluate scope t).outcome start).1 = .error .tooDeep)) := by
  obtain ⟨hengine, hrefines⟩ := refines_optimize engine t
  refine ⟨hengine, ?_⟩
  rcases (hrefines draw).within scope 2 start with hdeep | heq
  · exact .inr hdeep
  · exact .inl heq.symm

end

/-- `!…!(f(true)&&y)` is too deep to evaluate where it calls the function, but not to be folded
there, and with the call replaced it has a value. -/
theorem outcome_of_optimize_too_deep :
    let f : Definition (Expr Float) := Negation.function 3000
    let engine : Engine := { language := { registry := ⟨[f]⟩, maxPending := none },
                             evaluator := { draw := fun _ => 0.5 } }
    let scope : Scope Float := .ofBindings [("y", .boolean true)]
    ∃ t, ({ maxPending := none } : Language).define
        (String.ofList ("f(x)=".toList ++ (List.replicate 3000 '!' ++ ['x']))) =
          .ok (f, engine.language) ∧
      engine.language.parse (String.ofList (List.replicate 2600 '!' ++ "(f(true)&&y)".toList)) = .ok t ∧
      ((optimize t).run engine).1.failure = none ∧
      (engine.evaluator.evaluate scope t).outcome 0 = (.error .tooDeep, 0) ∧
      (engine.evaluator.evaluate scope ((optimize t).run engine).1.tree).outcome 0 =
        (.ok (.boolean true), 0) := by
  intro f engine scope
  have hcall : Folding.ofExpr engine.evaluator (3 + 2600) false (Negation.guarded 3000) =
      pure ⟨.binary .and (.const (.boolean true)) (.var "y"), 1, none⟩ := Negation.ofExpr_guarded rfl
  have hrun := Folding.ofExpr_negated (n := 2600)
    (fun _ _ => Folding.attempt_negated (Negation.isFoldable_guarded 3000) _ _) hcall
  have hroom :
      engine.isExhausted (3 + ((Negation.guarded 3000).negated 2600).analysisCalls) = false := by
    rw [Expr.analysisCalls_negated, Negation.analysisCalls_guarded]
    rfl
  have hoptimize : (optimize ((Negation.guarded 3000).negated 2600)).run engine = _ :=
    run_optimize_of_run hroom (Expr.malformedSeries?_negated _ 2600) hrun
  refine ⟨_, Negation.define_function 3000, Negation.parse_guarded 3000 2600, ?_, ?_, ?_⟩
  · rw [hoptimize]
    rfl
  · rw [Evaluator.evaluate, evalAt_negated_of_tooDeep (Negation.evalAt_guarded_of_isTooDeep rfl scope)]
    rfl
  · rw [hoptimize, Evaluator.evaluate, evalAt_negated_of_truth (b := true) rfl]
    rfl

section

variable {lib : ElementaryLibrary} {engine : Engine} {text : String} {t : Expr Float}
  {failure : Failure}

/-- If optimizing a formula fails, what is left of the formula has the outcomes of the formula, or
the formula is too deep to evaluate and there is a calculation error in either case, unless folding
found a part too deep itself. -/
theorem outcome_of_failed_optimize (hlib : lib.Lawful)
    (hregistry : engine.language.registry.Defined)
    (hparse : engine.language.parse text = .ok t)
    (hfailure : letI := lib.scalar; ((optimize t).run engine).1.failure = some failure)
    (draw : Nat → Float) (scope : Scope Float) (start : Nat) :
    letI := lib.scalar
    let ev := engine.evaluator.withDraw draw
    let left := ((optimize t).run engine).1.tree
    (ev.evaluate scope left).outcome start = (ev.evaluate scope t).outcome start ∨
      (ev.IsLimited ∧ ((ev.evaluate scope t).outcome start).1 = .error .tooDeep ∧
        (failure = .evaluation .tooDeep ∨
          ∃ e m, (ev.evaluate scope left).outcome start = (.error e, m) ∧
            e.kind.isCalculation = true)) := by
  let _ := lib.scalar
  have _ := hlib.lawfulDivision
  intro ev left
  have ht : t.WellFormed := Language.wellFormed_of_parse hregistry.wellFormed hparse
  rcases ((refines_optimize engine t).2 draw).within scope 2 start with ⟨hlimited, hdeep⟩ | hsame
  · rcases run_optimize_cases engine ht with ⟨-, hrun⟩ | ⟨folding, hrun, htree, -, hblames⟩
    · have hleft : left = t := congrArg (fun r => r.1.tree) hrun
      exact .inl (hleft ▸ rfl)
    · refine .inr ⟨hlimited, hdeep, ?_⟩
      have hleft : left = folding.tree := congrArg (fun r => r.1.tree) hrun
      rw [hrun] at hfailure
      obtain ⟨err, herr, rfl⟩ := Option.map_eq_some_iff.1 hfailure
      obtain ⟨level, n, hn⟩ := hblames err herr
      by_cases hfound : err = .tooDeep
      · exact .inl (congrArg Failure.evaluation hfound)
      · have hfails := ((hn.calculationFails ht htree).2 draw scope 2 (.inr hfound)).2 start
        exact .inr (hleft ▸ hfails)
  · exact .inl hsame.symm

end

/-- In `!true&&x&&!1`, the first operand is replaced before the last one fails. -/
theorem outcome_of_failed_optimize_conjunction :
    letI := ElementaryLibrary.firstOrder.scalar
    let engine : Engine :=
      { language := { maxPending := none }, evaluator := { draw := fun _ => 0.5 } }
    let t : Expr Float :=
      .binary .and (.binary .and (.unary .not (.const (.boolean true))) (.var "x")) negatedOne
    let left : Expr Float :=
      .binary .and (.binary .and (.const (.boolean false)) (.var "x")) negatedOne
    let failure : Failure := .evaluation (.numberNegated (.real 1.0))
    let ev := engine.evaluator.withDraw fun _ => 0.25
    let scope : Scope Float := .ofBindings [("x", .boolean true)]
    ElementaryLibrary.firstOrder.Lawful ∧ engine.language.registry.Defined ∧
      engine.language.parse "!true&&x&&!1" = .ok t ∧
      (optimize t).run engine = (⟨left, 1, some failure⟩, engine) ∧
      ((ev.evaluate scope left).outcome 0 = (ev.evaluate scope t).outcome 0 ∨
        (ev.IsLimited ∧ ((ev.evaluate scope t).outcome 0).1 = .error .tooDeep ∧
          (failure = .evaluation .tooDeep ∨ ∃ e m, (ev.evaluate scope left).outcome 0 = (.error e, m) ∧
            e.kind.isCalculation = true))) := by
  let _ := ElementaryLibrary.firstOrder.scalar
  intro engine t left failure ev scope
  have hlogic : Logic (AtomWithin { maxPending := none } 101) "!true&&x&&!1".toList t := by
    have hfalse : Operand (AtomWithin { maxPending := none } 101) "!true".toList
        (.unary .not (.const (.boolean true))) := .not (operand_true rfl)
    have hx : Operand (AtomWithin { maxPending := none } 101) ['x'] (.var "x") :=
      operand_letter (by decide) rfl
    have hone : Operand (AtomWithin { maxPending := none } 101) ['!', '1'] negatedOne :=
      .not (operand_one rfl rfl)
    exact .join .and rfl (.join .and rfl (.part hfalse) hx) hone
  have hparse : engine.language.parse "!true&&x&&!1" = .ok t :=
    Language.parse_of_within NumberFormat.hasPlainMarks_standard rfl hlogic
  have hreplaced : Folding.ofExpr engine.evaluator 5 false (.unary .not (.const (.boolean true))) =
      pure { tree := .const (.boolean false), count := 1 } := by
    rw [Folding.ofExpr]
    rfl
  have hfirst := Folding.ofExpr_binary_of_kept .and rfl hreplaced rfl (Folding.ofExpr_var _ _ _ "x")
  have hrun : Folding.run engine.evaluator t =
      pure ⟨left, 1, some (.numberNegated (.real 1.0))⟩ :=
    Folding.ofExpr_binary_of_kept .and rfl hfirst rfl (ofExpr_negatedOne rfl)
  have hoptimize : (optimize t).run engine = (⟨left, 1, some failure⟩, engine) :=
    run_optimize_of_run rfl rfl hrun
  have hlawful := ElementaryLibrary.lawful_firstOrder
  have houtcome := @outcome_of_failed_optimize _ _ _ _ failure hlawful .empty hparse
    (by rw [hoptimize]) (fun _ => 0.25) scope 0
  dsimp only at houtcome
  rw [hoptimize] at houtcome
  exact ⟨hlawful, .empty, hparse, hoptimize, houtcome⟩

/-- In `!…!(f(true)&&y)&&!1`, folding replaces the call before it fails. The formula is too deep to
evaluate where it calls the function, and what is left of it fails with the error that the
optimization failed with. -/
theorem outcome_of_failed_optimize_too_deep :
    let f : Definition (Expr Float) := Negation.function 3000
    let engine : Engine := { language := { registry := ⟨[f]⟩, maxPending := none },
                             evaluator := { draw := fun _ => 0.5 } }
    let scope : Scope Float := .ofBindings [("y", .boolean true)]
    ∃ t, ({ maxPending := none } : Language).define
        (String.ofList ("f(x)=".toList ++ (List.replicate 3000 '!' ++ ['x']))) =
          .ok (f, engine.language) ∧
      engine.language.parse (String.ofList (List.replicate 2600 '!' ++ "(f(true)&&y)&&!1".toList)) =
          .ok t ∧
      ((optimize t).run engine).1.failure = some (.evaluation (.numberNegated (.real 1.0))) ∧
      (engine.evaluator.evaluate scope t).outcome 0 = (.error .tooDeep, 0) ∧
      (engine.evaluator.evaluate scope ((optimize t).run engine).1.tree).outcome 0 =
        (.error (.numberNegated (.real 1.0)), 0) := by
  intro f engine scope
  let t : Expr Float := .binary .and ((Negation.guarded 3000).negated 2600) negatedOne
  have hparse : engine.language.parse
      (String.ofList (List.replicate 2600 '!' ++ "(f(true)&&y)&&!1".toList)) = .ok t := by
    have hone : Operand (AtomWithin (Negation.language 3000) 101) "!1".toList negatedOne :=
      .not (operand_one rfl (Negation.lookup?_language (by decide)))
    have hlogic := Joined.join .and rfl (.part (Negation.operand_guarded 3000 2600 98)) hone
    refine Language.parse_of_within NumberFormat.hasPlainMarks_standard rfl ?_
    rw [String.toList_ofList, Text.compact_negations 2600 rfl]
    rwa [Negation.guardedText, List.append_assoc, List.append_assoc] at hlogic
  have hfolded : Folding.ofExpr engine.evaluator (3 + 1 + 2600) false (Negation.guarded 3000) =
      pure ⟨.binary .and (.const (.boolean true)) (.var "y"), 1, none⟩ := Negation.ofExpr_guarded rfl
  have hfirst := Folding.ofExpr_negated (n := 2600)
    (fun _ _ => Folding.attempt_negated (Negation.isFoldable_guarded 3000) _ _) hfolded
  have hkept : Folding.attempt engine.evaluator 3 false t = pure .kept := by
    refine Folding.attempt_of_left ?_
    rw [Expr.isFoldable_binary, Expr.isFoldable_negated, Negation.isFoldable_guarded]
    rfl
  have hrun := Folding.ofExpr_binary_of_kept .and hkept hfirst rfl (ofExpr_negatedOne rfl)
  have hroom : engine.isExhausted (3 + t.analysisCalls) = false := by
    have hcalls : t.analysisCalls = 8207 := by
      rw [Expr.analysisCalls, Expr.analysisCalls_negated, Negation.analysisCalls_guarded]
      rfl
    rw [hcalls]
    rfl
  have hseries : t.malformedSeries? = none := by
    rw [Expr.malformedSeries?, Expr.malformedSeries?_negated]
    rfl
  have hoptimize : (optimize t).run engine = _ := run_optimize_of_run hroom hseries hrun
  refine ⟨t, Negation.define_function 3000, hparse, ?_, ?_, ?_⟩
  · rw [hoptimize]
    rfl
  · have hdeep : engine.evaluator.evalAt scope 4 ((Negation.guarded 3000).negated 2600) =
        throw .tooDeep := evalAt_negated_of_tooDeep (Negation.evalAt_guarded_of_isTooDeep rfl scope)
    rw [Evaluator.evaluate, evalAt, hdeep]
    rfl
  · have htrue : engine.evaluator.evalAt scope 4
        ((Expr.binary .and (.const (.boolean true)) (.var "y")).negated 2600) =
          pure (.boolean true) := evalAt_negated_of_truth (b := true) rfl
    rw [hoptimize, Evaluator.evaluate, evalAt, htrue]
    rfl

end Engine

end Formulary
