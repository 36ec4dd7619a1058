import Formulary.Engine
import Formulary.Proofs.Expr.FoldingFailure
import Formulary.Proofs.Reachable
import Formulary.Proofs.Syntax.Sums

/-!
# Which formulas an optimization rejects

An optimization fails where a foldable node has an error that no evaluation can avoid. So the
formulas that it rejects have no value (`Engine.calculationFails_of_optimize`), with two exceptions
for the limit of depth. Folding begins three calls further on than an evaluation, so that a node can
be just too deep for it. And the analysis before folding goes through all of a tree and does not
report that there is no room for it, also where evaluations go around the part that is too high
(`Engine.not_calculationFails_lazy`).
-/

namespace Formulary

open Evaluator Grammar

/-! ## Trees that can be analysed -/

namespace Expr

variable {α : Type}

/-- Trees lack nothing together if each of them lacks nothing. -/
theorem malformedSeriesAmong?_eq_none {es : List (Expr α)}
    (h : ∀ e ∈ es, e.malformedSeries? = none) : malformedSeriesAmong? es = none := by
  induction es with
  | nil => rfl
  | cons e es ih =>
    rw [malformedSeriesAmong?, h e (by simp), ih fun e he => h e (by simp [he])]
    rfl

/-- Every series in a well-formed tree has a loop variable and a term. -/
theorem WellFormed.malformedSeries?_eq_none {e : Expr α} (h : e.WellFormed) :
    e.malformedSeries? = none := by
  induction h with
  | const v origin => rfl
  | var name => rfl
  | binary op _ _ ihl ihr =>
    rw [malformedSeries?, ihl, ihr]
    rfl
  | unary f _ ih => rw [malformedSeries?, ih]
  | @builtin f args hf harity hloop hargs ih =>
    rw [malformedSeries?, malformedSeriesAmong?_eq_none ih, Option.none_or]
    by_cases hseries : f.isSeries = true
    · have hcall : (Expr.builtin f args).WellFormed := .builtin hf harity hloop hargs
      obtain ⟨k, start, stop, term, rfl⟩ := (wellFormed_iff_follows.1 hcall).series_args hseries
      simp [seriesFault?, hseries]
    · simp [seriesFault?, hseries]
  | apply _ _ _ _ ih => rw [malformedSeries?, malformedSeriesAmong?_eq_none ih]

end Expr

/-! ## Optimizing -/

namespace Engine

variable [Scalar Float] {engine : Engine} {t : Expr Float}

/-- A tree that there is no room to analyse stays as it is. -/
theorem run_optimize_of_isExhausted (h : engine.isExhausted (3 + t.analysisCalls) = true) :
    (optimize t).run engine = ({ tree := t, failure := some .exhausted }, engine) := by
  change (if engine.isExhausted (3 + t.analysisCalls) then _ else _ : StateM Engine Optimization)
    engine = _
  rw [if_pos h]
  rfl

/-- Nothing is folded in a tree with a series that lacks something. -/
theorem run_optimize_of_malformedSeries {err : EvalError Float}
    (hroom : engine.isExhausted (3 + t.analysisCalls) = false)
    (hseries : t.malformedSeries? = some err) :
    (optimize t).run engine = ({ tree := t, failure := some (.evaluation err) }, engine) := by
  change (if engine.isExhausted (3 + t.analysisCalls) then _ else _ : StateM Engine Optimization)
    engine = _
  rw [if_neg (by simp [hroom]), hseries]
  rfl

/-- Folding leaves the engine as it is. -/
theorem run_fold {folding : Folding Float} (hrun : Folding.run engine.evaluator t = pure folding) :
    (fold t).run engine = (folding, engine) := by
  have hfold : (Folding.run engine.evaluator t).run engine.drawn = (folding, engine.drawn) := by
    rw [hrun]
    rfl
  rw [StateT.run, fold, hfold]

/-- A tree that can be analysed becomes what folding leaves of it. -/
theorem run_optimize_of_run {folding : Folding Float}
    (hroom : engine.isExhausted (3 + t.analysisCalls) = false) (hseries : t.malformedSeries? = none)
    (hrun : Folding.run engine.evaluator t = pure folding) :
    (optimize t).run engine =
      (⟨folding.tree, folding.count, folding.failure.map .evaluation⟩, engine) := by
  change (if engine.isExhausted (3 + t.analysisCalls) then _ else _ : StateM Engine Optimization)
    engine = _
  rw [if_neg (by simp [hroom]), hseries]
  change (fold t >>= fun folding => pure _ : StateM Engine Optimization).run engine = _
  rw [StateT.run_bind, run_fold hrun]
  rfl

/-- What optimizing a well-formed tree comes to. -/
theorem run_optimize_cases (engine : Engine) (ht : t.WellFormed) :
    (engine.isExhausted (3 + t.analysisCalls) = true ∧
      (optimize t).run engine = ({ tree := t, failure := some .exhausted }, engine)) ∨
    ∃ folding : Folding Float, (optimize t).run engine =
        (⟨folding.tree, folding.count, folding.failure.map .evaluation⟩, engine) ∧
      folding.tree.WellFormed ∧
      (∀ draw, Refines (engine.evaluator.withDraw draw) t folding.tree) ∧
      ∀ err, folding.failure = some err →
        ∃ level n, Folding.Blames engine.evaluator 3 false t folding.tree level n err := by
  by_cases hexhausted : engine.isExhausted (3 + t.analysisCalls) = true
  · exact .inl ⟨hexhausted, run_optimize_of_isExhausted hexhausted⟩
  · obtain ⟨folding, hrun, hrefines, hblames⟩ := Folding.exists_run engine.evaluator t
    have htree := ht.run engine.evaluator 0
    rw [hrun] at htree
    have hoptimize :=
      run_optimize_of_run (by simpa using hexhausted) ht.malformedSeries?_eq_none hrun
    exact .inr ⟨folding, hoptimize, htree, hrefines, hblames⟩

end Engine

/-! ## Calculation errors -/

/-- From every draw on, there is a calculation error. -/
def Eval.CalculationFails {α β : Type} (x : Eval α β) : Prop :=
  ∀ start, ∃ e m, x.outcome start = (.error e, m) ∧ e.kind.isCalculation = true

/-- A calculation error is one that a branch may leave to an evaluation. -/
theorem Folding.isCalculation_of_isCalculation_kind {α : Type} {err : EvalError α}
    (h : err.kind.isCalculation = true) : isCalculation err = true := by
  unfold isCalculation
  split
  all_goals simp_all [ErrorKind.isCalculation]

section

variable {α : Type} [Scalar α] [LawfulDivision α] {ev : Evaluator α} {e e' n : Expr α}
  {err : EvalError α} {depth level : Nat}

/-- Where a well-formed tree fails, this is a calculation error. -/
theorem Expr.WellFormed.calculationFails (he : e.WellFormed) {scope : Scope α}
    (h : (ev.evalAt scope depth e).Fails) : (ev.evalAt scope depth e).CalculationFails := by
  intro start
  obtain ⟨err, m, hout⟩ := h start
  have hproper : Proper ((ev.evalAt scope depth e).outcome start).1 :=
    he.proper_evalAt ev scope depth start
  rw [hout] at hproper
  exact ⟨err, m, hout, EvalError.isCalculation_kind (hproper err rfl)⟩

/-- The error that folding a well-formed tree ends with is a calculation error, and so is every
outcome of the tree and of what is left of it, wherever there is no more room for them, or
everywhere if the error is not that of being too deep. -/
theorem Folding.Blames.calculationFails (h : Blames ev depth false e e' level n err)
    (he : e.WellFormed) (he' : e'.WellFormed) :
    err.kind.isCalculation = true ∧ ∀ (draw : Nat → α) (scope : Scope α) (depth' : Nat),
      depth + 2 ≤ depth' ∨ err ≠ .tooDeep →
        ((ev.withDraw draw).evalAt scope depth' e).CalculationFails ∧
          ((ev.withDraw draw).evalAt scope depth' e').CalculationFails := by
  have hproper : Proper ((ev.evalAt .empty (depth + 2 + level) n).outcome 0).1 :=
    (he.of_mem_nodes h.mem).proper_evalAt ev .empty (depth + 2 + level) 0
  rw [h.error] at hproper
  have hkind : err.kind.isCalculation = true := EvalError.isCalculation_kind (hproper err rfl)
  refine ⟨hkind, fun draw scope depth' hplace => ?_⟩
  obtain ⟨-, hstrict, hstrict'⟩ := h.strict (isCalculation_of_isCalculation_kind hkind)
  -- a variable is not foldable
  have hvar : ∀ k, n ≠ .var k := by
    rintro k rfl
    cases h.foldable
  have hfails : ∀ scope depth'', depth' + level ≤ depth'' →
      ((ev.withDraw draw).evalAt scope depth'' n).Fails := by
    intro scope depth'' hle
    rcases hplace with hdepth | hdeep
    · exact fails_of_isFoldable ev h.foldable h.error (by omega) draw scope
    · exact fails_of_ne_tooDeep ev h.foldable h.error hdeep draw scope depth''
  exact ⟨he.calculationFails (hstrict.fails he hvar scope depth' hfails),
    he'.calculationFails (hstrict'.fails he' hvar scope depth' hfails)⟩

end

/-! ## Formulas that are rejected -/

namespace Engine

section

variable {lib : ElementaryLibrary} {engine : Engine} {text : String} {t : Expr Float}
  {failure : Failure}

/-- If optimizing a formula fails, then there is no room to analyse it, or it fails with a
calculation error and every evaluation of the formula has a calculation error as well, with one
exception: if folding found a part too deep, it may just be so for three calls more, which are
pending when folding begins. -/
theorem calculationFails_of_optimize (hlib : lib.Lawful)
    (hregistry : engine.language.registry.Defined)
    (hparse : engine.language.parse text = .ok t)
    (hfailure : letI := lib.scalar; ((optimize t).run engine).1.failure = some failure) :
    letI := lib.scalar
    (failure = .exhausted ∧ engine.isExhausted (3 + t.analysisCalls) = true) ∨
      (failure.kind.isCalculation = true ∧ ∀ (draw : Nat → Float) (scope : Scope Float),
        let ev := engine.evaluator.withDraw draw
        (ev.evalAt scope (2 + 3) t).CalculationFails ∧
          ((ev.evaluate scope t).CalculationFails ∨
            (ev.IsLimited ∧ failure = .evaluation .tooDeep))) := by
  let _ := lib.scalar
  have _ := hlib.lawfulDivision
  have ht : t.WellFormed := Language.wellFormed_of_parse hregistry.wellFormed hparse
  rcases run_optimize_cases engine ht with
    ⟨hexhausted, hrun⟩ | ⟨folding, hrun, htree, -, hblames⟩
  · rw [hrun] at hfailure
    cases hfailure
    exact .inl ⟨rfl, hexhausted⟩
  · rw [hrun] at hfailure
    obtain ⟨err, herr, rfl⟩ := Option.map_eq_some_iff.1 hfailure
    obtain ⟨level, n, hn⟩ := hblames err herr
    obtain ⟨hkind, hcalculation⟩ := hn.calculationFails ht htree
    refine .inr ⟨hkind, fun draw scope => ?_⟩
    intro ev
    have hfurther : (ev.evalAt scope (2 + 3) t).CalculationFails :=
      (hcalculation draw scope (2 + 3) (.inl (Nat.le_refl 5))).1
    refine ⟨hfurther, ?_⟩
    by_cases hdeep : err = .tooDeep
    · subst hdeep
      by_cases hlimited : ev.IsLimited
      · exact .inr ⟨hlimited, rfl⟩
      · -- without a limit, the depth does not matter
        have hsame : ev.evaluate scope t = ev.evalAt scope (2 + 3) t :=
          evalAt_eq_of_not_isLimited hlimited (fun _ _ => rfl) 2 (2 + 3)
        exact .inl (hsame ▸ hfurther)
    · exact .inl (hcalculation draw scope 2 (.inr hdeep)).1

end

end Engine

/-! ## An operand that always fails -/

namespace Engine

/-- `!1` -/
def negatedOne : Expr Float := .unary .not (.const (.real 1.0))

/-- A number is not negated, if there is room to find that out. -/
theorem evalAt_negatedOne [Scalar Float] {ev : Evaluator Float} {depth : Nat}
    (hroom : ev.isTooDeep (depth + 4) = false) (scope : Scope Float) :
    ev.evalAt scope depth negatedOne = throw (.numberNegated (.real 1.0)) := by
  have hroom' : ¬ ev.isTooDeep (depth + 2) = true := fun hdeep => by
    rw [isTooDeep_mono (by omega) hdeep] at hroom
    cases hroom
  rw [negatedOne, evalAt, if_neg hroom', evalAt, if_neg (by simp [hroom])]
  rfl

/-- Folding fails where a number is negated. -/
theorem ofExpr_negatedOne [Scalar Float] {ev : Evaluator Float} {depth : Nat}
    (hroom : ev.isTooDeep (depth + 6) = false) :
    Folding.ofExpr ev depth false negatedOne =
      pure { tree := negatedOne, failure := some (.numberNegated (.real 1.0)) } := by
  have hvalue : ev.evalAt .empty (depth + 2) negatedOne =
      Eval.of (.error (.numberNegated (.real 1.0))) := evalAt_negatedOne hroom .empty
  rw [Folding.ofExpr.eq_def, Folding.attempt_of_foldable rfl rfl hvalue]
  rfl

/-- In `x&&!1`, the second operand always fails. -/
theorem calculationFails_of_optimize_conjunction :
    letI := ElementaryLibrary.firstOrder.scalar
    let engine : Engine :=
      { language := { maxPending := none }, evaluator := { draw := fun _ => 0.5 } }
    let t : Expr Float := .binary .and (.var "x") negatedOne
    let failure : Failure := .evaluation (.numberNegated (.real 1.0))
    ElementaryLibrary.firstOrder.Lawful ∧ engine.language.registry.Defined ∧
      engine.language.parse "x&&!1" = .ok t ∧
      ((optimize t).run engine).1.failure = some failure ∧
      ((failure = .exhausted ∧ engine.isExhausted (3 + t.analysisCalls) = true) ∨
        (failure.kind.isCalculation = true ∧ ∀ (draw : Nat → Float) (scope : Scope Float),
          let ev := engine.evaluator.withDraw draw
          (ev.evalAt scope (2 + 3) t).CalculationFails ∧
            ((ev.evaluate scope t).CalculationFails ∨
              (ev.IsLimited ∧ failure = .evaluation .tooDeep)))) := by
  let _ := ElementaryLibrary.firstOrder.scalar
  intro engine t failure
  have hlogic : Logic (AtomWithin { maxPending := none } 101) "x&&!1".toList t := by
    have hx : Operand (AtomWithin { maxPending := none } 101) ['x'] (.var "x") :=
      operand_letter (by decide) rfl
    have hone : Operand (AtomWithin { maxPending := none } 101) ['!', '1'] negatedOne :=
      .not (operand_one rfl rfl)
    exact .join .and rfl (.part hx) hone
  have hparse : engine.language.parse "x&&!1" = .ok t :=
    Language.parse_of_within NumberFormat.hasPlainMarks_standard rfl hlogic
  have hrun : Folding.run engine.evaluator t =
      pure ⟨t, 0, some (.numberNegated (.real 1.0))⟩ :=
    Folding.ofExpr_binary_of_kept .and rfl (Folding.ofExpr_var _ _ _ "x") rfl (ofExpr_negatedOne rfl)
  have hfailure : ((optimize t).run engine).1.failure = some failure := by
    rw [run_optimize_of_run rfl rfl hrun]
    rfl
  have hlawful := ElementaryLibrary.lawful_firstOrder
  exact ⟨hlawful, .empty, hparse, hfailure,
    calculationFails_of_optimize hlawful .empty hparse hfailure⟩

end Engine

/-! ## A formula that is too high to be analysed -/

namespace Engine

/-- `if(c,1,…)` -/
def lazy (t : Expr Float) : Expr Float := .builtin .cond [.var "c", .const (.real 1.0), t]

/-- The analysis takes two calls more than that of the second branch. -/
theorem analysisCalls_lazy (t : Expr Float) : (lazy t).analysisCalls = max 2 t.analysisCalls + 2 := by
  simp only [lazy, Expr.analysisCalls, Expr.analysisCallsOfAll]
  omega

/-- A condition is read with whatever its second branch is, if the other names are not registered.
-/
theorem parse_lazy {registry : Registry} {s : List Char} {t : Expr Float}
    (hc : registry.lookup? ['c'] = none) (hone : registry.lookup? ['1'] = none)
    (hclear : Clear [','] s) (hblank : Text.compact s = s)
    (h : Logic (AtomWithin { registry, maxPending := none } 100) s t) :
    ({ registry, maxPending := none } : Language).parse
      (String.ofList ("if(c,1,".toList ++ s ++ [')'])) = .ok (lazy t) := by
  let lang : Language := { registry, maxPending := none }
  have hcondition : Operand (AtomWithin lang 100) ['c'] (.var "c") :=
    operand_letter (by decide) hc
  have hbranch : Operand (AtomWithin lang 100) ['1'] (.const (.real 1.0)) := operand_one rfl hone
  have hseparated : ∀ s' ∈ [['c'], ['1'], s], Clear [','] s' := by
    simp only [List.forall_mem_cons]
    exact ⟨.of_forall (by decide), .of_forall (by decide), hclear, by simp⟩
  have hif : AtomWithin lang 101
      (argumentList lang Builtin.cond.name [['c'], ['1'], s]) (lazy t) :=
    .builtin .cond (by decide) hseparated
      (.cons (.part hcondition) (.cons (.part hbranch) (.cons h .nil)))
      ⟨Nat.le_succ 2, Nat.le_refl 3⟩ (by rintro ⟨⟩)
  have hjoin : [','].intercalate [['c'], ['1'], s] = "c,1,".toList ++ s := by
    simp [List.intercalate]
  have htext : argumentList lang Builtin.cond.name [['c'], ['1'], s] =
      "if(c,1,".toList ++ s ++ [')'] := by
    rw [argumentList, show lang.format.argument = [','] from rfl, hjoin]
    simp [Builtin.name]
  have hcompact : Text.compact ("if(c,1,".toList ++ s ++ [')']) = "if(c,1,".toList ++ s ++ [')'] := by
    conv_rhs => rw [← hblank]
    rw [Text.compact, List.filter_append, List.filter_append]
    rfl
  refine Language.parse_of_within NumberFormat.hasPlainMarks_standard rfl ?_
  rw [String.toList_ofList, hcompact]
  rw [htext] at hif
  exact .part (.part (by simp) (.part (.part (.part hif))))

/-- The sum is read as the second branch of a condition. -/
theorem parse_lazy_added (n : Nat) :
    ({ maxPending := none } : Language).parse
      (String.ofList ("if(c,1,".toList ++ sumText n ++ [')'])) =
        .ok (lazy ((Expr.var "y").added n)) := by
  have hplain : ∀ c ∈ sumText n, Bracket.isBracket c = false ∧ c ∉ [','] := by
    intro c hc
    rcases mem_sumText hc with rfl | rfl <;> decide
  exact parse_lazy rfl rfl (.of_forall hplain) (compact_sumText n) (logic_sumText 99 n)

/-- A formula that there is no room to analyse can have a value: the sum is not evaluated. -/
theorem not_calculationFails_lazy :
    let engine : Engine :=
      { language := { maxPending := none }, evaluator := { draw := fun _ => 0.5 } }
    let scope : Scope Float := .ofBindings [("c", .boolean true)]
    ∃ t, engine.language.parse (String.ofList ("if(c,1,".toList ++ sumText 12000 ++ [')'])) =
        .ok t ∧
      ((optimize t).run engine).1.failure = some .exhausted ∧
      Failure.exhausted.kind.isCalculation = false ∧
      (engine.evaluator.evaluate scope t).outcome 0 = (.ok (.real 1.0), 0) := by
  intro engine scope
  have hexhausted :
      engine.isExhausted (3 + (lazy ((Expr.var "y").added 12000)).analysisCalls) = true := by
    rw [analysisCalls_lazy, Expr.analysisCalls_added]
    rfl
  refine ⟨_, parse_lazy_added 12000, ?_, rfl, rfl⟩
  rw [run_optimize_of_isExhausted hexhausted]

end Engine

end Formulary
