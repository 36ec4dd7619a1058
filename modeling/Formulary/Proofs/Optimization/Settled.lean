import Formulary.Proofs.Expr.Settled
import Formulary.Proofs.Optimization.Remainder

/-!
# What an optimization leaves

An optimization that does not fail has replaced every foldable part of the formula that has a value
which can be written and that an evaluation comes to (`Engine.left_of_optimize`), and so optimizing
a second time leaves everything as it is (`Engine.optimize_optimize`).

Both are up to the limit of depth. A part at an optional place that is too deep to be evaluated
there stays as it is, also if it has a value by itself (`Engine.left_of_optimize_too_deep`). With
its own parts replaced it may be less deep, and be replaced when the formula is optimized a second
time (`Engine.optimize_optimize_too_deep`).
-/

namespace Formulary

open Formulary.Expr Evaluator Grammar

/-! ## The calls of the analysis -/

namespace Expr

variable {α : Type}

/-- The trees take draws or not, and there is no less room for the second than for the first one. -/
def AnalysedWithin (e e' : Expr α) : Prop :=
  e'.isDeterministic = e.isDeterministic ∧ e'.analysisCalls ≤ e.analysisCalls

/-- Arguments one by one. -/
theorem AnalysedWithin.all {args args' : List (Expr α)} (h : List.Forall₂ AnalysedWithin args args') :
    allDeterministic args' = allDeterministic args ∧
      analysisCallsOfAll args' ≤ analysisCallsOfAll args := by
  induction h with
  | nil => exact ⟨rfl, Nat.le_refl 0⟩
  | cons he _ ih =>
    rw [allDeterministic, allDeterministic, analysisCallsOfAll, analysisCallsOfAll, he.1, ih.1]
    exact ⟨rfl, max_le_max he.2 ih.2⟩

/-- The room for a tree is that for its parts. -/
theorem AnalysedWithin.congruence : Congruence (AnalysedWithin (α := α)) where
  refl _ := ⟨rfl, Nat.le_refl _⟩
  binary op _ _ _ _ hl hr := by
    refine ⟨by rw [isDeterministic, isDeterministic, hl.1, hr.1], ?_⟩
    rw [analysisCalls, analysisCalls]
    exact Nat.add_le_add_right (max_le_max hl.2 hr.2) 2
  unary f _ _ h := by
    refine ⟨by rw [isDeterministic, isDeterministic, h.1], ?_⟩
    rw [analysisCalls, analysisCalls]
    exact Nat.add_le_add_right h.2 2
  builtin f _ _ h := by
    obtain ⟨hdeterministic, hcalls⟩ := all h
    refine ⟨by rw [isDeterministic, isDeterministic, hdeterministic], ?_⟩
    rw [analysisCalls, analysisCalls]
    exact Nat.add_le_add_right hcalls 2
  apply d _ _ h := by
    obtain ⟨hdeterministic, hcalls⟩ := all h
    refine ⟨by rw [isDeterministic, isDeterministic, hdeterministic], ?_⟩
    rw [analysisCalls, analysisCalls, hdeterministic]
    exact max_le_max (Nat.add_le_add_right hcalls 2) (Nat.le_refl _)

/-- A value takes no more room than what can be folded to it. -/
theorem AnalysedWithin.of_isFoldable {e : Expr α} (h : e.isFoldable = true) (v : Value α) :
    AnalysedWithin e (.const v) := by
  refine ⟨(isFoldable_iff.1 h).2.symm, ?_⟩
  cases e with
  | var => cases h
  | const => exact Nat.le_refl 2
  | binary | unary | builtin =>
    rw [analysisCalls, analysisCalls]
    exact Nat.le_add_left 2 _
  | apply d args =>
    rw [analysisCalls, analysisCalls]
    exact le_max_of_le_left (Nat.le_add_left 2 _)

end Expr

/-- What folding leaves of a tree takes no more room to be analysed. -/
theorem Folding.analysisCalls_folded_le {α : Type} [Scalar α] (ev : Evaluator α) (depth : Nat)
    (conditional : Bool) (e : Expr α) :
    (folded ev depth conditional e).tree.analysisCalls ≤ e.analysisCalls :=
  (rel_folded AnalysedWithin.congruence (fun _ v _ h _ => .of_isFoldable h v) depth conditional e).2

namespace Engine

open Folding (folded)

section

variable [Scalar Float] {engine : Engine} {t : Expr Float}

/-- What optimizing a well-formed tree makes of it, if it does not fail. -/
theorem run_optimize_of_completed (ht : t.WellFormed)
    (h : ((optimize t).run engine).1.failure = none) :
    engine.isExhausted (3 + t.analysisCalls) = false ∧
      (folded engine.evaluator 3 false t).failure = none ∧
      (optimize t).run engine = (⟨(folded engine.evaluator 3 false t).tree,
        (folded engine.evaluator 3 false t).count, none⟩, engine) := by
  have hroom : engine.isExhausted (3 + t.analysisCalls) = false := by
    by_contra hexhausted
    rw [run_optimize_of_isExhausted (by simpa using hexhausted)] at h
    cases h
  have hrun := run_optimize_of_run hroom ht.malformedSeries?_eq_none
    (Folding.ofExpr_eq_folded engine.evaluator 3 false t)
  rw [hrun] at h ⊢
  have hnone : (folded engine.evaluator 3 false t).failure = none := Option.map_eq_none_iff.1 h
  exact ⟨hroom, hnone, by rw [hnone, Option.map_none]⟩

/-- There is room to analyse what is left if there was room to analyse the tree. -/
theorem isExhausted_folded (h : engine.isExhausted (3 + t.analysisCalls) = false) :
    engine.isExhausted (3 + (folded engine.evaluator 3 false t).tree.analysisCalls) = false := by
  rw [← Bool.not_eq_true] at h ⊢
  have hcalls := Folding.analysisCalls_folded_le engine.evaluator 3 false t
  exact fun hexhausted => h (isTooDeep_mono (Nat.add_le_add_left hcalls 3) hexhausted)

/-- Folding a second time does not fail. -/
theorem failure_folded_folded [LawfulDivision Float] (ht : t.WellFormed)
    (h : (folded engine.evaluator 3 false t).failure = none) :
    (folded engine.evaluator 3 false (folded engine.evaluator 3 false t).tree).failure = none := by
  let ev := engine.evaluator
  have htree : (folded ev 3 false t).tree.WellFormed := ht.run ev 0
  rw [Option.eq_none_iff_forall_ne_some]
  intro err herr
  obtain ⟨path, n, hn, hfailed⟩ := Folding.exists_failed herr
  rw [Bool.false_or] at hfailed
  rcases Folding.attempt_of_left_node h hn with hkept | ⟨hoptional, -⟩
  · have heq : Folding.Attempt.failed err = .kept :=
      congrArg Prod.fst (congrFun (hfailed.symm.trans hkept) 0)
    cases heq
  · -- at an optional place, a failure is no calculation error
    obtain ⟨⟨⟩, -⟩ | ⟨-, -, r, hr, hverdict⟩ := Folding.verdict_of_attempt hfailed
    obtain ⟨rfl, hcalculation⟩ := Folding.failed_of_verdict hverdict
    obtain ⟨-, -, hplace, -⟩ := Folding.nodeAt?_folded h hn
    have hproper : Proper ((ev.evalAt .empty (3 + path.length + 2) n).outcome 0).1 :=
      (htree.of_mem_nodes (mem_nodes_iff_nodeAt?.2 ⟨path, hn⟩)).proper_evalAt ev .empty _ 0
    rw [hr] at hproper
    rw [hplace, hoptional, Bool.true_and, Folding.isCalculation_of_isCalculation_kind
      (EvalError.isCalculation_kind (hproper err rfl))] at hcalculation
    cases hcalculation

end

/-- Folding a condition folds its second branch. -/
theorem folded_lazy [Scalar Float] (ev : Evaluator Float) (depth : Nat) (t : Expr Float) :
    folded ev depth false (lazy t) = ⟨lazy (folded ev (depth + 1) true t).tree,
      (folded ev (depth + 1) true t).count, (folded ev (depth + 1) true t).failure⟩ := by
  have hkept : Folding.attempt ev depth false (lazy t) = pure .kept := by
    refine Folding.attempt_of_left ?_
    simp [lazy, isConst, isFoldable, dependence, dependenceOfAll, Dependence.join]
  have hcondition : folded ev (depth + 1) false (.var "c") = { tree := .var "c" } :=
    Folding.folded_of_leaf rfl rfl
  have hbranch : folded ev (depth + 1) true (.const (.real 1.0)) = { tree := .const (.real 1.0) } :=
    Folding.folded_of_leaf rfl rfl
  have hchildren : (lazy t).children = [.var "c", .const (.real 1.0), t] := rfl
  rw [Folding.folded_of_kept hkept, hchildren, Folding.foldedArgs_cons, Folding.foldedArgs_cons,
    Folding.foldedArgs_singleton]
  simp [lazy, isOptionalChild, hcondition, hbranch, withChildren]

/-! ## Optimizing formulas -/

section

variable {lib : ElementaryLibrary} {engine : Engine} {text : String} {t : Expr Float}

/-- If optimizing a formula does not fail, every foldable node that is left has a value that cannot
be written, or fails at an optional place, or stands at such a place for a node that folding found
too deep. The constants that are new are finite, and each of them is counted once. -/
theorem left_of_optimize (hregistry : engine.language.registry.Defined)
    (hparse : engine.language.parse text = .ok t)
    (hcompleted : letI := lib.scalar; ((optimize t).run engine).1.failure = none) :
    letI := lib.scalar
    let result := ((optimize t).run engine).1
    (∀ path n, result.tree.nodeAt? path = some n → n.isConst = false → n.isFoldable = true →
      ∃ r, (∀ (draw : Nat → Float) (scope : Scope Float) (start : Nat),
          ((engine.evaluator.withDraw draw).evaluate scope n).outcome start = (r, start)) ∧
        ((∃ v, r = .ok v ∧ v.isFinite = false) ∨
          ((∃ err, r = .error err) ∧ result.tree.isOptionalAt path = true) ∨
          (result.tree.isOptionalAt path = true ∧ engine.evaluator.TooDeepAt t path))) ∧
    (∀ path v origin, path ∈ newConstants t result.tree →
      result.tree.nodeAt? path = some (.const v origin) → v.isFinite = true) ∧
    (newConstants t result.tree).Nodup ∧ result.count = (newConstants t result.tree).length := by
  let _ := lib.scalar
  have ht : t.WellFormed := Language.wellFormed_of_parse hregistry.wellFormed hparse
  obtain ⟨-, hnone, hrun⟩ := run_optimize_of_completed ht hcompleted
  rw [hrun]
  refine ⟨fun path n hn hconst hfoldable => ?_, fun path v origin hnew hv => ?_,
    nodup_newConstants _ _, (Folding.length_newConstants_folded hnone).symm⟩
  · obtain ⟨r, hr, hcases⟩ := Folding.exists_outcome_of_left hnone hn hconst hfoldable
    refine ⟨r, fun draw scope start => ?_, hcases⟩
    rw [hr draw scope, Eval.outcome_of]
  · exact Folding.isFinite_of_left hnone hv (mem_newConstants.1 hnew).2

end

/-- `if(c,1,!1&&!true)` -/
theorem parse_branch : ({ maxPending := none } : Language).parse "if(c,1,!1&&!true)" =
    .ok (lazy (.binary .and negatedOne (.unary .not (.const (.boolean true))))) := by
  have hone : Operand (AtomWithin { maxPending := none } 100) "!1".toList negatedOne :=
    .not (operand_one rfl rfl)
  have hfalse : Operand (AtomWithin { maxPending := none } 100) "!true".toList
      (.unary .not (.const (.boolean true))) := .not (operand_true rfl)
  have hlogic : Logic (AtomWithin { maxPending := none } 100) "!1&&!true".toList
      (.binary .and negatedOne (.unary .not (.const (.boolean true)))) :=
    .join .and rfl (.part hone) hfalse
  have htext : String.ofList ("if(c,1,".toList ++ "!1&&!true".toList ++ [')']) =
      "if(c,1,!1&&!true)" := rfl
  rw [← htext]
  exact parse_lazy rfl rfl (.of_forall (by decide)) (by decide) hlogic

theorem run_optimize_branch :
    letI := ElementaryLibrary.firstOrder.scalar
    let engine : Engine :=
      { language := { maxPending := none }, evaluator := { draw := fun _ => 0.5 } }
    (optimize (lazy (.binary .and negatedOne (.unary .not (.const (.boolean true)))))).run engine =
      (⟨lazy (.binary .and negatedOne (.const (.boolean false))), 1, none⟩, engine) := by
  let _ := ElementaryLibrary.firstOrder.scalar
  intro engine
  let ev := engine.evaluator
  have hone : folded ev 5 true negatedOne = { tree := negatedOne } := by
    rw [Folding.folded_of_kept rfl, negatedOne, children, Folding.foldedArgs_singleton,
      Folding.folded_of_leaf rfl rfl]
    rfl
  have hfalse : folded ev 5 true (.unary .not (.const (.boolean true))) =
      { tree := .const (.boolean false), count := 1 } := Folding.folded_of_replaced rfl
  have hbranch : folded ev 4 true (.binary .and negatedOne (.unary .not (.const (.boolean true)))) =
      { tree := .binary .and negatedOne (.const (.boolean false)), count := 1 } := by
    rw [Folding.folded_of_kept rfl, children, Folding.foldedArgs_cons,
      Folding.foldedArgs_singleton]
    simp [isOptionalChild, hone, hfalse, withChildren]
  have hrun := run_optimize_of_run rfl rfl (Folding.ofExpr_eq_folded ev 3 false
    (lazy (.binary .and negatedOne (.unary .not (.const (.boolean true))))))
  rw [hrun, folded_lazy, hbranch]
  rfl

/-- In `if(c,1,!1&&!true)`, the second branch fails and is left with `!true` replaced. -/
theorem left_of_optimize_branch :
    letI := ElementaryLibrary.firstOrder.scalar
    let engine : Engine :=
      { language := { maxPending := none }, evaluator := { draw := fun _ => 0.5 } }
    let t := lazy (.binary .and negatedOne (.unary .not (.const (.boolean true))))
    let left := lazy (.binary .and negatedOne (.const (.boolean false)))
    let result := ((optimize t).run engine).1
    engine.language.registry.Defined ∧ engine.language.parse "if(c,1,!1&&!true)" = .ok t ∧
      result = ⟨left, 1, none⟩ ∧
      (∀ path n, result.tree.nodeAt? path = some n → n.isConst = false → n.isFoldable = true →
        ∃ r, (∀ (draw : Nat → Float) (scope : Scope Float) (start : Nat),
            ((engine.evaluator.withDraw draw).evaluate scope n).outcome start = (r, start)) ∧
          ((∃ v, r = .ok v ∧ v.isFinite = false) ∨
            ((∃ err, r = .error err) ∧ result.tree.isOptionalAt path = true) ∨
            (result.tree.isOptionalAt path = true ∧ engine.evaluator.TooDeepAt t path))) ∧
      (∀ path v origin, path ∈ newConstants t result.tree →
        result.tree.nodeAt? path = some (.const v origin) → v.isFinite = true) ∧
      (newConstants t result.tree).Nodup ∧
        result.count = (newConstants t result.tree).length := by
  let _ := ElementaryLibrary.firstOrder.scalar
  intro engine t left result
  have hresult : (optimize t).run engine = (⟨left, 1, none⟩, engine) := run_optimize_branch
  have hcompleted : ((optimize t).run engine).1.failure = none := by rw [hresult]
  exact ⟨.empty, parse_branch, congrArg Prod.fst hresult,
    @left_of_optimize .firstOrder engine _ t .empty parse_branch hcompleted⟩

section

variable {lib : ElementaryLibrary} {engine : Engine} {text : String} {t : Expr Float}

/-- If optimizing a formula does not fail, optimizing the result does not fail either, and it leaves
the result as it is and counts nothing, unless folding found a part of the formula at an optional
place too deep. -/
theorem optimize_optimize (hlib : lib.Lawful) (hregistry : engine.language.registry.Defined)
    (hparse : engine.language.parse text = .ok t)
    (hcompleted : letI := lib.scalar; ((optimize t).run engine).1.failure = none) :
    letI := lib.scalar
    let first := (optimize t).run engine
    let second := (optimize first.1.tree).run first.2
    second.1.failure = none ∧
      (second = (⟨first.1.tree, 0, none⟩, first.2) ∨
        ∃ path, t.isOptionalAt path = true ∧ engine.evaluator.TooDeepAt t path) := by
  let _ := lib.scalar
  have _ := hlib.lawfulDivision
  have ht : t.WellFormed := Language.wellFormed_of_parse hregistry.wellFormed hparse
  obtain ⟨hroom, hnone, hrun⟩ := run_optimize_of_completed ht hcompleted
  intro first second
  let t₁ := (folded engine.evaluator 3 false t).tree
  have ht₁ : t₁.WellFormed := ht.run engine.evaluator 0
  have hsecond : second = (⟨(folded engine.evaluator 3 false t₁).tree,
      (folded engine.evaluator 3 false t₁).count, none⟩, engine) := by
    have hrun₁ := run_optimize_of_run (isExhausted_folded hroom) ht₁.malformedSeries?_eq_none
      (Folding.ofExpr_eq_folded engine.evaluator 3 false t₁)
    rw [failure_folded_folded ht hnone] at hrun₁
    change (optimize ((optimize t).run engine).1.tree).run ((optimize t).run engine).2 = _
    rw [hrun]
    exact hrun₁
  refine ⟨by rw [hsecond], or_iff_not_imp_right.2 fun hdeep => ?_⟩
  have hsettled := Folding.folded_folded hnone fun path hoptional hplace =>
    hdeep ⟨path, hoptional, hplace⟩
  have hfirst : first = (⟨t₁, (folded engine.evaluator 3 false t).count, none⟩, engine) := hrun
  rw [hsecond, hfirst, hsettled]

end

/-- In `if(c,1,!1&&!true)`, optimizing replaces `!true` the first time and nothing the second time.
-/
theorem optimize_optimize_branch :
    letI := ElementaryLibrary.firstOrder.scalar
    let engine : Engine :=
      { language := { maxPending := none }, evaluator := { draw := fun _ => 0.5 } }
    let t := lazy (.binary .and negatedOne (.unary .not (.const (.boolean true))))
    let left := lazy (.binary .and negatedOne (.const (.boolean false)))
    let first := (optimize t).run engine
    let second := (optimize first.1.tree).run first.2
    ElementaryLibrary.firstOrder.Lawful ∧ engine.language.registry.Defined ∧
      engine.language.parse "if(c,1,!1&&!true)" = .ok t ∧ first = (⟨left, 1, none⟩, engine) ∧
      second.1.failure = none ∧
      (second = (⟨first.1.tree, 0, none⟩, first.2) ∨
        ∃ path, t.isOptionalAt path = true ∧ engine.evaluator.TooDeepAt t path) := by
  let _ := ElementaryLibrary.firstOrder.scalar
  intro engine t left first second
  have hfirst : first = (⟨left, 1, none⟩, engine) := run_optimize_branch
  have hcompleted : ((optimize t).run engine).1.failure = none := by
    change first.1.failure = none
    rw [hfirst]
  have hlawful := ElementaryLibrary.lawful_firstOrder
  exact ⟨hlawful, .empty, parse_branch, hfirst,
    optimize_optimize hlawful .empty parse_branch hcompleted⟩

end Engine

/-! ## A branch that is too deep -/

/-- The places behind negations. -/
theorem Expr.nodeAt?_negated (e : Expr Float) (n : Nat) (path : List Nat) :
    (e.negated n).nodeAt? (List.replicate n 0 ++ path) = e.nodeAt? path := by
  induction n with
  | zero => rfl
  | succ n ih => exact ih

namespace Engine

/-- What optimizing a condition makes of its second branch, if it does not fail there. -/
theorem run_optimize_lazy [Scalar Float] {engine : Engine} {t : Expr Float} {a : Folding Float}
    (hroom : engine.isExhausted (3 + (lazy t).analysisCalls) = false)
    (hseries : t.malformedSeries? = none) (ha : Folding.ofExpr engine.evaluator 4 true t = pure a)
    (hnone : a.failure = none) :
    (optimize (lazy t)).run engine = (⟨lazy a.tree, a.count, none⟩, engine) := by
  have hwhole : (lazy t).malformedSeries? = none := by
    simp [lazy, malformedSeries?, malformedSeriesAmong?, seriesFault?, Builtin.isSeries, hseries]
  rw [run_optimize_of_run hroom hwhole (Folding.ofExpr_eq_folded engine.evaluator 3 false _),
    folded_lazy, Folding.folded_of_ofExpr ha, hnone]
  rfl

/-- In `if(c,1,!…!(f(true)&&y))`, there is too little room for folding to evaluate the call, which
has a value by itself. -/
theorem left_of_optimize_too_deep :
    let f : Definition (Expr Float) := Negation.function 4500
    let engine : Engine := { language := { registry := ⟨[f]⟩, maxPending := none },
                             evaluator := { draw := fun _ => 0.5 } }
    ∃ t path n, ({ maxPending := none } : Language).define
        (String.ofList ("f(x)=".toList ++ (List.replicate 4500 '!' ++ ['x']))) =
          .ok (f, engine.language) ∧
      engine.language.parse (String.ofList ("if(c,1,".toList ++
        (List.replicate 1500 '!' ++ "(f(true)&&y)".toList) ++ [')'])) = .ok t ∧
      (optimize t).run engine = (⟨t, 0, none⟩, engine) ∧
      t.nodeAt? path = some n ∧ n.isConst = false ∧ n.isFoldable = true ∧
      (Value.boolean true : Value Float).isFinite = true ∧
      ∀ (draw : Nat → Float) (scope : Scope Float) (start : Nat),
        ((engine.evaluator.withDraw draw).evaluate scope n).outcome start =
          (.ok (.boolean true), start) := by
  intro f engine
  let branch := (Negation.guarded 4500).negated 1500
  have hparse := parse_lazy (Negation.lookup?_language (by decide))
    (Negation.lookup?_language (by decide)) (Negation.clear_guardedText 1500)
    (Text.compact_negations 1500 rfl)
    (.part (Negation.operand_guarded 4500 1500 97))
  have hfolded : Folding.ofExpr engine.evaluator (4 + 1500) true (Negation.guarded 4500) =
      pure { tree := Negation.guarded 4500 } := Negation.ofExpr_guarded_of_isTooDeep rfl
  have hbranch := Folding.ofExpr_negated (n := 1500)
    (fun _ _ => Folding.attempt_negated (Negation.isFoldable_guarded 4500) _ _) hfolded
  have hroom : engine.isExhausted (3 + (lazy branch).analysisCalls) = false := by
    rw [analysisCalls_lazy, Expr.analysisCalls_negated, Negation.analysisCalls_guarded]
    rfl
  have hoptimize :=
    run_optimize_lazy hroom (Expr.malformedSeries?_negated _ 1500) hbranch rfl
  refine ⟨lazy branch, 2 :: (List.replicate 1500 0 ++ [0]), Negation.call 4500,
    Negation.define_function 4500, hparse, hoptimize, ?_, rfl, Negation.isFoldable_call 4500, rfl, ?_⟩
  · exact nodeAt?_cons_eq_some.2 ⟨branch, rfl, Expr.nodeAt?_negated (Negation.guarded 4500) 1500 [0]⟩
  · intro draw scope start
    have hvalue : (engine.evaluator.withDraw draw).evaluate scope (Negation.call 4500) =
        pure (.boolean true) := Negation.evalAt_call _ scope 4500 2
    rw [hvalue]
    rfl

/-- In `if(c,1,!…!f(true))`, optimizing a second time replaces what folding found too deep the first
time. -/
theorem optimize_optimize_too_deep :
    let f : Definition (Expr Float) := Negation.function 4200
    let engine : Engine := { language := { registry := ⟨[f]⟩, maxPending := none },
                             evaluator := { draw := fun _ => 0.5 } }
    ∃ t, ({ maxPending := none } : Language).define
        (String.ofList ("f(x)=".toList ++ (List.replicate 4200 '!' ++ ['x']))) =
          .ok (f, engine.language) ∧
      engine.language.parse (String.ofList ("if(c,1,".toList ++
        (List.replicate 1000 '!' ++ "f(true)".toList) ++ [')'])) = .ok t ∧
      let first := (optimize t).run engine
      let second := (optimize first.1.tree).run first.2
      first.1.failure = none ∧ second.1.failure = none ∧ second.1.count = 1 := by
  intro f engine
  let ev := engine.evaluator
  let call := Negation.call 4200
  have hparse := parse_lazy (Negation.lookup?_language (by decide))
    (Negation.lookup?_language (by decide)) (clear_negations 1000 Negation.clear_call)
    (Text.compact_negations 1000 rfl)
    (.part ((Negation.operand_call 4200 98).negated 1000))
  have hconst (n : Nat) : (call.negated n).isConst = false := Expr.isConst_negated _ n rfl
  have hfoldable (n : Nat) : (call.negated n).isFoldable = true := by
    rw [Expr.isFoldable_negated, Negation.isFoldable_call]
  have hvalue (n depth : Nat) := evalAt_negated (Negation.evalAt_call ev .empty 4200) n depth
  -- the first time, there are 427 negations too many in front
  have hkept : ∀ k < 427,
      Folding.attempt ev (4 + k) true ((call.negated 573).negated (427 - k)) = pure .kept := by
    intro k hk
    rw [Expr.negated_negated]
    have hdeep : ev.isTooDeep (4 + k + 2 + 2 * (573 + (427 - k)) + (2 * 4200 + 6)) = true := by
      have hlimit : ev.maxPending = some 9985 := rfl
      rw [isTooDeep, hlimit, CallLimit.isExceeded, decide_eq_true_eq]
      omega
    have hvalue' := hvalue (573 + (427 - k)) (4 + k + 2)
    rw [if_pos hdeep] at hvalue'
    exact Folding.attempt_of_foldable (hconst _) (hfoldable _) hvalue'
  have hinner : Folding.ofExpr ev (4 + 427) true (call.negated 573) =
      pure { tree := .const (.boolean false), count := 1 } := by
    have hroom : ¬ ev.isTooDeep (4 + 427 + 2 + 2 * 573 + (2 * 4200 + 6)) = true := by decide
    have hvalue' := hvalue 573 (4 + 427 + 2)
    rw [if_neg hroom] at hvalue'
    rw [Folding.ofExpr.eq_def, Folding.attempt_of_foldable (hconst 573) (hfoldable 573) hvalue']
    rfl
  have hfirst := Folding.ofExpr_negated (n := 427) hkept hinner
  rw [Expr.negated_negated] at hfirst
  -- the second time, there is a constant behind them
  have hsecond : Folding.ofExpr ev 4 true ((Expr.const (.boolean false)).negated 427) =
      pure { tree := .const (.boolean true), count := 1 } := by
    have hvalue : ev.evalAt .empty 6 ((Expr.const (.boolean false)).negated 427) =
        Eval.of (.ok (.boolean true)) := evalAt_negated_of_truth (b := false) rfl
    rw [Folding.ofExpr.eq_def, Folding.attempt_of_foldable rfl (Expr.isFoldable_negated _ 427) hvalue]
    rfl
  have hroom : engine.isExhausted (3 + (lazy (call.negated 1000)).analysisCalls) = false := by
    rw [analysisCalls_lazy, Expr.analysisCalls_negated, Negation.analysisCalls_call]
    rfl
  have hroom' : engine.isExhausted
      (3 + (lazy ((Expr.const (.boolean false)).negated 427)).analysisCalls) = false := by
    rw [analysisCalls_lazy, Expr.analysisCalls_negated]
    rfl
  have hoptimize := run_optimize_lazy hroom (Expr.malformedSeries?_negated _ 1000) hfirst rfl
  have hagain := run_optimize_lazy hroom' (Expr.malformedSeries?_negated _ 427) hsecond rfl
  refine ⟨_, Negation.define_function 4200, hparse, ?_⟩
  rw [hoptimize]
  refine ⟨rfl, ?_⟩
  rw [hagain]
  exact ⟨rfl, rfl⟩

end Engine

end Formulary
