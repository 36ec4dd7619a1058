import Formulary.Proofs.Evaluation.Strict

/-!
# Where folding fails

A failure of folding is the error of one foldable node (`Folding.ofExpr_blames`). Folding leaves
that node in place. If an evaluation may report its error, the node is at a strict position, in the
tree and in what is left of it: else folding would have left the error for an evaluation to report.

A foldable node that fails with nothing bound fails wherever there is no more room for it
(`Folding.fails_of_isFoldable`), so evaluating the tree cannot succeed there. What is left of the
tree stands for it, also for other draws than those of the evaluator that folds
(`Folding.exists_run`).
-/

namespace Formulary

open Formulary.Expr Evaluator

variable {α : Type} [Scalar α] (ev : Evaluator α)

namespace Folding

/-- Folding with `ev` makes `e'` of the tree `e` and fails with the error that its node `n` has so
many levels down. -/
structure Blames (depth : Nat) (conditional : Bool) (e e' : Expr α) (level : Nat) (n : Expr α)
    (err : EvalError α) : Prop where
  mem : n ∈ e.nodes
  foldable : n.isFoldable = true
  error : ev.evalAt .empty (depth + 2 + level) n = Eval.of (.error err)
  strict (h : isCalculation err = true) :
    conditional = false ∧ n.Strict level e ∧ n.Strict level e'

variable {ev}

/-- What folding a child fails with is what folding the tree fails with. -/
theorem Blames.of_child {depth level : Nat} {conditional conditional' : Bool} {a a' e e' n : Expr α}
    {err : EvalError α} (h : Blames ev (depth + 1) conditional' a a' level n err)
    (ha : a ∈ e.children) (hstrict : conditional' = false → conditional = false ∧
      (n.Strict level a → n.Strict (level + 1) e) ∧ (n.Strict level a' → n.Strict (level + 1) e')) :
    Blames ev depth conditional e e' (level + 1) n err := by
  have hdepth : depth + 1 + 2 + level = depth + 2 + (level + 1) := by omega
  refine ⟨mem_nodes_of_mem_children ha h.mem, h.foldable, hdepth ▸ h.error, fun hcalculation => ?_⟩
  obtain ⟨hconditional, hbefore, hafter⟩ := h.strict hcalculation
  obtain ⟨hfalse, hlift, hlift'⟩ := hstrict hconditional
  exact ⟨hfalse, hlift hbefore, hlift' hafter⟩

variable (ev)

mutual

/-- A failure of folding is the error of a foldable node. -/
theorem ofExpr_blames (depth : Nat) (conditional : Bool) (e : Expr α) :
    ∃ folding, ofExpr ev depth conditional e = pure folding ∧
      ∀ err, folding.failure = some err →
        ∃ level n, Blames ev depth conditional e folding.tree level n err := by
  obtain ⟨a, ha, -, hfailed⟩ := attempt_eq_pure ev depth conditional e
  cases a with
  | replaced v =>
    rw [ofExpr.eq_def, ha]
    exact ⟨_, rfl, by rintro err ⟨⟩⟩
  | failed err =>
    obtain ⟨hfoldable, herror, hunconditional⟩ := hfailed err rfl
    rw [ofExpr.eq_def, ha]
    refine ⟨_, rfl, fun err' herr => ?_⟩
    cases herr
    exact ⟨0, e, mem_nodes_self e, hfoldable, herror, fun hcalculation =>
      ⟨by simpa [hcalculation] using hunconditional, .self, .self⟩⟩
  | kept =>
    match e with
    | .const v origin =>
      rw [ofExpr, ha]
      exact ⟨_, rfl, by rintro err ⟨⟩⟩
    | .var name =>
      rw [ofExpr, ha]
      exact ⟨_, rfl, by rintro err ⟨⟩⟩
    | .binary op l r =>
      obtain ⟨foldedL, hl, hblamesL⟩ := ofExpr_blames (depth + 1) conditional l
      obtain ⟨foldedR, hr, hblamesR⟩ := ofExpr_blames (depth + 1) conditional r
      rw [ofExpr, ha, pure_bind]
      dsimp only
      rw [hl, pure_bind]
      by_cases hfailedL : foldedL.failure.isSome = true
      · rw [if_pos hfailedL]
        refine ⟨_, rfl, fun err herr => ?_⟩
        obtain ⟨level, n, hn⟩ := hblamesL err herr
        exact ⟨level + 1, n, hn.of_child (by simp [children]) fun h => ⟨h, .left op, .left op⟩⟩
      · rw [if_neg hfailedL, hr]
        refine ⟨_, rfl, fun err herr => ?_⟩
        obtain ⟨level, n, hn⟩ := hblamesR err herr
        exact ⟨level + 1, n, hn.of_child (by simp [children]) fun h => ⟨h, .right op, .right op⟩⟩
    | .unary f x =>
      obtain ⟨folded, hx, hblames⟩ := ofExpr_blames (depth + 1) conditional x
      rw [ofExpr, ha, pure_bind]
      dsimp only
      rw [hx]
      refine ⟨_, rfl, fun err herr => ?_⟩
      obtain ⟨level, n, hn⟩ := hblames err herr
      exact ⟨level + 1, n, hn.of_child (by simp [children]) fun h => ⟨h, .operand f, .operand f⟩⟩
    | .builtin f args =>
      obtain ⟨folded, hargs, hblames⟩ :=
        ofArgs_blames (depth + 1) (fun index => conditional || isConditional f index) 0 args
      rw [ofExpr, ha, pure_bind]
      dsimp only
      rw [hargs]
      refine ⟨_, rfl, fun err herr => ?_⟩
      obtain ⟨index, a, a', level, n, hindex, hindex', hn⟩ := hblames err herr
      refine ⟨level + 1, n, hn.of_child (List.mem_of_getElem? hindex) fun h => ?_⟩
      -- an argument that is not conditional is always evaluated
      obtain ⟨hconditional, hposition⟩ := Bool.or_eq_false_iff.1 h
      rw [Nat.zero_add] at hposition
      exact ⟨hconditional, .argument hindex hposition, .argument hindex' hposition⟩
    | .apply d args =>
      obtain ⟨folded, hargs, hblames⟩ := ofArgs_blames (depth + 1) (fun _ => conditional) 0 args
      rw [ofExpr, ha, pure_bind]
      dsimp only
      rw [hargs]
      refine ⟨_, rfl, fun err herr => ?_⟩
      obtain ⟨index, a, a', level, n, hindex, hindex', hn⟩ := hblames err herr
      exact ⟨level + 1, n, hn.of_child (List.mem_of_getElem? hindex) fun h =>
        ⟨h, .parameter (List.mem_of_getElem? hindex), .parameter (List.mem_of_getElem? hindex')⟩⟩

/-- A failure of folding arguments is one of folding the argument with some index. -/
theorem ofArgs_blames (depth : Nat) (conditional : Nat → Bool) (first : Nat) (es : List (Expr α)) :
    ∃ folding, ofArgs ev depth conditional first es = pure folding ∧
      ∀ err, folding.failure = some err → ∃ index a a' level n, es[index]? = some a ∧
        folding.trees[index]? = some a' ∧
          Blames ev depth (conditional (first + index)) a a' level n err := by
  match es with
  | [] =>
    rw [ofArgs]
    exact ⟨_, rfl, by rintro err ⟨⟩⟩
  | e :: es =>
    obtain ⟨folded, he, hblames⟩ := ofExpr_blames depth (conditional first) e
    obtain ⟨foldedRest, hes, hblamesRest⟩ := ofArgs_blames depth conditional (first + 1) es
    rw [ofArgs, he, pure_bind]
    by_cases hfailed : folded.failure.isSome = true
    · rw [if_pos hfailed]
      refine ⟨_, rfl, fun err herr => ?_⟩
      obtain ⟨level, n, hn⟩ := hblames err herr
      exact ⟨0, e, folded.tree, level, n, rfl, rfl, hn⟩
    · rw [if_neg hfailed, hes]
      refine ⟨_, rfl, fun err herr => ?_⟩
      obtain ⟨index, a, a', level, n, hindex, hindex', hn⟩ := hblamesRest err herr
      rw [Nat.add_right_comm] at hn
      exact ⟨index + 1, a, a', level, n, hindex, hindex', hn⟩

end

/-- Folding takes no draw. What it leaves stands for the tree, for all draws, and what it fails with
is the error of a node. -/
theorem exists_run (e : Expr α) :
    ∃ folding, run ev e = pure folding ∧
      (∀ draw, Refines (ev.withDraw draw) e folding.tree) ∧
        ∀ err, folding.failure = some err →
          ∃ level n, Blames ev 3 false e folding.tree level n err := by
  obtain ⟨folding, hrun, hblames⟩ := ofExpr_blames ev 3 false e
  refine ⟨folding, hrun, fun draw => ?_, hblames⟩
  -- the value of a foldable node is the same for other draws
  have hvalue : ∀ n v depth, n.isFoldable = true → ev.evalAt .empty depth n = Eval.of (.ok v) →
      Refines (ev.withDraw draw) n (.const v) := by
    intro n v depth hfoldable hv
    obtain ⟨r, hr⟩ := evalAt_of_isFoldable ev hfoldable depth
    have hsame : (ev.withDraw draw).evalAt .empty depth n = ev.evalAt .empty depth n :=
      (hr draw .empty).trans (hr ev.draw .empty).symm
    exact refines_const (ev.withDraw draw) hfoldable (hsame.trans hv)
  obtain ⟨folding', hrun', hrefines⟩ := ofExpr_eq_pure ev Refines.congruence hvalue 3 false e
  have heq : folding' = folding := congrArg Prod.fst (congrFun (hrun'.symm.trans hrun) 0)
  exact heq ▸ hrefines

/-- A foldable node that fails with nothing bound fails in every scope and for all draws, wherever
at least as many calls are pending. -/
theorem fails_of_isFoldable {n : Expr α} {err : EvalError α} {depth depth' : Nat}
    (hfoldable : n.isFoldable = true) (herror : ev.evalAt .empty depth n = Eval.of (.error err))
    (hle : depth ≤ depth') (draw : Nat → α) (scope : Scope α) :
    ((ev.withDraw draw).evalAt scope depth' n).Fails := by
  obtain ⟨r, hr⟩ := evalAt_of_isFoldable ev hfoldable depth'
  have hwithin : Eval.Within ev.IsLimited (ev.evalAt .empty depth' n) (ev.evalAt .empty depth n) :=
    evalAt_within n (.of_le ev hle) (.refl _ _ _)
  rw [herror] at hwithin
  rw [hr draw scope, ← hr ev.draw .empty]
  exact hwithin.fails

/-- If it does not fail for being too deep, it fails at every depth. -/
theorem fails_of_ne_tooDeep {n : Expr α} {err : EvalError α} {depth : Nat}
    (hfoldable : n.isFoldable = true) (herror : ev.evalAt .empty depth n = Eval.of (.error err))
    (hdeep : err ≠ .tooDeep) (draw : Nat → α) (scope : Scope α) (depth' : Nat) :
    ((ev.withDraw draw).evalAt scope depth' n).Fails := by
  obtain ⟨r, hr⟩ := evalAt_of_isFoldable ev hfoldable depth'
  have hwithin : Eval.Within ev.IsLimited (ev.evalAt .empty depth' n) (Eval.of (.error err)) :=
    evalAt_within_of_isFoldable ev hfoldable herror (fun heq => hdeep (Except.error.inj heq)) _ _
  rw [hr draw scope, ← hr ev.draw .empty]
  exact hwithin.fails

end Folding

end Formulary
