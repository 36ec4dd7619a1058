import Formulary.Proofs.Evaluation.Dependence
import Formulary.Proofs.Expr.Congruence

/-!
# Trees that stand for one another

A tree `Refines` another one if it has the same outcomes in every scope and at every depth, up to
the limit. A transformation of trees is sound if its result is related to the tree, and as the
relation passes through every sort of node, only the places where the transformation changes
something have to be looked at.

The loop variable of a series is a child that is no operand, so related trees are also the same
variable, if one of them is a variable.
-/

namespace Formulary.Evaluator

variable {α : Type} [Scalar α]

/-- The outcomes of `e` are those of `e'`, up to the limit of depth. -/
structure Refines (ev : Evaluator α) (e e' : Expr α) : Prop where
  within (scope : Scope α) (depth : Nat) :
    Eval.Within ev.IsLimited (ev.evalAt scope depth e) (ev.evalAt scope depth e')
  var (k : String) : e = .var k ↔ e' = .var k

namespace Refines

variable {ev : Evaluator α} {e e' l l' r r' : Expr α} {args args' : List (Expr α)}

/-- A tree stands for itself. -/
theorem refl (e : Expr α) : Refines ev e e := ⟨fun _ _ => .refl _, fun _ => .rfl⟩

/-- What stands for a tree stands for what that tree stands for. -/
theorem trans {e'' : Expr α} (h : Refines ev e e') (h' : Refines ev e' e'') : Refines ev e e'' :=
  ⟨fun scope depth => (h.within scope depth).trans (h'.within scope depth),
    fun k => (h.var k).trans (h'.var k)⟩

/-- An operator with operands that stand for others. -/
theorem binary (op : BinaryOp) (hl : Refines ev l l') (hr : Refines ev r r') :
    Refines ev (.binary op l r) (.binary op l' r') := by
  refine ⟨fun scope depth => ?_, by simp⟩
  rw [evalAt, evalAt]
  exact (Below.refl ev depth).guard 2
    (.bind (hl.within scope _) fun _ => .bind (hr.within scope _) fun _ => .refl _)

/-- A function with an operand that stands for another. -/
theorem unary (f : UnaryOp) (h : Refines ev e e') : Refines ev (.unary f e) (.unary f e') := by
  refine ⟨fun scope depth => ?_, by simp⟩
  rw [evalAt, evalAt]
  exact (Below.refl ev depth).guard 2 (.bind (h.within scope _) fun _ => .refl _)

/-- Arguments that stand for others have values that stand for theirs. -/
theorem evalAll_within (h : List.Forall₂ (Refines ev) args args') (scope : Scope α) (depth : Nat) :
    Eval.Within ev.IsLimited (ev.evalAll scope depth args) (ev.evalAll scope depth args') := by
  induction h with
  | nil => exact .refl _
  | cons he _ ih =>
    rw [evalAll, evalAll]
    exact .bind (he.within scope depth) fun _ => .bind ih fun _ => .refl _

/-- A call of a defined function with arguments that stand for others. -/
theorem apply (d : Definition (Expr α)) (h : List.Forall₂ (Refines ev) args args') :
    Refines ev (.apply d args) (.apply d args') := by
  refine ⟨fun scope depth => ?_, by simp⟩
  rw [evalAt, evalAt]
  exact (Below.refl ev depth).guard 2 (.bind (evalAll_within h scope _) fun _ => .refl _)

/-- The branches of a condition. -/
theorem evalBranch_within (h : List.Forall₂ (Refines ev) args args') (scope : Scope α)
    (depth : Nat) (b : Bool) :
    Eval.Within ev.IsLimited (ev.evalBranch scope depth b args)
      (ev.evalBranch scope depth b args') := by
  match args, args', h with
  | [], [], .nil => exact .refl _
  | [yes], [yes'], .cons hyes .nil =>
    rw [evalBranch, evalBranch]
    cases b with
    | true => exact hyes.within scope depth
    | false => exact .refl _
  | yes :: no :: rest, yes' :: no' :: rest', .cons hyes (.cons hno _) =>
    rw [evalBranch, evalBranch]
    cases b with
    | true => exact hyes.within scope depth
    | false => exact hno.within scope depth

/-- The bounds and the term of a series. -/
theorem evalSeries_within (h : List.Forall₂ (Refines ev) args args') (scope : Scope α)
    (depth : Nat) (f : Builtin) (k : String) :
    Eval.Within ev.IsLimited (ev.evalSeries scope depth f k args)
      (ev.evalSeries scope depth f k args') := by
  match args, args', h with
  | [], [], .nil => exact .refl _
  | [start], [start'], .cons hstart .nil =>
    rw [evalSeries, evalSeries]
    exact .bind (hstart.within scope depth) fun _ => .refl _
  | start :: stop :: term, start' :: stop' :: term', .cons hstart (.cons hstop hterm) =>
    rw [evalSeries, evalSeries]
    refine .bind (hstart.within scope depth) fun _ => .bind (hstop.within scope depth) fun _ =>
      series_within rfl fun x => ?_
    cases hterm with
    | nil => exact .refl _
    | cons hterm _ =>
      rw [evalTerm, evalTerm]
      exact hterm.within _ depth

/-- A call of a builtin function with arguments that stand for others. -/
theorem builtin (f : Builtin) (h : List.Forall₂ (Refines ev) args args') :
    Refines ev (.builtin f args) (.builtin f args') := by
  refine ⟨fun scope depth => ?_, by simp⟩
  rw [evalAt, evalAt]
  refine (Below.refl ev depth).guard 2 ?_
  cases Builtin.shape f args with
  | other name args =>
    rw [evalCall, evalCall]
    exact .refl _
  | cond condition branches =>
    obtain ⟨condition', branches', hcondition, hbranches, rfl⟩ := List.forall₂_cons_left_iff.1 h
    rw [evalCall, evalCall]
    exact .bind (hcondition.within scope _) fun _ => .bind (.refl _) fun b =>
      evalBranch_within hbranches scope _ b
  | rand limit rest =>
    obtain ⟨limit', rest', hlimit, hrest, rfl⟩ := List.forall₂_cons_left_iff.1 h
    rw [evalCall, evalCall]
    exact .bind (hlimit.within scope _) fun _ => .refl _
  | series hf k args =>
    obtain ⟨variable', args', hvariable, hargs, rfl⟩ := List.forall₂_cons_left_iff.1 h
    obtain rfl := (hvariable.var k).1 rfl
    rw [evalCall_series _ _ _ hf, evalCall_series _ _ _ hf]
    exact evalSeries_within hargs scope _ f k
  | missing hf =>
    obtain rfl := List.forall₂_nil_left_iff.1 h
    exact .refl _
  | noVariable hf he rest =>
    obtain ⟨e', rest', hrefines, hrest, rfl⟩ := List.forall₂_cons_left_iff.1 h
    have he' : ∀ k, e' ≠ .var k := fun k hk => he k ((hrefines.var k).2 hk)
    rw [evalCall_noVariable _ _ _ hf he, evalCall_noVariable _ _ _ hf he']
    exact .refl _

/-- Where a constant comes from does not matter. -/
theorem const (v : Value α) (origin origin' : Option Origin) :
    Refines ev (.const v origin) (.const v origin') := by
  refine ⟨fun scope depth => ?_, by simp⟩
  rw [evalAt, evalAt]
  exact .refl _

/-- A constant has its value, unless it is too deep. -/
theorem evalAt_const_within (scope : Scope α) (depth : Nat) (v : Value α) :
    Eval.Within ev.IsLimited (ev.evalAt scope depth (.const v)) (pure v) := by
  rw [evalAt]
  by_cases hdeep : ev.isTooDeep (depth + 2) = true
  · rw [if_pos hdeep]
    exact .tooDeep (isLimited_of_isTooDeep hdeep)
  · rw [if_neg hdeep]
    exact .refl _

/-- A function of a constant is as good as its value. -/
theorem unary_const {f : UnaryOp} {v w : Value α} (h : v.applyUnary f = .ok w) :
    Refines ev (.unary f (.const v)) (.const w) := by
  refine ⟨fun scope depth => ?_, by simp⟩
  rw [evalAt, evalAt]
  refine (Below.refl ev depth).guard 2 ?_
  have hvalue : (pure v >>= fun v => Eval.of (v.applyUnary f)) = (pure w : Eval α (Value α)) := by
    rw [pure_bind, h]
    rfl
  rw [← hvalue]
  exact .bind (evalAt_const_within scope _ v) fun _ => .refl _

/-- An operator between constants is as good as its value. -/
theorem binary_const {op : BinaryOp} {a b v : Value α} (h : a.applyBinary op b = .ok v) :
    Refines ev (.binary op (.const a) (.const b)) (.const v) := by
  refine ⟨fun scope depth => ?_, by simp⟩
  rw [evalAt, evalAt]
  refine (Below.refl ev depth).guard 2 ?_
  have hvalue : (pure a >>= fun a => pure b >>= fun b => Eval.of (a.applyBinary op b)) =
      (pure v : Eval α (Value α)) := by
    rw [pure_bind, pure_bind, h]
    rfl
  rw [← hvalue]
  exact .bind (evalAt_const_within scope _ a) fun _ =>
    .bind (evalAt_const_within scope _ b) fun _ => .refl _

/-- Refinement passes through every sort of node. -/
theorem congruence : Expr.Congruence (Refines ev) where
  refl := refl
  binary op _ _ _ _ := binary op
  unary f _ _ := unary f
  builtin f _ _ := builtin f
  apply d _ _ := apply d

end Refines

end Formulary.Evaluator
