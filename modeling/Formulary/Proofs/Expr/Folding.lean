import Formulary.Proofs.Evaluation.Refinement

/-!
# Folding preserves meaning

Folding takes no draw, and what it makes of a tree is related to the tree by whatever goes through
operators and calls and relates foldable parts to their values (`Folding.ofExpr_eq_pure`). So a tree
and its folding have the same outcomes up to the limit of depth.

A foldable subtree depends on nothing, so the value that it has with nothing bound is the value that
it has wherever it stands (`refines_const`). Everything around it is kept, also where folding fails
in the middle, so the rest of the proof follows the recursion of the folder.

An evaluation of a part has other calls pending below it than the evaluation of the whole tree has
when it comes to this part. So the two may differ in being too deep, and in nothing else: without a
limit both come to the same (`evalAt_within_of_isFoldable`).
-/

namespace Formulary

open Formulary.Expr Evaluator

variable {α : Type}

/-! ## Foldable trees -/

namespace Expr

/-- Arguments behind the term of a series count as well. -/
theorem dependence_builtin_deterministic (f : Builtin) (args : List (Expr α)) :
    (builtin f args).dependence.deterministic =
      (!f.isRandom && (dependenceOfAll args).deterministic) := by
  rw [dependence.eq_def]
  dsimp only
  split
  case h_5 heq =>
    cases heq
    simp [dependence, dependenceOfAll, Dependence.join, Dependence.bind, Builtin.isRandom,
      Bool.and_assoc]
  case h_6 heq =>
    cases heq
    simp [dependence, dependenceOfAll, Dependence.join, Dependence.bind, Builtin.isRandom,
      Bool.and_assoc]
  case h_7 heq =>
    cases heq
    exact Bool.and_comm _ _
  all_goals contradiction

mutual

/-- Whether there are random draws is found out in two ways, with the same answer. -/
theorem dependence_deterministic (e : Expr α) :
    e.dependence.deterministic = e.isDeterministic := by
  match e with
  | .const .. => rfl
  | .var _ => rfl
  | .binary op l r =>
    rw [dependence, isDeterministic, Dependence.join, dependence_deterministic l,
      dependence_deterministic r]
  | .unary f x => rw [dependence, isDeterministic, dependence_deterministic x]
  | .builtin f args =>
    rw [dependence_builtin_deterministic, isDeterministic, dependenceOfAll_deterministic args]
  | .apply d args =>
    rw [dependence, isDeterministic, dependenceOfAll_deterministic args, Bool.and_comm]

theorem dependenceOfAll_deterministic (es : List (Expr α)) :
    (dependenceOfAll es).deterministic = allDeterministic es := by
  match es with
  | [] => rfl
  | e :: es =>
    rw [dependenceOfAll, allDeterministic, Dependence.join, dependence_deterministic e,
      dependenceOfAll_deterministic es]

end

/-- A tree is foldable if it needs no binding and takes no draw. -/
theorem isFoldable_iff {e : Expr α} :
    e.isFoldable = true ↔ e.dependence.names = [] ∧ e.isDeterministic = true := by
  rw [isFoldable, Bool.and_eq_true, List.isEmpty_iff, dependence_deterministic]

/-- Two trees together are foldable if both of them are. -/
theorem isFoldable_binary (op : BinaryOp) (l r : Expr α) :
    (binary op l r).isFoldable = (l.isFoldable && r.isFoldable) := by
  have hnames : (l.dependence.join r.dependence).names = [] ↔
      l.dependence.names = [] ∧ r.dependence.names = [] := by
    simp [List.eq_nil_iff_forall_not_mem, Dependence.mem_join, forall_and]
  rw [Bool.eq_iff_iff, Bool.and_eq_true, isFoldable_iff, isFoldable_iff, isFoldable_iff, dependence,
    isDeterministic, Bool.and_eq_true, hnames]
  exact and_and_and_comm

end Expr

namespace Evaluator

variable [Scalar α] {e : Expr α}

omit [Scalar α] in
/-- Scopes agree for a tree that depends on no name. -/
theorem agree_of_isFoldable (ev : Evaluator α) (h : e.isFoldable = true) (scope scope' : Scope α) :
    Scope.Agree ev e.dependence.names scope scope' := by
  obtain ⟨hnames, -⟩ := isFoldable_iff.1 h
  intro name hname
  rw [hnames] at hname
  cases hname

/-- At one depth, a foldable tree has one outcome, whatever is bound and drawn, and takes no draw.
-/
theorem evalAt_of_isFoldable (ev : Evaluator α) (h : e.isFoldable = true) (depth : Nat) :
    ∃ r, ∀ (draw : Nat → α) (scope : Scope α),
      (ev.withDraw draw).evalAt scope depth e = Eval.of r := by
  obtain ⟨-, hdeterministic⟩ := isFoldable_iff.1 h
  have hdraws : ∀ draw : Nat → α, Eval.Drawless (ev.evalAt .empty depth e)
      ((ev.withDraw draw).evalAt .empty depth e) := fun _ =>
    evalAt_drawless e hdeterministic .empty depth
  obtain ⟨r, hr, -⟩ := hdraws ev.draw
  refine ⟨r, fun draw scope => ?_⟩
  obtain ⟨r', hr', hdraw⟩ := hdraws draw
  rw [evalAt_eq_of_agree (agree_of_isFoldable _ h scope .empty), hdraw, ← hr', hr]

/-- What a foldable tree comes to at one place, other than being too deep, it comes to everywhere,
up to the limit. -/
theorem evalAt_within_of_isFoldable (ev : Evaluator α) {r : Except (EvalError α) (Value α)}
    {scope : Scope α} {depth : Nat} (h : e.isFoldable = true)
    (hr : ev.evalAt scope depth e = Eval.of r) (hdeep : r ≠ .error .tooDeep) (scope' : Scope α)
    (depth' : Nat) : Eval.Within ev.IsLimited (ev.evalAt scope' depth' e) (Eval.of r) := by
  -- without a limit there is the same outcome
  have hsame : Eval.of r = ev.unlimited.evalAt scope depth e := by
    refine Eval.outcome_injective fun n => ?_
    have hunlimited : Eval.Within ev.IsLimited (ev.evalAt scope depth e)
        (ev.unlimited.evalAt scope depth e) := evalAt_unlimited e scope depth depth
    rcases hunlimited n with ⟨-, htooDeep⟩ | heq
    · rw [hr] at htooDeep
      exact absurd htooDeep hdeep
    · rw [← heq, hr]
  rw [hsame]
  exact evalAt_within e (.unlimited ev depth' depth) (agree_of_isFoldable ev h scope' scope)

/-- The value of a foldable tree stands for the tree. -/
theorem refines_const (ev : Evaluator α) {v : Value α} {scope : Scope α} {depth : Nat}
    (h : e.isFoldable = true) (hv : ev.evalAt scope depth e = Eval.of (.ok v)) :
    Refines ev e (.const v) := by
  refine ⟨fun scope' depth' => ?_, fun k => ⟨?_, fun hk => nomatch hk⟩⟩
  · have hwithin := evalAt_within_of_isFoldable ev h hv nofun scope' depth'
    by_cases hdeep : ev.isTooDeep (depth' + 2) = true
    · rw [evalAt.eq_def, evalAt, if_pos hdeep, if_pos hdeep]
      exact .refl _
    · rw [evalAt, if_neg hdeep]
      exact hwithin
  · rintro rfl
    cases h

end Evaluator

/-! ## The folder -/

namespace Folding

variable [Scalar α] (ev : Evaluator α)

variable {ev} in
/-- Constants and trees that are not foldable are left alone. -/
theorem attempt_of_left {depth : Nat} {conditional : Bool} {e : Expr α}
    (h : (e.isConst || !e.isFoldable) = true) : attempt ev depth conditional e = pure .kept := by
  rw [attempt, if_pos h]

/-- What is done about a foldable tree, given what it comes to with nothing bound. -/
def verdict (conditional : Bool) : Except (EvalError α) (Value α) → Attempt α
  | .ok v => if v.isFinite then .replaced v else .kept
  | .error err => if conditional && isCalculation err then .kept else .failed err

variable {ev} in
/-- A foldable tree is judged by what it comes to with nothing bound. -/
theorem attempt_of_foldable {depth : Nat} {conditional : Bool} {e : Expr α}
    {r : Except (EvalError α) (Value α)} (hconst : e.isConst = false)
    (hfoldable : e.isFoldable = true) (hr : ev.evalAt .empty (depth + 2) e = Eval.of r) :
    attempt ev depth conditional e = pure (verdict conditional r) := by
  have hkept : ¬ (e.isConst || !e.isFoldable) = true := by simp [hconst, hfoldable]
  rw [attempt, if_neg hkept, hr]
  cases r <;> rfl

/-- What a tree comes to that is replaced. -/
theorem replaced_of_verdict {conditional : Bool} {r : Except (EvalError α) (Value α)} {v : Value α}
    (h : verdict conditional r = .replaced v) : r = .ok v ∧ v.isFinite = true := by
  unfold verdict at h
  split at h
  · split at h <;> cases h
    exact ⟨rfl, ‹_›⟩
  · split at h <;> cases h

/-- What a tree comes to at which folding fails. -/
theorem failed_of_verdict {conditional : Bool} {r : Except (EvalError α) (Value α)}
    {err : EvalError α} (h : verdict conditional r = .failed err) :
    r = .error err ∧ (conditional && isCalculation err) = false := by
  unfold verdict at h
  split at h
  · split at h <;> cases h
  · split at h <;> cases h
    exact ⟨rfl, by simp_all⟩

/-- What a foldable tree comes to if it is kept: a value that cannot be written, or an error that is
left for an evaluation to report. -/
theorem kept_of_verdict {conditional : Bool} {r : Except (EvalError α) (Value α)}
    (h : verdict conditional r = .kept) :
    (∃ v, r = .ok v ∧ v.isFinite = false) ∨
      ∃ err, r = .error err ∧ conditional = true ∧ isCalculation err = true := by
  unfold verdict at h
  split at h
  · split at h <;> cases h
    exact .inl ⟨_, rfl, by simp_all⟩
  · split at h <;> cases h
    exact .inr ⟨_, rfl, by simp_all⟩

/-- An attempt to replace a subtree takes no draw. A replacement is the value of a foldable subtree,
and a failure is its error, unless this is a calculation error that is left for an evaluation to
report. -/
theorem attempt_eq_pure (depth : Nat) (conditional : Bool) (e : Expr α) :
    ∃ a, attempt ev depth conditional e = pure a ∧
      (∀ v, a = .replaced v → e.isFoldable = true ∧ ev.evalAt .empty (depth + 2) e = Eval.of (.ok v)) ∧
      ∀ err, a = .failed err → e.isFoldable = true ∧
        ev.evalAt .empty (depth + 2) e = Eval.of (.error err) ∧
          (conditional && isCalculation err) = false := by
  by_cases hleft : (e.isConst || !e.isFoldable) = true
  · exact ⟨.kept, attempt_of_left hleft, by rintro v ⟨⟩, by rintro err ⟨⟩⟩
  · obtain ⟨hconst, hfoldable⟩ : e.isConst = false ∧ e.isFoldable = true := by simp_all
    obtain ⟨r, hr⟩ := evalAt_of_isFoldable ev hfoldable (depth + 2)
    have hvalue : ev.evalAt .empty (depth + 2) e = Eval.of r := hr ev.draw .empty
    refine ⟨_, attempt_of_foldable hconst hfoldable hvalue, fun v hv => ?_, fun err herr => ?_⟩
    · obtain ⟨rfl, -⟩ := replaced_of_verdict hv
      exact ⟨hfoldable, hvalue⟩
    · obtain ⟨rfl, hunconditional⟩ := failed_of_verdict herr
      exact ⟨hfoldable, hvalue, hunconditional⟩

variable {ev} in
/-- What an attempt comes to: a constant or a tree that is not foldable is left alone, and a
foldable tree is judged by what it comes to with nothing bound. -/
theorem verdict_of_attempt {depth : Nat} {conditional : Bool} {e : Expr α} {a : Attempt α}
    (h : attempt ev depth conditional e = pure a) :
    (a = .kept ∧ (e.isConst = true ∨ e.isFoldable = false)) ∨
      (e.isConst = false ∧ e.isFoldable = true ∧
        ∃ r, ev.evalAt .empty (depth + 2) e = Eval.of r ∧ verdict conditional r = a) := by
  have hsame : ∀ {b : Attempt α}, attempt ev depth conditional e = pure b → b = a := fun hb =>
    congrArg Prod.fst (congrFun (hb.symm.trans h) 0)
  by_cases hleft : (e.isConst || !e.isFoldable) = true
  · exact .inl ⟨(hsame (attempt_of_left hleft)).symm, by simpa using hleft⟩
  · obtain ⟨hconst, hfoldable⟩ : e.isConst = false ∧ e.isFoldable = true := by simp_all
    obtain ⟨r, hr⟩ := evalAt_of_isFoldable ev hfoldable (depth + 2)
    have hvalue : ev.evalAt .empty (depth + 2) e = Eval.of r := hr ev.draw .empty
    exact .inr ⟨hconst, hfoldable, r, hvalue,
      hsame (attempt_of_foldable hconst hfoldable hvalue)⟩

variable {ev} in
/-- A tree is replaced by the finite value that it has with nothing bound. -/
theorem replaced_of_attempt {depth : Nat} {conditional : Bool} {e : Expr α} {v : Value α}
    (h : attempt ev depth conditional e = pure (.replaced v)) :
    e.isConst = false ∧ e.isFoldable = true ∧ ev.evalAt .empty (depth + 2) e = Eval.of (.ok v) ∧
      v.isFinite = true := by
  obtain ⟨⟨⟩, -⟩ | ⟨hconst, hfoldable, r, hr, hverdict⟩ := verdict_of_attempt h
  obtain ⟨rfl, hfinite⟩ := replaced_of_verdict hverdict
  exact ⟨hconst, hfoldable, hr, hfinite⟩

/-- A foldable tree with a finite value is replaced by it. -/
theorem run_of_value {e : Expr α} {v : Value α} (hconst : e.isConst = false)
    (hfoldable : e.isFoldable = true) (hv : ev.evalAt .empty 5 e = pure v)
    (hfinite : v.isFinite = true) : run ev e = pure { tree := .const v, count := 1 } := by
  have hattempt : attempt ev 3 false e = pure (.replaced v) := by
    rw [attempt_of_foldable hconst hfoldable hv, verdict, if_pos hfinite]
  rw [run, ofExpr.eq_def, hattempt, pure_bind]

/-- Variables are left as they are. -/
theorem ofExpr_var (depth : Nat) (conditional : Bool) (name : String) :
    ofExpr ev depth conditional (.var name) = pure { tree := .var name } := by
  rw [ofExpr]
  rfl

/-- Operands are folded one after the other, if the first one does not fail. -/
theorem ofExpr_binary_of_kept {ev : Evaluator α} {depth : Nat} {conditional : Bool} (op : BinaryOp)
    {l r : Expr α} {a b : Folding α}
    (hkept : attempt ev depth conditional (.binary op l r) = pure .kept)
    (hl : ofExpr ev (depth + 1) conditional l = pure a) (ha : a.failure = none)
    (hr : ofExpr ev (depth + 1) conditional r = pure b) :
    ofExpr ev depth conditional (.binary op l r) =
      pure ⟨.binary op a.tree b.tree, a.count + b.count, b.failure⟩ := by
  rw [ofExpr, hkept, pure_bind]
  dsimp only
  rw [hl, pure_bind, ha, if_neg (by simp), hr]
  rfl

variable {R : Expr α → Expr α → Prop}

mutual

/-- Folding takes no draw, and what it leaves of a tree is related to the tree by every congruence
that relates a foldable tree to its value. -/
theorem ofExpr_eq_pure (hR : Congruence R)
    (hvalue : ∀ e v depth, e.isFoldable = true → ev.evalAt .empty depth e = Eval.of (.ok v) →
      R e (.const v)) (depth : Nat) (conditional : Bool) (e : Expr α) :
    ∃ folding, ofExpr ev depth conditional e = pure folding ∧ R e folding.tree := by
  obtain ⟨a, ha, hreplaced, -⟩ := attempt_eq_pure ev depth conditional e
  cases a with
  | replaced v =>
    obtain ⟨hfoldable, hv⟩ := hreplaced v rfl
    rw [ofExpr.eq_def, ha]
    exact ⟨_, rfl, hvalue e v _ hfoldable hv⟩
  | failed err =>
    rw [ofExpr.eq_def, ha]
    exact ⟨_, rfl, hR.refl e⟩
  | kept =>
    match e with
    | .const v origin =>
      rw [ofExpr, ha]
      exact ⟨_, rfl, hR.refl _⟩
    | .var name =>
      rw [ofExpr, ha]
      exact ⟨_, rfl, hR.refl _⟩
    | .binary op l r =>
      obtain ⟨foldedL, hl, hrelL⟩ := ofExpr_eq_pure hR hvalue (depth + 1) conditional l
      obtain ⟨foldedR, hr, hrelR⟩ := ofExpr_eq_pure hR hvalue (depth + 1) conditional r
      rw [ofExpr, ha, pure_bind]
      dsimp only
      rw [hl, pure_bind]
      by_cases hfailed : foldedL.failure.isSome = true
      · rw [if_pos hfailed]
        exact ⟨_, rfl, hR.binary op hrelL (hR.refl r)⟩
      · rw [if_neg hfailed, hr]
        exact ⟨_, rfl, hR.binary op hrelL hrelR⟩
    | .unary f x =>
      obtain ⟨folded, hx, hrel⟩ := ofExpr_eq_pure hR hvalue (depth + 1) conditional x
      rw [ofExpr, ha, pure_bind]
      dsimp only
      rw [hx]
      exact ⟨_, rfl, hR.unary f hrel⟩
    | .builtin f args =>
      obtain ⟨folded, hargs, hrel⟩ :=
        ofArgs_eq_pure hR hvalue (depth + 1) (fun index => conditional || isConditional f index) 0 args
      rw [ofExpr, ha, pure_bind]
      dsimp only
      rw [hargs]
      exact ⟨_, rfl, hR.builtin f hrel⟩
    | .apply d args =>
      obtain ⟨folded, hargs, hrel⟩ := ofArgs_eq_pure hR hvalue (depth + 1) (fun _ => conditional) 0 args
      rw [ofExpr, ha, pure_bind]
      dsimp only
      rw [hargs]
      exact ⟨_, rfl, hR.apply d hrel⟩

theorem ofArgs_eq_pure (hR : Congruence R)
    (hvalue : ∀ e v depth, e.isFoldable = true → ev.evalAt .empty depth e = Eval.of (.ok v) →
      R e (.const v)) (depth : Nat) (conditional : Nat → Bool) (index : Nat) (es : List (Expr α)) :
    ∃ folding, ofArgs ev depth conditional index es = pure folding ∧
      List.Forall₂ R es folding.trees := by
  match es with
  | [] =>
    rw [ofArgs]
    exact ⟨_, rfl, .nil⟩
  | e :: es =>
    obtain ⟨folded, he, hrel⟩ := ofExpr_eq_pure hR hvalue depth (conditional index) e
    obtain ⟨foldedRest, hes, hrest⟩ := ofArgs_eq_pure hR hvalue depth conditional (index + 1) es
    rw [ofArgs, he, pure_bind]
    by_cases hfailed : folded.failure.isSome = true
    · rw [if_pos hfailed]
      exact ⟨_, rfl, .cons hrel (hR.refl_all es)⟩
    · rw [if_neg hfailed, hes]
      exact ⟨_, rfl, .cons hrel hrest⟩

end

end Folding

end Formulary
