import Formulary.Proofs.Evaluation.Call
import Formulary.Proofs.Evaluation.Within
import Formulary.Proofs.Expr.FreeVars
import Formulary.Proofs.Expr.WellFormed

/-!
# Nodes that are always evaluated

A node is at a `Strict` position of a tree if nothing on the way to it is a branch of a condition or
the term of a series, which are the arguments that folding takes for conditional. Whoever evaluates
the tree comes to such a node, unless something else fails before, and has at least one more call
pending for each level that it is down. So a tree fails if a node at a strict position fails in
every scope and at every such depth (`Expr.Strict.fails`).

The loop variable of a series is at a strict position and is not evaluated. It is the only such node
of a well-formed tree, so the theorem asks for a node that is no variable.
-/

namespace Formulary

variable {α β γ : Type}

/-! ## Evaluations that fail -/

/-- From every draw on, there is an error. -/
def Eval.Fails (x : Eval α β) : Prop := ∀ n, ∃ e m, x.outcome n = (.error e, m)

namespace Eval.Fails

/-- A failure fails. -/
theorem throw (e : EvalError α) : Fails (MonadExcept.throw e : Eval α β) := fun n => ⟨e, n, rfl⟩

/-- The first step fails. -/
theorem bind {x : Eval α β} (hx : Fails x) (f : β → Eval α γ) : Fails (x >>= f) := by
  intro n
  obtain ⟨e, m, h⟩ := hx n
  exact ⟨e, m, by rw [outcome_bind, h]⟩

/-- The second step fails, if it takes place. -/
theorem bind_right (x : Eval α β) {f : β → Eval α γ} (hf : ∀ b, Fails (f b)) :
    Fails (x >>= f) := by
  intro n
  rw [outcome_bind]
  rcases x.outcome n with ⟨e | b, m⟩
  · exact ⟨e, m, rfl⟩
  · exact hf b m

end Eval.Fails

/-- What has the outcomes of an error, but for being too deep, fails. -/
theorem Eval.Within.fails {limited : Prop} {x : Eval α β} {e : EvalError α}
    (h : Within limited x (of (.error e))) : x.Fails := by
  intro n
  rcases h n with ⟨-, hdeep⟩ | heq
  · exact ⟨.tooDeep, _, Prod.ext hdeep rfl⟩
  · exact ⟨e, n, heq⟩

namespace Evaluator

variable {ev : Evaluator α} {depth : Nat}

/-- The check of the depth fails as well. -/
theorem fails_guard {x : Eval α (Value α)} (h : x.Fails) :
    Eval.Fails (if ev.isTooDeep depth then throw .tooDeep else x) := by
  split
  · exact .throw _
  · exact h

/-- The values of a list fail if one of its trees does. -/
theorem fails_evalAll [Scalar α] {scope : Scope α} {args : List (Expr α)} {e : Expr α} (he : e ∈ args)
    (h : (ev.evalAt scope depth e).Fails) : (ev.evalAll scope depth args).Fails := by
  induction args with
  | nil => cases he
  | cons a args ih =>
    rw [evalAll]
    rcases List.mem_cons.1 he with rfl | he
    · exact h.bind _
    · exact .bind_right _ fun _ => (ih he).bind _

end Evaluator

/-! ## Strict positions -/

namespace Expr

/-- The node stands so many levels down where a tree is always evaluated. -/
inductive Strict (n : Expr α) : Nat → Expr α → Prop where
  | self : Strict n 0 n
  | left (op : BinaryOp) {level : Nat} {l r : Expr α} (h : Strict n level l) :
      Strict n (level + 1) (.binary op l r)
  | right (op : BinaryOp) {level : Nat} {l r : Expr α} (h : Strict n level r) :
      Strict n (level + 1) (.binary op l r)
  | operand (f : UnaryOp) {level : Nat} {x : Expr α} (h : Strict n level x) :
      Strict n (level + 1) (.unary f x)
  | argument {f : Builtin} {args : List (Expr α)} {index level : Nat} {e : Expr α}
      (hindex : args[index]? = some e) (hconditional : Folding.isConditional f index = false)
      (h : Strict n level e) : Strict n (level + 1) (.builtin f args)
  | parameter {d : Definition (Expr α)} {args : List (Expr α)} {level : Nat} {e : Expr α}
      (he : e ∈ args) (h : Strict n level e) : Strict n (level + 1) (.apply d args)

variable [Scalar α] {ev : Evaluator α} {n e : Expr α}

/-- A call fails if an argument does that is always evaluated. -/
theorem fails_evalCall {f : Builtin} {args : List (Expr α)} {index : Nat} {scope : Scope α}
    {depth : Nat} (hcall : (builtin f args).WellFormed) (hindex : args[index]? = some e)
    (hconditional : Folding.isConditional f index = false) (hvar : ∀ k, e ≠ .var k)
    (h : ∀ depth', depth < depth' → (ev.evalAt scope depth' e).Fails) :
    (ev.evalCall scope depth f args).Fails := by
  have hfollows := wellFormed_iff_follows.1 hcall
  cases hcall with
  | builtin hf harity hloop hargs =>
    cases Builtin.shape f args with
    | other name => simp [Builtin.all] at hf
    | cond condition branches =>
      obtain rfl : index = 0 := by simpa [Folding.isConditional] using hconditional
      obtain rfl : condition = e := by simpa using hindex
      rw [Evaluator.evalCall]
      exact (h _ (by omega)).bind _
    | rand limit rest =>
      obtain rfl : rest = [] := by
        have : rest.length + 1 ≤ 1 := harity.2
        exact List.length_eq_zero_iff.1 (by omega)
      obtain ⟨rfl, rfl⟩ : index = 0 ∧ limit = e := by
        cases index with
        | zero => simpa using hindex
        | succ index => simp at hindex
      rw [Evaluator.evalCall]
      exact (h _ (by omega)).bind _
    | series hseries k args =>
      obtain ⟨k', start, stop, term, heq⟩ := hfollows.series_args hseries
      obtain ⟨-, rfl⟩ : k = k' ∧ args = [start, stop, term] := by simpa using heq
      rw [Evaluator.evalCall_series _ _ _ hseries, Evaluator.evalSeries]
      rcases index with _ | _ | _ | _ | index
      · obtain rfl : Expr.var k = e := by simpa using hindex
        exact absurd rfl (hvar k)
      · obtain rfl : start = e := by simpa using hindex
        exact (h _ (by omega)).bind _
      · obtain rfl : stop = e := by simpa using hindex
        exact .bind_right _ fun _ => (h _ (by omega)).bind _
      · cases f with
        | sum | prod => simp [Folding.isConditional] at hconditional
        | _ => cases hseries
      · simp at hindex
    | missing => simp at hindex
    | noVariable hseries he rest =>
      obtain ⟨k, rest, heq⟩ := hloop hseries
      exact absurd (List.cons.inj heq).1 (he k)

/-- A well-formed tree fails if a node at a strict position fails in every scope and wherever at
least as many more calls are pending as it is levels down. -/
theorem Strict.fails {level : Nat} (h : n.Strict level e) (he : e.WellFormed) (hvar : ∀ k, n ≠ .var k)
    (scope : Scope α) (depth : Nat)
    (hfails : ∀ scope depth', depth + level ≤ depth' → (ev.evalAt scope depth' n).Fails) :
    (ev.evalAt scope depth e).Fails := by
  induction h generalizing scope depth with
  | self => exact hfails scope depth (Nat.le_refl depth)
  | left op _ ih =>
    cases he with
    | binary _ hl hr =>
      rw [Evaluator.evalAt]
      have hleft := ih hl scope (depth + 2) fun scope' depth' h => hfails scope' depth' (by omega)
      exact Evaluator.fails_guard (hleft.bind _)
  | right op _ ih =>
    cases he with
    | binary _ hl hr =>
      rw [Evaluator.evalAt]
      have hright := ih hr scope (depth + 2) fun scope' depth' h => hfails scope' depth' (by omega)
      exact Evaluator.fails_guard (.bind_right _ fun _ => hright.bind _)
  | operand f _ ih =>
    cases he with
    | unary _ hx =>
      rw [Evaluator.evalAt]
      have hoperand := ih hx scope (depth + 2) fun scope' depth' h => hfails scope' depth' (by omega)
      exact Evaluator.fails_guard (hoperand.bind _)
  | @argument f args index level e hindex hconditional hstrict ih =>
    have hvar' : ∀ k, e ≠ .var k := by
      rintro k rfl
      cases hstrict
      exact hvar k rfl
    have hcall := he
    cases he with
    | builtin hf harity hloop hargs =>
      have harg : ∀ depth', depth + 2 < depth' → (ev.evalAt scope depth' e).Fails := fun depth' hlt =>
        ih (hargs e (List.mem_of_getElem? hindex)) scope depth' fun scope' depth'' h =>
          hfails scope' depth'' (by omega)
      rw [Evaluator.evalAt]
      exact Evaluator.fails_guard (fails_evalCall hcall hindex hconditional hvar' harg)
  | parameter hmem _ ih =>
    cases he with
    | apply harity hbody hargs =>
      rw [Evaluator.evalAt]
      have harg := ih (hargs _ hmem) scope (depth + 4) fun scope' depth' h =>
        hfails scope' depth' (by omega)
      exact Evaluator.fails_guard ((Evaluator.fails_evalAll hmem harg).bind _)

end Expr

end Formulary
