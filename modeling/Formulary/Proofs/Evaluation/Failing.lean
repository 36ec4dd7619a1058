import Formulary.Proofs.Evaluation.Call
import Formulary.Proofs.Evaluation.Within
import Formulary.Proofs.Outcome

/-!
# How evaluations fail

An evaluation `Eval.FailsOnly` with certain errors if its outcomes do, from every draw on. Which
errors these are is a parameter: `Evaluator.Admits P` says that `P` holds of all errors of
operators, conditions, series and limits. What is left are the errors of looking up a variable and
of malformed calls.

There is one lemma for each construct, all of them about one scope and depth, so that the induction
over trees that uses them is free in what it asks of scopes.
-/

namespace Formulary

open Formulary.Expr

variable {α β γ : Type} {P : EvalError α → Prop}

/-! ## Computations -/

/-- From every draw on, if there is no value, `P` holds of the error. -/
def Eval.FailsOnly (P : EvalError α → Prop) (x : Eval α β) : Prop :=
  ∀ n, Formulary.FailsOnly P (x.outcome n).1

namespace Eval.FailsOnly

/-- A value fails with nothing. -/
theorem pure (b : β) : FailsOnly P (Pure.pure b : Eval α β) := fun _ => .ok b

/-- An error that `P` holds of. -/
theorem throw {e : EvalError α} (he : P e) : FailsOnly P (MonadExcept.throw e : Eval α β) :=
  fun _ => .error he

/-- A step that takes no draw. -/
theorem of {r : Except (EvalError α) β} (h : Formulary.FailsOnly P r) : FailsOnly P (Eval.of r) :=
  fun _ => h

/-- A draw fails with nothing. -/
theorem next : FailsOnly P (Eval.next : Eval α Nat) := fun n => .ok n

/-- The second step has to be looked at for the values of the first one only. -/
theorem bind_of_ok {x : Eval α β} {f : β → Eval α γ} (hx : FailsOnly P x)
    (hf : ∀ n b m, x.outcome n = (.ok b, m) → FailsOnly P (f b)) : FailsOnly P (x >>= f) := by
  intro n
  rw [outcome_bind]
  have hn := hx n
  rcases houtcome : x.outcome n with ⟨_ | b, m⟩
  · rw [houtcome] at hn
    exact .error (hn _ rfl)
  · exact hf n b m houtcome m

/-- Two steps, the second of which fails properly for all values of the first one. -/
theorem bind {x : Eval α β} {f : β → Eval α γ} (hx : FailsOnly P x)
    (hf : ∀ b, FailsOnly P (f b)) : FailsOnly P (x >>= f) := bind_of_ok hx fun _ b _ _ => hf b

end Eval.FailsOnly

namespace Evaluator

variable [Scalar α] {ev : Evaluator α}

/-- `P` holds of the errors of limits, conditions, series, operators and functions. -/
structure Admits (P : EvalError α → Prop) : Prop where
  tooDeep : P .tooDeep
  condition (v : Value α) : P (.condition v)
  boundKind (f : Builtin) (bound start stop : Value α) : P (.boundKind f bound start stop)
  boundInfinite (f : Builtin) (start stop : Value α) : P (.boundInfinite f start stop)
  tooManyTerms (f : Builtin) (start stop : Value α) (limit : Int) :
    P (.tooManyTerms f start stop limit)
  binary (op : BinaryOp) (left right : Value α) : FailsOnly P (left.applyBinary op right)
  unary (f : UnaryOp) (v : Value α) : FailsOnly P (v.applyUnary f)

section Lists

variable {args : List (Expr α)} {scope : Scope α} {depth : Nat}

/-- The arguments of a call, one after another. -/
theorem failsOnly_evalAll (h : ∀ e ∈ args, (ev.evalAt scope depth e).FailsOnly P) :
    (ev.evalAll scope depth args).FailsOnly P := by
  induction args with
  | nil =>
    rw [evalAll]
    exact .pure _
  | cons e args ih =>
    obtain ⟨he, hargs⟩ := List.forall_mem_cons.1 h
    rw [evalAll]
    exact .bind he fun _ => .bind (ih hargs) fun _ => .pure _

/-- There is one value for each argument. -/
theorem length_eq_of_evalAll {values : List (Value α)} {n m : Nat}
    (h : (ev.evalAll scope depth args).outcome n = (.ok values, m)) :
    values.length = args.length := by
  induction args generalizing values n m with
  | nil =>
    rw [evalAll] at h
    cases h
    rfl
  | cons e args ih =>
    rw [evalAll] at h
    obtain ⟨v, k, -, h⟩ := Eval.outcome_bind_eq_ok.1 h
    obtain ⟨vs, k', hvs, h⟩ := Eval.outcome_bind_eq_ok.1 h
    cases h
    rw [List.length_cons, List.length_cons, ih hvs]

/-- The branches of a condition, of which there is at least one. -/
theorem failsOnly_evalBranch (hlength : 1 ≤ args.length)
    (h : ∀ e ∈ args, (ev.evalAt scope depth e).FailsOnly P) (b : Bool) :
    (ev.evalBranch scope depth b args).FailsOnly P := by
  match args with
  | [] => cases hlength
  | [yes] =>
    rw [evalBranch]
    cases b with
    | true => exact h yes (by simp)
    | false => exact .pure _
  | yes :: no :: rest =>
    rw [evalBranch]
    cases b with
    | true => exact h yes (by simp)
    | false => exact h no (by simp)

end Lists

variable (hP : Admits P)

include hP

/-- A tree that is too deep is reported as such. -/
theorem failsOnly_guard {depth : Nat} {x : Eval α (Value α)} (h : x.FailsOnly P) :
    Eval.FailsOnly P (if ev.isTooDeep depth then throw .tooDeep else x) := by
  split
  · exact .throw hP.tooDeep
  · exact h

/-- A variable whose search fails properly. -/
theorem failsOnly_evalVar {name : String} {scope : Scope α} {depth : Nat}
    (h : FailsOnly P (scope.lookup name)) : (ev.evalVar scope depth name).FailsOnly P :=
  failsOnly_guard hP (.of h)

/-- The truth of a condition. -/
theorem failsOnly_truth (v : Value α) : FailsOnly P (truth v) := by
  unfold truth
  split
  · exact .ok _
  · exact .error (hP.condition _)

/-! ## Series -/

/-- The bounds of a series as real numbers. -/
theorem failsOnly_bounds (f : Builtin) (start stop : Value α) :
    FailsOnly P (bounds f start stop) := by
  unfold bounds
  split
  · split
    · exact .ok _
    · exact .error (hP.boundInfinite f _ _)
  · exact .error (hP.boundKind f _ _ _)
  · exact .error (hP.boundKind f _ _ _)

/-- The number of terms of a series. -/
theorem failsOnly_termCount (f : Builtin) (a b : α) : FailsOnly P (ev.termCount f a b) := by
  unfold termCount
  dsimp only
  repeat' split
  all_goals first | exact .ok _ | exact .error (hP.tooManyTerms f _ _ _)

/-- The terms of a series, joined one after another. -/
theorem failsOnly_accumulate {op : BinaryOp} {term : α → Eval α (Value α)}
    (h : ∀ x, (term x).FailsOnly P) (start : α) :
    ∀ (count step : Nat) (result : Value α),
      (accumulate op term start step count result).FailsOnly P := by
  intro count
  induction count with
  | zero => intro step result; exact .pure _
  | succ count ih =>
    intro step result
    exact .bind (h _) fun _ => .bind (.of (hP.binary op _ _)) fun joined => ih (step + 1) joined

/-- A series whose terms fail properly. -/
theorem failsOnly_series {f : Builtin} {start stop : Value α} {term : α → Eval α (Value α)}
    (h : ∀ x, (term x).FailsOnly P) : (ev.series f start stop term).FailsOnly P :=
  .bind (.of (failsOnly_bounds hP f start stop)) fun (a, b) =>
    .bind (.of (failsOnly_termCount hP f a b)) fun _ => failsOnly_accumulate hP h _ _ _ _

/-! ## Calls -/

variable {scope : Scope α} {depth : Nat}

/-- The bounds and the term of a series. The term is evaluated in a scope of its own. -/
theorem failsOnly_evalSeries {f : Builtin} {k : String} {start stop term : Expr α}
    {rest : List (Expr α)} (hstart : (ev.evalAt scope depth start).FailsOnly P)
    (hstop : (ev.evalAt scope depth stop).FailsOnly P)
    (hterm : ∀ x, (ev.evalAt (loopScope scope f k x) depth term).FailsOnly P) :
    (ev.evalSeries scope depth f k (start :: stop :: term :: rest)).FailsOnly P := by
  rw [evalSeries]
  refine .bind hstart fun _ => .bind hstop fun _ => failsOnly_series hP fun x => ?_
  rw [evalTerm]
  exact hterm x

/-- A call of a builtin function that exists, with as many arguments as it takes and with a loop
variable if it is a series. -/
theorem failsOnly_evalCall {f : Builtin} {args : List (Expr α)} (hf : f ∈ Builtin.all)
    (harity : f.minArgs ≤ args.length) (hloop : f.isSeries = true → ∃ k rest, args = .var k :: rest)
    (hargs : f.isSeries = false → ∀ e ∈ args, (ev.evalAt scope (depth + 1) e).FailsOnly P)
    (hseries : f.isSeries = true → ∀ k start stop term rest,
      args = .var k :: start :: stop :: term :: rest →
        (ev.evalAt scope (depth + 2) start).FailsOnly P ∧
          (ev.evalAt scope (depth + 2) stop).FailsOnly P ∧
          ∀ x, (ev.evalAt (loopScope scope f k x) (depth + 2) term).FailsOnly P) :
    (ev.evalCall scope depth f args).FailsOnly P := by
  cases Builtin.shape f args with
  | other name => simp [Builtin.all] at hf
  | cond condition branches =>
    obtain ⟨hcondition, hbranches⟩ := List.forall_mem_cons.1 (hargs rfl)
    rw [evalCall]
    exact .bind hcondition fun v => .bind (.of (failsOnly_truth hP v)) fun b =>
      failsOnly_evalBranch (Nat.le_of_succ_le_succ harity) hbranches b
  | rand limit rest =>
    rw [evalCall]
    exact .bind (hargs rfl limit (by simp)) fun v => .bind .next fun n => .of (hP.binary .mul _ v)
  | series hf k args =>
    -- a series takes four arguments, of which the first is the loop variable
    have hlength : 3 ≤ args.length := by
      cases f with
      | sum | prod => exact Nat.le_of_succ_le_succ harity
      | _ => cases hf
    rw [evalCall_series _ _ _ hf]
    rcases args with _ | ⟨start, _ | ⟨stop, _ | ⟨term, rest⟩⟩⟩
    case cons.cons.cons =>
      obtain ⟨hstart, hstop, hterm⟩ := hseries hf k start stop term rest rfl
      exact failsOnly_evalSeries hP hstart hstop hterm
    all_goals simp at hlength
  | missing hf =>
    simp only [Builtin.all, List.mem_cons, List.not_mem_nil, or_false] at hf
    rcases hf with rfl | rfl | rfl | rfl <;> cases harity
  | noVariable hf he rest =>
    -- the first argument is a variable after all
    obtain ⟨k, rest', heq⟩ := hloop hf
    cases heq
    exact absurd rfl (he k)

end Evaluator

end Formulary
