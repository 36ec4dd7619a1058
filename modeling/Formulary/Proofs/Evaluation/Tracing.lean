import Formulary.Proofs.Evaluation.Closure

/-!
# The values that an evaluation meets

`Traced.evalAt` evaluates a tree as `Evaluator.evalAt` does and keeps a record of every value that
occurs on the way: the values of all nodes, also in the bodies of called functions and in the terms
of series, the operands of operators as they are widened, the results that a series joins, its loop
variable and the random draws.

`Traces` ties a traced computation to the plain one: the record does not change the outcome, and
what is recorded has a property. By induction over a tree whose constants are real numbers of a
closed set or booleans, all values that are met are of that kind, and so is the value of the tree
(`Expr.RealIn.traces_evalAt`). Any real numbers make such a set, so formulas without complex
constants meet no complex value (`Evaluator.trace_of_isReal`).
-/

namespace Formulary

variable {α β γ : Type}

/-! ## Computations with a record -/

/-- A computation that may fail, takes random draws in turn and keeps a record of values. -/
abbrev Tracer (α β : Type) := ExceptT (EvalError α) (StateM (Nat × List (Value α))) β

namespace Tracer

/-- A step that takes no draw and records nothing. -/
def of (r : Except (EvalError α) β) : Tracer α β := ExceptT.mk (pure r)

/-- The number of the next draw, which is thereby taken. -/
def next : Tracer α Nat := ExceptT.mk fun (n, log) => (.ok n, n + 1, log)

/-- More values for the record. -/
def meet (values : List (Value α)) : Tracer α Unit :=
  ExceptT.mk fun (n, log) => (.ok (), n, log ++ values)

/-- A computation whose value is recorded at its end. -/
def noted (x : Tracer α (Value α)) : Tracer α (Value α) := do
  let v ← x
  meet [v]
  return v

/-- What a computation comes to from a draw on, with the number of the next draw and the record. -/
def outcome (x : Tracer α β) (n : Nat) (log : List (Value α)) :
    Except (EvalError α) β × Nat × List (Value α) := x.run.run (n, log)

theorem outcome_bind (x : Tracer α β) (f : β → Tracer α γ) (n : Nat) (log : List (Value α)) :
    (x >>= f).outcome n log =
      match x.outcome n log with
      | (.ok b, m, log') => (f b).outcome m log'
      | (.error e, m, log') => (.error e, m, log') := by
  show (match x.outcome n log with
    | (r, s) => (ExceptT.bindCont f r : StateM _ _) s) = _
  rcases x.outcome n log with ⟨_ | _, m, log'⟩ <;> rfl

end Tracer

/-- The traced computation comes to what the plain one comes to, the values that it records have the
property `P`, and a result has the property `Q`. -/
structure Traces (P : Value α → Prop) (Q : β → Prop) (x : Tracer α β) (y : Eval α β) : Prop where
  outcome : ∀ n log, ∃ values,
    x.outcome n log = ((y.outcome n).1, (y.outcome n).2, log ++ values) ∧ ∀ v ∈ values, P v
  yields : y.Yields Q

namespace Traces

variable {P : Value α → Prop} {Q : β → Prop} {R : γ → Prop}

/-- A result records nothing. -/
theorem pure {b : β} (hb : Q b) : Traces P Q (Pure.pure b) (Pure.pure b) :=
  ⟨fun n log => ⟨[], by rw [List.append_nil]; rfl, by simp⟩, .pure hb⟩

/-- A failure records nothing. -/
theorem throw (e : EvalError α) :
    Traces P Q (MonadExcept.throw e : Tracer α β) (MonadExcept.throw e) :=
  ⟨fun n log => ⟨[], by rw [List.append_nil]; rfl, by simp⟩, .throw e⟩

/-- A step that takes no draw and records nothing. -/
theorem of {r : Except (EvalError α) β} (h : Yields Q r) : Traces P Q (Tracer.of r) (Eval.of r) :=
  ⟨fun n log => ⟨[], by rw [List.append_nil]; rfl, by simp⟩, .of h⟩

/-- A draw records nothing. -/
theorem next : Traces P (fun _ => True) (Tracer.next : Tracer α Nat) Eval.next :=
  ⟨fun n log => ⟨[], by rw [List.append_nil]; rfl, by simp⟩, .any _⟩

/-- Two steps record what the first one does, and then what the second one does. -/
theorem bind {x : Tracer α β} {y : Eval α β} {f : β → Tracer α γ} {g : β → Eval α γ}
    (h : Traces P Q x y) (hf : ∀ b, Q b → Traces P R (f b) (g b)) :
    Traces P R (x >>= f) (y >>= g) := by
  refine ⟨fun n log => ?_, h.yields.bind fun b hb => (hf b hb).yields⟩
  obtain ⟨values, hrun, hvalues⟩ := h.outcome n log
  have hyields := h.yields n
  rw [Tracer.outcome_bind, Eval.outcome_bind, hrun]
  rcases hplain : y.outcome n with ⟨e | b, m⟩
  · exact ⟨values, rfl, hvalues⟩
  · rw [hplain] at hyields
    obtain ⟨values', hrun', hvalues'⟩ := (hf b (hyields b rfl)).outcome m (log ++ values)
    refine ⟨values ++ values', ?_, List.forall_mem_append.2 ⟨hvalues, hvalues'⟩⟩
    rw [← List.append_assoc]
    exact hrun'

/-- Values are recorded in front of a computation. -/
theorem meet {values : List (Value α)} {x : Tracer α β} {y : Eval α β} (hvalues : ∀ v ∈ values, P v)
    (h : Traces P Q x y) : Traces P Q (do Tracer.meet values; x) y := by
  refine ⟨fun n log => ?_, h.yields⟩
  obtain ⟨values', hrun, hvalues'⟩ := h.outcome n (log ++ values)
  refine ⟨values ++ values', ?_, List.forall_mem_append.2 ⟨hvalues, hvalues'⟩⟩
  rw [← List.append_assoc]
  exact hrun

/-- A value that is recorded at the end. -/
theorem noted {x : Tracer α (Value α)} {y : Eval α (Value α)} (h : Traces P P x y) :
    Traces P P x.noted y := by
  have hnoted : Traces P P x.noted (y >>= Pure.pure) :=
    h.bind fun v hv => meet (List.forall_mem_singleton.2 hv) (pure hv)
  rwa [bind_pure] at hnoted

/-- What the check of the depth lets pass. -/
theorem guard {ev : Evaluator α} {depth : Nat} {x : Tracer α β} {y : Eval α β} (h : Traces P Q x y) :
    Traces P Q (if ev.isTooDeep depth then MonadExcept.throw .tooDeep else x)
      (if ev.isTooDeep depth then MonadExcept.throw .tooDeep else y) := by
  split
  · exact .throw _
  · exact h

end Traces

/-! ## Evaluation with a record -/

/-- The operands as values. -/
def Operands.values : Operands α → List (Value α)
  | booleans a b => [.boolean a, .boolean b]
  | reals a b => [.real a, .real b]
  | complexes a b => [.complex a, .complex b]

/-- Two values as they are widened to their common kind, if they have one. -/
def Value.widened [Scalar α] (v w : Value α) : List (Value α) :=
  match promote? v w with
  | some operands => operands.values
  | none => []

namespace Traced

variable [Scalar α]

/-- An operator, with a record of its operands as they are widened and of its value. -/
def applyBinary (op : BinaryOp) (left right : Value α) : Tracer α (Value α) := do
  Tracer.meet (left.widened right)
  Tracer.noted (Tracer.of (left.applyBinary op right))

/-- `Evaluator.accumulate`, with a record. -/
def accumulate (op : BinaryOp) (term : α → Tracer α (Value α)) (start : α) :
    (step count : Nat) → (result : Value α) → Tracer α (Value α)
  | _, 0, result => pure result
  | step, count + 1, result => do
    let value ← term (start + Scalar.ofNat step)
    let joined ← applyBinary op result value
    accumulate op term start (step + 1) count joined

/-- `Evaluator.series`, with a record of the value of an empty series. -/
def series (ev : Evaluator α) (f : Builtin) (start stop : Value α)
    (term : α → Tracer α (Value α)) : Tracer α (Value α) := do
  let (a, b) ← Tracer.of (Evaluator.bounds f start stop)
  let count ← Tracer.of (ev.termCount f a b)
  let (op, neutral) := Evaluator.seriesOperator f
  Tracer.meet [neutral]
  accumulate op term a 0 count neutral

/-- `Evaluator.evalVar`, which records nothing itself. -/
def evalVar (ev : Evaluator α) (scope : Scope α) (depth : Nat) (name : String) :
    Tracer α (Value α) :=
  if ev.isTooDeep (depth + scope.reach name) then throw .tooDeep
  else Tracer.of (scope.lookup name)

mutual

/-- `Evaluator.evalAt`, with a record of the value of each node. -/
def evalAt (ev : Evaluator α) (scope : Scope α) (depth : Nat) (e : Expr α) : Tracer α (Value α) :=
  if ev.isTooDeep (depth + 2) then throw .tooDeep
  else
    Tracer.noted <|
      match e with
      | .const v _ => pure v
      | .var name => evalVar ev scope (depth + 2) name
      | .binary op l r => do
        let a ← evalAt ev scope (depth + 2) l
        let b ← evalAt ev scope (depth + 2) r
        applyBinary op a b
      | .unary f x => do
        let v ← evalAt ev scope (depth + 2) x
        Tracer.of (v.applyUnary f)
      | .builtin f args => evalCall ev scope (depth + 2) f args
      | .apply d args => do
        let values ← evalAll ev scope (depth + 4) args
        evalBody ev (depth + 3) values d

/-- `Evaluator.evalCall`, with a record. -/
def evalCall (ev : Evaluator α) (scope : Scope α) (depth : Nat) :
    Builtin → List (Expr α) → Tracer α (Value α)
  | .other name, _ => throw (.unknownBuiltin name)
  | .cond, condition :: branches => do
    let v ← evalAt ev scope (depth + 1) condition
    let b ← Tracer.of (Evaluator.truth v)
    evalBranch ev scope (depth + 1) b branches
  | .rand, limit :: _ => do
    let v ← evalAt ev scope (depth + 1) limit
    let n ← Tracer.next
    applyBinary .mul (.real (ev.draw n)) v
  | .sum, .var k :: args => evalSeries ev scope (depth + 2) .sum k args
  | .prod, .var k :: args => evalSeries ev scope (depth + 2) .prod k args
  | f, [] => throw (.missingArgument f.name)
  | f, _ :: _ => throw (.noLoopVariable f.name)

/-- `Evaluator.evalSeries`, with a record of the numbers that the loop variable takes. -/
def evalSeries (ev : Evaluator α) (scope : Scope α) (depth : Nat) (f : Builtin) (k : String) :
    List (Expr α) → Tracer α (Value α)
  | start :: stop :: term => do
    let a ← evalAt ev scope depth start
    let b ← evalAt ev scope depth stop
    series ev f a b fun x => do
      Tracer.meet [.real x]
      evalTerm ev (Evaluator.loopScope scope f k x) depth f term
  | [start] => do
    let _ ← evalAt ev scope depth start
    throw (.missingArgument f.name)
  | [] => throw (.missingArgument f.name)

/-- `Evaluator.evalTerm`, with a record. -/
def evalTerm (ev : Evaluator α) (scope : Scope α) (depth : Nat) (f : Builtin) :
    List (Expr α) → Tracer α (Value α)
  | term :: _ => evalAt ev scope depth term
  | [] => throw (.missingArgument f.name)

/-- `Evaluator.evalBranch`, with a record. -/
def evalBranch (ev : Evaluator α) (scope : Scope α) (depth : Nat) (b : Bool) :
    List (Expr α) → Tracer α (Value α)
  | [] => if b then throw (.missingArgument Builtin.cond.name) else pure (.real Scalar.zero)
  | [yes] => if b then evalAt ev scope depth yes else pure (.real Scalar.zero)
  | yes :: no :: _ => if b then evalAt ev scope depth yes else evalAt ev scope depth no

/-- `Evaluator.evalAll`, with a record. -/
def evalAll (ev : Evaluator α) (scope : Scope α) (depth : Nat) :
    List (Expr α) → Tracer α (List (Value α))
  | [] => pure []
  | e :: es => do
    let v ← evalAt ev scope depth e
    let vs ← evalAll ev scope depth es
    return v :: vs

/-- `Evaluator.evalBody`, with a record. -/
def evalBody (ev : Evaluator α) (depth : Nat) (values : List (Value α)) :
    Definition (Expr α) → Tracer α (Value α)
  | ⟨name, params, body, _⟩ =>
    evalAt ev (.ofBindings (.ofList (params.zip values)) name) depth body

end

section Calls

variable (ev : Evaluator α) (scope : Scope α) (depth : Nat)

/-- The call of a series with a loop variable. -/
theorem evalCall_series {f : Builtin} (hf : f.isSeries = true) (k : String)
    (args : List (Expr α)) :
    evalCall ev scope depth f (.var k :: args) = evalSeries ev scope (depth + 2) f k args := by
  cases f with
  | sum | prod => rw [evalCall]
  | _ => cases hf

/-- A call without arguments is malformed. -/
theorem evalCall_missing {f : Builtin} (hf : f ∈ Builtin.all) :
    evalCall ev scope depth f [] = throw (.missingArgument f.name) := by
  cases f with
  | other name => simp [Builtin.all] at hf
  | _ => simp [evalCall]

/-- The call of a series whose first argument is no variable is malformed. -/
theorem evalCall_noVariable {f : Builtin} (hf : f.isSeries = true) {e : Expr α}
    (he : ∀ k, e ≠ .var k) (rest : List (Expr α)) :
    evalCall ev scope depth f (e :: rest) = throw (.noLoopVariable f.name) := by
  cases f with
  | sum | prod =>
    cases e with
    | var k => exact absurd rfl (he k)
    | _ => simp [evalCall]
  | _ => cases hf

end Calls

end Traced

/-! ## The record of a closed set -/

section Closed

variable [Scalar α] {P : α → Prop} {ev : Evaluator α} {scope : Scope α} {depth : Nat}
  {args : List (Expr α)}

/-- Real numbers and booleans are widened to themselves. -/
theorem Value.RealIn.widened {v w : Value α} (hv : v.RealIn P) (hw : w.RealIn P) :
    ∀ u ∈ v.widened w, u.RealIn P := by
  cases v with
  | boolean a =>
    cases w with
    | boolean b => exact List.forall_mem_cons.2 ⟨trivial, List.forall_mem_singleton.2 trivial⟩
    | _ => exact fun u hu => absurd hu List.not_mem_nil
  | real x =>
    cases w with
    | real y => exact List.forall_mem_cons.2 ⟨hv, List.forall_mem_singleton.2 hw⟩
    | boolean b => exact fun u hu => absurd hu List.not_mem_nil
    | complex z => cases hw
  | complex z => cases hv

open Traced

variable (hP : Scalar.Closed P)

/-- The arguments of a call are traced one after another. -/
theorem traces_evalAll
    (h : ∀ e ∈ args, Traces (Value.RealIn P) (Value.RealIn P) (evalAt ev scope depth e)
      (ev.evalAt scope depth e)) :
    Traces (Value.RealIn P) (fun values => ∀ v ∈ values, Value.RealIn P v)
      (evalAll ev scope depth args) (ev.evalAll scope depth args) := by
  induction args with
  | nil =>
    rw [evalAll, Evaluator.evalAll]
    exact .pure (by simp)
  | cons e args ih =>
    obtain ⟨he, hargs⟩ := List.forall_mem_cons.1 h
    rw [evalAll, Evaluator.evalAll]
    exact he.bind fun v hv => (ih hargs).bind fun vs hvs => .pure (List.forall_mem_cons.2 ⟨hv, hvs⟩)

include hP

/-- The operands, as they are widened, and the value of an operator are in the closed set. -/
theorem traces_applyBinary (op : BinaryOp) {v w : Value α} (hv : v.RealIn P) (hw : w.RealIn P) :
    Traces (Value.RealIn P) (Value.RealIn P) (applyBinary op v w) (Eval.of (v.applyBinary op w)) :=
  .meet (hv.widened hw) (.noted (.of (Value.yields_applyBinary hP op hv hw)))

/-- The branches of a condition are traced when both of them are. -/
theorem traces_evalBranch
    (h : ∀ e ∈ args, Traces (Value.RealIn P) (Value.RealIn P) (evalAt ev scope depth e)
      (ev.evalAt scope depth e)) (b : Bool) :
    Traces (Value.RealIn P) (Value.RealIn P) (evalBranch ev scope depth b args)
      (ev.evalBranch scope depth b args) := by
  have hzero : Value.RealIn P (.real Scalar.zero) := hP.ofNat 0
  match args with
  | [] =>
    rw [evalBranch, Evaluator.evalBranch]
    cases b with
    | true => exact .throw _
    | false => exact .pure hzero
  | [yes] =>
    rw [evalBranch, Evaluator.evalBranch]
    cases b with
    | true => exact h yes (by simp)
    | false => exact .pure hzero
  | yes :: no :: rest =>
    rw [evalBranch, Evaluator.evalBranch]
    cases b with
    | true => exact h yes (by simp)
    | false => exact h no (by simp)

/-- The terms of a series are joined in the closed set. -/
theorem traces_accumulate {op : BinaryOp} {term' : α → Tracer α (Value α)}
    {term : α → Eval α (Value α)} {start : α} (hstart : P start)
    (hterm : ∀ x, P x → Traces (Value.RealIn P) (Value.RealIn P) (term' x) (term x)) :
    ∀ (count step : Nat) (result : Value α), result.RealIn P →
      Traces (Value.RealIn P) (Value.RealIn P) (accumulate op term' start step count result)
        (Evaluator.accumulate op term start step count result) := by
  intro count
  induction count with
  | zero => exact fun step result hresult => .pure hresult
  | succ count ih =>
    intro step result hresult
    exact (hterm _ (hP.add hstart (hP.ofNat step))).bind fun v hv =>
      (traces_applyBinary hP op hresult hv).bind fun joined hjoined => ih (step + 1) joined hjoined

/-- The loop variable starts from a bound and goes on in steps of one. -/
theorem traces_series {f : Builtin} {start stop : Value α} {term' : α → Tracer α (Value α)}
    {term : α → Eval α (Value α)} (hstart : start.RealIn P)
    (hterm : ∀ x, P x → Traces (Value.RealIn P) (Value.RealIn P) (term' x) (term x)) :
    Traces (Value.RealIn P) (Value.RealIn P) (series ev f start stop term')
      (ev.series f start stop term) := by
  have hbounds : Yields (fun bounds => P bounds.1) (Evaluator.bounds f start stop) := by
    rintro ⟨a, b⟩ h
    obtain ⟨rfl, -⟩ := Evaluator.eq_real_of_bounds h
    exact hstart
  have hneutral : Value.RealIn P (Evaluator.seriesOperator f).2 := by
    cases f with
    | prod => exact hP.ofNat 1
    | _ => exact hP.ofNat 0
  have hcount (a b : α) : Yields (fun _ => True) (ev.termCount f a b) := fun _ _ => trivial
  exact (Traces.of hbounds).bind fun (a, b) ha => (Traces.of (hcount a b)).bind fun count _ =>
    .meet (List.forall_mem_singleton.2 hneutral) (traces_accumulate hP ha hterm count 0 _ hneutral)

/-- A series is traced when its bounds are, and its term for every number of the closed set. -/
theorem traces_evalSeries {f : Builtin} {k : String}
    (h : ∀ e ∈ args, Traces (Value.RealIn P) (Value.RealIn P) (evalAt ev scope depth e)
      (ev.evalAt scope depth e))
    (hterm : ∀ e ∈ args, ∀ x, P x → Traces (Value.RealIn P) (Value.RealIn P)
      (evalAt ev (Evaluator.loopScope scope f k x) depth e)
      (ev.evalAt (Evaluator.loopScope scope f k x) depth e)) :
    Traces (Value.RealIn P) (Value.RealIn P) (evalSeries ev scope depth f k args)
      (ev.evalSeries scope depth f k args) := by
  match args with
  | [] =>
    rw [evalSeries, Evaluator.evalSeries]
    exact .throw _
  | [start] =>
    rw [evalSeries, Evaluator.evalSeries]
    exact (h start (by simp)).bind fun _ _ => .throw _
  | [start, stop] =>
    rw [evalSeries, Evaluator.evalSeries]
    refine (h start (by simp)).bind fun a ha => (h stop (by simp)).bind fun b _ =>
      traces_series hP ha fun x hx => .meet (List.forall_mem_singleton.2 hx) ?_
    rw [evalTerm, Evaluator.evalTerm]
    exact .throw _
  | start :: stop :: term :: rest =>
    rw [evalSeries, Evaluator.evalSeries]
    refine (h start (by simp)).bind fun a ha => (h stop (by simp)).bind fun b _ =>
      traces_series hP ha fun x hx => .meet (List.forall_mem_singleton.2 hx) ?_
    rw [evalTerm, Evaluator.evalTerm]
    exact hterm term (by simp) x hx

/-- A call of a builtin function is traced when its arguments are, wherever it evaluates them. -/
theorem traces_evalCall (hdraw : ∀ n, P (ev.draw n)) (f : Builtin)
    (h : ∀ e ∈ args, ∀ depth, Traces (Value.RealIn P) (Value.RealIn P) (evalAt ev scope depth e)
      (ev.evalAt scope depth e))
    (hterm : ∀ k, ∀ e ∈ args, ∀ x, P x → ∀ depth, Traces (Value.RealIn P) (Value.RealIn P)
      (evalAt ev (Evaluator.loopScope scope f k x) depth e)
      (ev.evalAt (Evaluator.loopScope scope f k x) depth e)) :
    Traces (Value.RealIn P) (Value.RealIn P) (evalCall ev scope depth f args)
      (ev.evalCall scope depth f args) := by
  cases Builtin.shape f args with
  | other name args =>
    rw [evalCall, Evaluator.evalCall]
    exact .throw _
  | cond condition branches =>
    obtain ⟨hcondition, hbranches⟩ := List.forall_mem_cons.1 h
    rw [evalCall, Evaluator.evalCall]
    exact (hcondition _).bind fun v _ => (Traces.of fun _ _ => trivial).bind fun b (_ : True) =>
      traces_evalBranch hP (fun e he => hbranches e he _) b
  | rand limit rest =>
    rw [evalCall, Evaluator.evalCall]
    exact (h limit (by simp) _).bind fun v hv => Traces.next.bind fun n _ =>
      traces_applyBinary hP .mul (hdraw n) hv
  | series hf k args =>
    rw [evalCall_series _ _ _ hf, Evaluator.evalCall_series _ _ _ hf]
    obtain ⟨-, hargs⟩ := List.forall_mem_cons.1 h
    obtain ⟨-, hterms⟩ := List.forall_mem_cons.1 (hterm k)
    exact traces_evalSeries hP (fun e he => hargs e he _) fun e he x hx => hterms e he x hx _
  | missing hf =>
    rw [evalCall_missing _ _ _ hf, Evaluator.evalCall_missing _ _ _ hf]
    exact .throw _
  | noVariable hf he rest =>
    rw [evalCall_noVariable _ _ _ hf he, Evaluator.evalCall_noVariable _ _ _ hf he]
    exact .throw _

/-- The record does not change what a tree is evaluated to, and all its values are in the closed set
that the constants are in, if what is bound and drawn is. -/
theorem Expr.RealIn.traces_evalAt (hdraw : ∀ n, P (ev.draw n)) {e : Expr α} (h : e.RealIn P) :
    ∀ (scope : Scope α) (depth : Nat), scope.RealIn P →
      Traces (Value.RealIn P) (Value.RealIn P) (evalAt ev scope depth e)
        (ev.evalAt scope depth e) := by
  induction h with
  | const hv origin =>
    intro scope depth _
    rw [evalAt, Evaluator.evalAt]
    exact .guard (.noted (.pure hv))
  | var name =>
    intro scope depth hscope
    rw [evalAt, Evaluator.evalAt]
    exact .guard (.noted (.guard (.of (hscope name))))
  | binary op _ _ ihl ihr =>
    intro scope depth hscope
    rw [evalAt, Evaluator.evalAt]
    exact .guard <| .noted <| (ihl scope _ hscope).bind fun a ha => (ihr scope _ hscope).bind
      fun b hb => traces_applyBinary hP op ha hb
  | unary f _ ih =>
    intro scope depth hscope
    rw [evalAt, Evaluator.evalAt]
    exact .guard <| .noted <| (ih scope _ hscope).bind fun v hv =>
      .of (Value.yields_applyUnary hP f hv)
  | builtin f _ ih =>
    intro scope depth hscope
    rw [evalAt, Evaluator.evalAt]
    exact .guard <| .noted <| traces_evalCall hP hdraw f (fun e he _ => ih e he scope _ hscope)
      fun k e he x hx _ => ih e he _ _ (hscope.loopScope f k hx)
  | @apply d args _ _ ihbody ih =>
    intro scope depth hscope
    obtain ⟨name, params, body, text⟩ := d
    rw [evalAt, Evaluator.evalAt]
    refine .guard <| .noted <| (traces_evalAll fun e he => ih e he scope _ hscope).bind
      fun values hvalues => ?_
    rw [evalBody, Evaluator.evalBody]
    exact ihbody _ _ (.ofBindings hvalues params name)

/-- The values of a tree are in the closed set that its constants are in, if what is bound is. If
the tree takes no draws, it does not matter what is drawn. -/
theorem Expr.RealIn.of_hasValue {e : Expr α} {v : Value α} (h : e.RealIn P)
    (he : e.isDeterministic = true) (hscope : scope.RealIn P) (hv : ev.HasValue scope e v) :
    v.RealIn P := by
  obtain ⟨n, m, houtcome⟩ := hv.withDraw he fun _ => Scalar.zero
  have hdraw : ∀ n, P ((ev.withDraw fun _ => Scalar.zero).draw n) := fun _ => hP.ofNat 0
  exact (h.traces_evalAt hP hdraw scope 2 hscope).yields n v (congrArg Prod.fst houtcome)

end Closed

/-! ## Real formulas -/

/-- Any real numbers. -/
theorem Scalar.closed_true [Scalar α] : Scalar.Closed fun _ : α => True := by
  constructor <;> intros <;> first | trivial | exact fun _ _ => trivial

/-- No complex number stands in the tree, nor in the body of a function that it calls. -/
def Expr.IsReal (e : Expr α) : Prop := e.RealIn fun _ => True

/-- The scope binds real numbers and booleans only. -/
def Scope.IsReal (scope : Scope α) : Prop := scope.RealIn fun _ => True

/-- A value that is real in any sense is a boolean or a real number. -/
theorem Value.RealIn.kind_eq {P : α → Prop} {v : Value α} (h : v.RealIn P) :
    v.kind = .boolean ∨ v.kind = .real := by
  cases v with
  | boolean b => exact .inl rfl
  | real x => exact .inr rfl
  | complex z => cases h

namespace Evaluator

variable [Scalar α]

/-- The record of the evaluation of a tree from a draw on. -/
def trace (ev : Evaluator α) (scope : Scope α) (e : Expr α) (n : Nat) : List (Value α) :=
  ((Traced.evalAt ev scope 2 e).outcome n []).2.2

/-- Real formulas stay real: without complex constants, and with real numbers and booleans bound, an
evaluation meets real numbers and booleans only, whatever is drawn, and ends with an error, a real
number or a boolean. -/
theorem trace_of_isReal (ev : Evaluator α) {scope : Scope α} {e : Expr α} (he : e.IsReal)
    (hscope : scope.IsReal) (n : Nat) :
    (Traced.evalAt ev scope 2 e).outcome n [] =
        (((ev.evaluate scope e).outcome n).1, ((ev.evaluate scope e).outcome n).2,
          ev.trace scope e n) ∧
      (∀ v ∈ ev.trace scope e n, v.kind = .boolean ∨ v.kind = .real) ∧
      ∀ v, ((ev.evaluate scope e).outcome n).1 = .ok v → v.kind = .boolean ∨ v.kind = .real := by
  have htraces : Traces (Value.RealIn fun _ => True) (Value.RealIn fun _ => True)
      (Traced.evalAt ev scope 2 e) (ev.evaluate scope e) :=
    Expr.RealIn.traces_evalAt Scalar.closed_true (fun _ => trivial) he scope 2 hscope
  obtain ⟨values, hrun, hvalues⟩ := htraces.outcome n []
  have htrace : ev.trace scope e n = values := by
    rw [trace, hrun]
    rfl
  rw [htrace]
  exact ⟨hrun, fun v hv => (hvalues v hv).kind_eq, fun v hv => (htraces.yields n v hv).kind_eq⟩

/-- The square of a bound number: what is met are the argument, the two variables of the body, the
operands of the product, and its value as a result, as the body's and as that of the call. -/
theorem trace_of_square :
    let f : Definition (Expr Float) := ⟨"f", ["y"], .binary .mul (.var "y") (.var "y"), "y*y"⟩
    let ev : Evaluator Float := { draw := fun _ => Scalar.half }
    let scope : Scope Float := .ofBindings [("x", .real Scalar.pi)]
    let pi : Value Float := .real Scalar.pi
    let square : Value Float := .real (Scalar.pi * Scalar.pi)
    (ev.evaluate scope (.apply f [.var "x"])).outcome 0 = (.ok square, 0) ∧
      ev.trace scope (.apply f [.var "x"]) 0 = [pi, pi, pi, pi, pi, square, square, square] ∧
      ∀ v ∈ ev.trace scope (.apply f [.var "x"]) 0, v.kind = .boolean ∨ v.kind = .real := by
  intro f ev scope pi square
  have hreal : Expr.IsReal (.apply f [.var "x"]) :=
    .apply (.binary .mul (.var "y") (.var "y")) (List.forall_mem_singleton.2 (.var "x"))
  have hpi : pi.RealIn fun _ => True := trivial
  have hscope : scope.IsReal := .ofBindings (List.forall_mem_singleton.2 hpi) ["x"] _
  exact ⟨by rfl, by rfl, (trace_of_isReal ev hreal hscope 0).2.1⟩

end Evaluator

end Formulary
