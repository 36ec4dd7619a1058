import Formulary.Proofs.Evaluation.FreeVars
import Formulary.Proofs.Evaluation.Values
import Formulary.Proofs.Value.Closure

/-!
# Trees and scopes in a closed set of numbers

All constants of a tree, also in the bodies of the functions that it calls, are real numbers of a
closed set or booleans (`Expr.RealIn`), and so are the values that a scope binds (`Scope.RealIn`).
The scopes that an evaluation makes are of this kind again: that of a function's body binds the
values of the arguments, and that of a series' term a number of the set.
-/

namespace Formulary

variable {α β γ : Type}

/-! ## Computations -/

/-- From every draw on, if there is a value, `P` holds of it. -/
def Eval.Yields (P : β → Prop) (x : Eval α β) : Prop := ∀ n, Formulary.Yields P (x.outcome n).1

namespace Eval.Yields

variable {P : β → Prop} {Q : γ → Prop}

/-- A result that `P` holds of. -/
theorem pure {b : β} (hb : P b) : Yields P (Pure.pure b : Eval α β) := fun _ => .ok hb

/-- A failure is no result. -/
theorem throw (e : EvalError α) : Yields P (MonadExcept.throw e : Eval α β) := fun _ => .error e

/-- A step that takes no draw. -/
theorem of {r : Except (EvalError α) β} (h : Formulary.Yields P r) : Yields P (Eval.of r) :=
  fun _ => h

/-- A step and what follows it. -/
theorem bind {x : Eval α β} {f : β → Eval α γ} (hx : Yields P x)
    (hf : ∀ b, P b → Yields Q (f b)) : Yields Q (x >>= f) := by
  intro n
  rw [outcome_bind]
  have hn := hx n
  rcases houtcome : x.outcome n with ⟨e | b, m⟩
  · exact .error e
  · rw [houtcome] at hn
    exact hf b (hn b rfl) m

/-- Nothing to look at. -/
theorem any (x : Eval α β) : Yields (fun _ => True) x := fun _ _ _ => trivial

end Eval.Yields

/-! ## Trees and scopes -/

/-- The constants of the tree and of the functions that it calls are booleans, or real numbers with
`P`. -/
inductive Expr.RealIn (P : α → Prop) : Expr α → Prop where
  | const {v : Value α} (hv : v.RealIn P) (origin : Option Origin) : RealIn P (.const v origin)
  | var (name : String) : RealIn P (.var name)
  | binary (op : BinaryOp) {l r : Expr α} (hl : RealIn P l) (hr : RealIn P r) :
      RealIn P (.binary op l r)
  | unary (f : UnaryOp) {x : Expr α} (hx : RealIn P x) : RealIn P (.unary f x)
  | builtin (f : Builtin) {args : List (Expr α)} (hargs : ∀ e ∈ args, RealIn P e) :
      RealIn P (.builtin f args)
  | apply {d : Definition (Expr α)} {args : List (Expr α)} (hbody : RealIn P d.body)
      (hargs : ∀ e ∈ args, RealIn P e) : RealIn P (.apply d args)

/-- The children of such a tree are such trees. -/
theorem Expr.RealIn.of_child {P : α → Prop} {e child : Expr α} (h : e.RealIn P)
    (hchild : child ∈ e.children) : child.RealIn P := by
  cases h with
  | const | var => cases hchild
  | binary op hl hr =>
    rcases List.mem_cons.1 hchild with rfl | hchild
    · exact hl
    · rwa [List.mem_singleton.1 hchild]
  | unary f hx => rwa [List.mem_singleton.1 hchild]
  | builtin f hargs => exact hargs child hchild
  | apply _ hargs => exact hargs child hchild

/-- The values that the scope binds are booleans, or real numbers with `P`. -/
def Scope.RealIn (P : α → Prop) (scope : Scope α) : Prop :=
  ∀ name, Yields (Value.RealIn P) (scope.lookup name)

/-- What is bound after several bindings was bound before or is one of the new values. -/
theorem Bindings.get?_foldl {name : String} {v : Value α} {pairs : List (String × Value α)}
    {bindings : Bindings α}
    (h : (pairs.foldl (fun bindings (n, v) => bindings.insert n v) bindings).get? name = some v) :
    v ∈ pairs.map (·.2) ∨ bindings.get? name = some v := by
  induction pairs generalizing bindings with
  | nil => exact .inr h
  | cons pair pairs ih =>
    rw [List.foldl_cons] at h
    rw [List.map_cons]
    rcases ih h with hmem | hget
    · exact .inl (List.mem_cons_of_mem _ hmem)
    · rw [get?_insert] at hget
      split at hget
      · cases hget
        exact .inl List.mem_cons_self
      · exact .inr hget

namespace Scope.RealIn

variable {P : α → Prop}

/-- The scope of a function's body binds the values of the arguments. -/
theorem ofBindings {values : List (Value α)} (h : ∀ v ∈ values, v.RealIn P) (params : List String)
    (name : String) : (Scope.ofBindings (.ofList (params.zip values)) name).RealIn P := by
  intro param v hv
  unfold Scope.lookup at hv
  split at hv
  · next w hw =>
    cases hv
    have hget : (Bindings.ofList (params.zip values)).get? param = some v := by
      simpa [Scope.get?, Scope.frames, Scope.ofBindings] using hw
    rcases Bindings.get?_foldl hget with hmem | hnone
    · obtain ⟨⟨param', v'⟩, hpair, rfl⟩ := List.mem_map.1 hmem
      exact h v' (List.of_mem_zip hpair).2
    · cases hnone
  · cases hv

/-- A loop variable bound to such a number. -/
theorem loopScope [Scalar α] {scope : Scope α} (h : scope.RealIn P) (f : Builtin) (k : String)
    {x : α} (hx : P x) : (Evaluator.loopScope scope f k x).RealIn P := by
  intro name
  rw [lookup_loopScope]
  exact .ite (.ok hx) (h name)

end Scope.RealIn

end Formulary
