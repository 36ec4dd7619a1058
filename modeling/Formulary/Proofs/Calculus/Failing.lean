import Formulary.Proofs.Calculus.Rejection

/-!
# How making a derivative fails

A well-formed tree has a derivative, or the error says that there is none, also where random draws
are taken to find out whether an inner derivative is one. Under a limit the room may be exhausted as
well (`Expr.WellFormed.failsOnly_derive`, `Engine.failsOnly_derive`, `Engine.failsOnly_integrate`).
-/

namespace Formulary

/-- The error says that there is no derivative, or that a limit is in the way of it. -/
def DerivativeError.IsForeseen {α : Type} (limit : CallLimit) (e : DerivativeError α) : Prop :=
  e.kind = .derivative ∨ e.kind = .exhausted ∧ limit ≠ none

namespace Expr

variable {α β γ : Type} {limit : CallLimit}

/-! ## Transformations that fail for want of a rule -/

/-- From every draw on, if there is no result, the error is one of those that are foreseen. -/
def Transform.FailsOnly (limit : CallLimit) (y : Transform α β) : Prop :=
  ∀ n, Formulary.FailsOnly (·.IsForeseen limit) (y.run.run n).1

namespace Transform.FailsOnly

theorem pure (b : β) : FailsOnly limit (Pure.pure b : Transform α β) := fun _ => .ok b

theorem throw {e : DerivativeError α} (he : e.kind = .derivative) :
    FailsOnly limit (MonadExcept.throw e : Transform α β) := fun _ => .error (.inl he)

theorem exhausted {calls : ℕ} (h : limit.isExceeded calls = true) :
    FailsOnly limit (MonadExcept.throw .exhausted : Transform α β) :=
  fun _ => .error (.inr ⟨rfl, CallLimit.ne_none_of_isExceeded h⟩)

/-- The second step has to be looked at for the results of the first one only. -/
theorem bind {y : Transform α β} {f : β → Transform α γ} {P : β → Prop} (hy : FailsOnly limit y)
    (hP : y.Yields P) (hf : ∀ b, P b → FailsOnly limit (f b)) : FailsOnly limit (y >>= f) := by
  intro n
  have hn := hy n
  rw [ExceptT.run_bind, StateT.run_bind]
  rcases hrun : y.run.run n with ⟨e | b, m⟩
  · rw [hrun] at hn
    exact .error (hn e rfl)
  · exact hf b (hP n b m hrun) m

/-- A test, and results either way. -/
theorem chosen {test : Transform α Bool} (htest : FailsOnly limit test) (b b' : β) :
    FailsOnly limit (do if ← test then return b else return b') := by
  refine htest.bind (fun _ _ _ _ => trivial) fun found _ => ?_
  cases found with
  | true => exact pure b
  | false => exact pure b'

/-- A step that there has to be room for. -/
theorem within {y : Transform α β} (hy : FailsOnly limit y) (calls : ℕ) :
    FailsOnly limit (Expr.within limit calls y) := by
  unfold Expr.within
  split
  · next hexceeded => exact .exhausted hexceeded
  · exact hy

/-- A sum whose range is in the way has no derivative. -/
theorem summation {what : Calculus} {x k : String} {start stop : Expr α}
    {term : Transform α (Expr α)} (hterm : FailsOnly limit term) (depth : ℕ) :
    FailsOnly limit (Expr.summation limit what x depth k start stop term) := by
  unfold Expr.summation
  split
  · exact .throw rfl
  · refine .within ?_ _
    split
    · next hrange => exact .throw (kind_of_rangeError? hrange)
    · exact .within (hterm.bind (fun _ _ _ _ => trivial) fun _ _ => .pure _) _

end Transform.FailsOnly

variable [Scalar α] {e e' : Expr α} {x : String}

section

variable [LawfulDivision α] (ev : Evaluator α)

/-- Whether a well-formed tree is one cannot be found out if the tree has no value. -/
theorem WellFormed.failsOnly_isOne (h : e.WellFormed) (depth : ℕ) :
    (isOne ev depth e).FailsOnly ev.maxPending := by
  refine .within ?_ _
  split
  · intro n
    have hproper : Proper ((ev.evalAt .empty (depth + 2) e).outcome n).1 :=
      h.proper_evalAt ev .empty (depth + 2) n
    rcases houtcome : (ev.evalAt .empty (depth + 2) e).outcome n with ⟨r, m⟩
    have hrun : (ev.evalAt .empty (depth + 2) e).run.run n = (r, m) := houtcome
    rw [houtcome] at hproper
    rw [ExceptT.run_mk, StateT.run_bind, hrun]
    cases r with
    | ok v => cases v <;> exact .ok _
    | error err =>
      refine .error (.inl ?_)
      rw [isMalformed_eq_false (hproper err rfl)]
      rfl
  · exact .pure false

/-- A well-formed tree has a derivative, or the error is one of those that are foreseen. -/
theorem WellFormed.failsOnly_derive (h : e.WellFormed) (x : String) (depth : ℕ) :
    (Expr.derive ev x depth e).FailsOnly ev.maxPending := by
  fun_induction Expr.derive ev x depth e with
  | case1 _ _ hexceeded => exact .exhausted hexceeded
  | case2 | case3 => exact .pure _
  | case4 depth _ f g ihf ihg =>
    cases h with
    | binary _ hf hg =>
      exact (ihf hf).bind (hf.derive ev x _) fun _ _ =>
        (ihg hg).bind (hg.derive ev x _) fun _ _ => .pure _
  | case5 depth _ f g ihf ihg =>
    cases h with
    | binary _ hf hg =>
      exact (ihf hf).bind (hf.derive ev x _) fun _ _ =>
        ((ihg hg).within _).bind (.within (hg.derive ev x _) _ _) fun _ _ => .pure _
  | case6 depth _ base exponent ih =>
    cases h with
    | binary _ hbase _ =>
      refine .within ?_ _
      split
      · exact .within ((ih hbase).bind (hbase.derive ev x _) fun inner hinner =>
          (hinner.failsOnly_isOne ev _).chosen _ _) _
      · exact .throw rfl
  | case7 depth _ operand ih =>
    cases h with
    | unary _ hoperand =>
      exact .within ((ih hoperand).bind (hoperand.derive ev x _) fun inner hinner =>
        (hinner.failsOnly_isOne ev _).chosen _ _) _
  | case8 depth _ k start stop term rest ih =>
    have hterm : term.WellFormed := h.child (by simp [children])
    exact .summation (ih hterm) _
  | case9 depth _ args hargs =>
    obtain ⟨k, start, stop, term, rfl⟩ := (wellFormed_iff_follows.1 h).series_args rfl
    exact absurd rfl (hargs k start stop term [])
  | case10 => exact .throw rfl

end

end Expr

/-! ## Engines -/

namespace Engine

open Formulary.Expr

section

variable [Scalar Float] {engine engine' : Engine} {t t' : Expr Float} {x : String}

/-- There is a derivative, or the failure says that there is none, or a limit is in the way. -/
theorem failsOnly_derive [LawfulDivision Float] (engine : Engine) (ht : t.WellFormed) (x : String) :
    FailsOnly (fun e => e.kind = .derivative ∨
      e.kind = .exhausted ∧ engine.evaluator.maxPending ≠ none)
      ((derive t x).run.run engine).1 := by
  rw [run_derive]
  exact .mapError (ht.failsOnly_derive engine.evaluator x 2 engine.drawn)

/-- There is an antiderivative, or the failure says that there is none, or a limit is in the way. -/
theorem failsOnly_integrate (engine : Engine) (ht : t.WellFormed) (x : String) :
    FailsOnly (fun e => e.kind = .derivative ∨
      e.kind = .exhausted ∧ engine.evaluator.maxPending ≠ none)
      ((integrate t x).run.run engine).1 := by
  rcases hasDomain_integrate engine ht x with ⟨hrun, -, -⟩ | ⟨hrun, hkind, -⟩ | ⟨hrun, hkind, hroom⟩
  · rw [hrun]
    exact .ok _
  · rw [hrun]
    exact .error (.inl hkind)
  · rw [hrun]
    exact .error (.inr ⟨hkind, CallLimit.ne_none_of_isExceeded hroom⟩)

/-- The derivative that an engine makes of a well-formed tree. -/
theorem of_run_derive_eq_ok (ht : t.WellFormed)
    (h : (derive t x).run.run engine = (.ok t', engine')) :
    t'.WellFormed ∧ ∃ drawn, engine' = { engine with drawn } := by
  rw [run_derive] at h
  obtain ⟨hresult, rfl⟩ := Prod.mk.inj h
  rcases hrun : (t.derive engine.evaluator x 2).run.run engine.drawn with ⟨e | t'', m⟩
  · rw [hrun] at hresult
    cases hresult
  · rw [hrun] at hresult
    cases hresult
    exact ⟨ht.derive _ x _ _ _ _ hrun, _, rfl⟩

/-- The antiderivative that an engine makes of a well-formed tree. -/
theorem of_run_integrate_eq_ok (ht : t.WellFormed)
    (h : (integrate t x).run.run engine = (.ok t', engine')) : t'.WellFormed ∧ engine' = engine := by
  rw [run_integrate] at h
  obtain ⟨hresult, rfl⟩ := Prod.mk.inj h
  exact ⟨ht.integrate (mapError_eq_ok.1 hresult), rfl⟩

end

end Engine

end Formulary
