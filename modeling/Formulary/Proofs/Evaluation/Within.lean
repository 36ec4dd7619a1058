import Formulary.Evaluation.Basic

/-!
# Comparing evaluations

An evaluation has an outcome for every number of the next draw: a value or an error, and the number
of the first draw that is left over. `Eval.Within limited x y` says that `x` has the outcomes of `y`
unless it ends as too deep, and that it always has them unless there is a limit. So the claim is an
equality of outcomes where nothing is limited, and the bound on depth is the only way to miss it.

Two evaluations are `Drawless` if they take no draw and come to the same. Of two evaluations that
differ only in the draws that they could take, this says that the draws do not matter.
-/

namespace Formulary.Eval

variable {α β γ : Type} {limited : Prop}

/-- What an evaluation comes to from a draw on. -/
def outcome (x : Eval α β) (n : Nat) : Except (EvalError α) β × Nat := x.run.run n

@[simp] theorem outcome_pure (b : β) (n : Nat) : (pure b : Eval α β).outcome n = (.ok b, n) := rfl

@[simp] theorem outcome_throw (e : EvalError α) (n : Nat) :
    (throw e : Eval α β).outcome n = (.error e, n) := rfl

@[simp] theorem outcome_of (r : Except (EvalError α) β) (n : Nat) : (of r).outcome n = (r, n) := rfl

/-- A second step follows a value, with the draws that the first step has left over. -/
theorem outcome_bind (x : Eval α β) (f : β → Eval α γ) (n : Nat) :
    (x >>= f).outcome n =
      match x.outcome n with
      | (.ok b, m) => (f b).outcome m
      | (.error e, m) => (.error e, m) := by
  show (match x.outcome n with
    | (r, m) => (ExceptT.bindCont f r : StateM Nat _) m) = _
  rcases x.outcome n with ⟨_ | _, m⟩ <;> rfl

/-- There is a value when both steps have one. -/
theorem outcome_bind_eq_ok {x : Eval α β} {f : β → Eval α γ} {n m : Nat} {c : γ} :
    (x >>= f).outcome n = (.ok c, m) ↔
      ∃ b k, x.outcome n = (.ok b, k) ∧ (f b).outcome k = (.ok c, m) := by
  rw [outcome_bind]
  rcases x.outcome n with ⟨_ | b, k⟩
  · simp
  · refine ⟨fun h => ⟨b, k, rfl, h⟩, ?_⟩
    rintro ⟨_, _, ⟨⟩, h⟩
    exact h

/-- An evaluation is determined by its outcomes. -/
theorem outcome_injective {x y : Eval α β} (h : ∀ n, x.outcome n = y.outcome n) : x = y := funext h

/-! ## Outcomes up to the limit of depth -/

/-- The outcomes of `y`, but for evaluations that are too deep. -/
def Within (limited : Prop) (x y : Eval α β) : Prop :=
  ∀ n, (limited ∧ (x.outcome n).1 = .error .tooDeep) ∨ x.outcome n = y.outcome n

namespace Within

variable {x y : Eval α β}

/-- An evaluation has its own outcomes. -/
theorem refl (x : Eval α β) : Within limited x x := fun _ => .inr rfl

/-- Being too deep is lost in no step. -/
theorem trans {z : Eval α β} (h : Within limited x y) (h' : Within limited y z) :
    Within limited x z := by
  intro n
  rcases h n with hdeep | hxy
  · exact .inl hdeep
  · rw [hxy]
    exact h' n

/-- Nothing is too deep without a limit. -/
theorem eq (h : Within limited x y) (hlimited : ¬ limited) : x = y :=
  outcome_injective fun n => (h n).resolve_left fun hdeep => hlimited hdeep.1

/-- A value remains. -/
theorem outcome_ok {n m : Nat} {b : β} (h : Within limited x y) (hx : x.outcome n = (.ok b, m)) :
    y.outcome n = (.ok b, m) := by
  rcases h n with ⟨-, hdeep⟩ | heq
  · rw [hx] at hdeep
    cases hdeep
  · rw [← heq, hx]

/-- An outcome other than being too deep remains. -/
theorem eq_of {r : Except (EvalError α) β} (h : Within limited (of r) y)
    (hr : limited → r ≠ .error .tooDeep) : y = of r :=
  outcome_injective fun n => ((h n).resolve_left fun hdeep => hr hdeep.1 hdeep.2).symm

/-- An evaluation that is too deep has any outcomes up to the limit. -/
theorem tooDeep (hlimited : limited) : Within limited (throw .tooDeep) y :=
  fun _ => .inl ⟨hlimited, rfl⟩

/-- Two steps are compared one after the other. -/
theorem bind {f g : β → Eval α γ} (h : Within limited x y) (hf : ∀ b, Within limited (f b) (g b)) :
    Within limited (x >>= f) (y >>= g) := by
  intro n
  rw [outcome_bind, outcome_bind]
  -- being too deep is an error, so the second step does not take place
  rcases h n with ⟨hlimited, hdeep⟩ | hxy
  · refine .inl ⟨hlimited, ?_⟩
    generalize x.outcome n = o at hdeep ⊢
    obtain ⟨r, m⟩ := o
    rw [show r = .error .tooDeep from hdeep]
  · rw [hxy]
    obtain ⟨_ | b, m⟩ := y.outcome n
    · exact .inr rfl
    · exact hf b m

end Within

/-! ## Evaluations without draws -/

/-- No draw is taken, and the outcome is the same. -/
def Drawless (x y : Eval α β) : Prop := ∃ r, x = of r ∧ y = of r

namespace Drawless

variable {x y : Eval α β}

/-- A given outcome takes no draw. -/
theorem of (r : Except (EvalError α) β) : Drawless (Eval.of r) (Eval.of r) := ⟨r, rfl, rfl⟩

/-- A value takes no draw. -/
theorem pure (b : β) : Drawless (Pure.pure b : Eval α β) (Pure.pure b) := ⟨.ok b, rfl, rfl⟩

/-- An error takes no draw. -/
theorem throw (e : EvalError α) :
    Drawless (MonadExcept.throw e : Eval α β) (MonadExcept.throw e) := ⟨.error e, rfl, rfl⟩

/-- Two steps take no draw if neither of them does. -/
theorem bind {f g : β → Eval α γ} (h : Drawless x y) (hf : ∀ b, Drawless (f b) (g b)) :
    Drawless (x >>= f) (y >>= g) := by
  obtain ⟨r, rfl, rfl⟩ := h
  cases r with
  | ok b =>
    obtain ⟨r, hr, hr'⟩ := hf b
    exact ⟨r, hr, hr'⟩
  | error e => exact ⟨.error e, rfl, rfl⟩

end Drawless

end Formulary.Eval
