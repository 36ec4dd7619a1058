import Mathlib.Data.List.Forall2

/-!
# Computations that may fail

When a sequence of steps has a result, every step has one. These are the facts about `Except` that
take a successful computation apart. Steps on the elements of a list relate them to their results
one by one.

A computation that `FailsOnly` with certain errors may have a result or one of these. One that
`Yields` certain results may fail as well.
-/

namespace Formulary

variable {ε α β γ : Type}

/-- A sequence of two steps succeeds when both do. -/
theorem bind_eq_ok {x : Except ε α} {f : α → Except ε β} {b : β} :
    (x >>= f) = .ok b ↔ ∃ a, x = .ok a ∧ f a = .ok b := by
  cases x with
  | error e => simp [bind, Except.bind]
  | ok a => simp [bind, Except.bind]

/-- Naming errors does not change results. -/
theorem mapError_eq_ok {ε' : Type} {wrap : ε → ε'} {x : Except ε α} {a : α} :
    x.mapError wrap = .ok a ↔ x = .ok a := by
  cases x with
  | error e => simp [Except.mapError]
  | ok b => simp [Except.mapError]

/-- Steps on the elements of a list all succeed. -/
theorem mapM_eq_ok {f : α → Except ε β} {xs : List α} {ys : List β} :
    xs.mapM f = .ok ys ↔ List.Forall₂ (fun x y => f x = .ok y) xs ys := by
  induction xs generalizing ys with
  | nil =>
    rw [List.mapM_nil, List.forall₂_nil_left_iff]
    exact ⟨fun h => by cases h; rfl, fun h => by rw [h]; rfl⟩
  | cons x xs ih =>
    rw [List.mapM_cons, bind_eq_ok, List.forall₂_cons_left_iff]
    constructor
    · rintro ⟨y, hy, h⟩
      obtain ⟨ys', hys, h⟩ := bind_eq_ok.1 h
      cases h
      exact ⟨y, ys', hy, ih.1 hys, rfl⟩
    · rintro ⟨y, ys', hy, hys, rfl⟩
      exact ⟨y, hy, bind_eq_ok.2 ⟨ys', ih.2 hys, rfl⟩⟩

/-- What related elements of two lists pass on holds of the whole second list. -/
theorem forall_mem_of_forall₂ {R : α → β → Prop} {P : β → Prop} {xs : List α} {ys : List β}
    (h : List.Forall₂ R xs ys) (hR : ∀ x ∈ xs, ∀ y, R x y → P y) : ∀ y ∈ ys, P y := by
  induction h with
  | nil =>
    intro y hy
    cases hy
  | cons hfirst _ ih =>
    obtain ⟨hhead, htail⟩ := List.forall_mem_cons.1 hR
    exact List.forall_mem_cons.2 ⟨hhead _ hfirst, ih htail⟩

/-! ## Computations that fail with certain errors only -/

/-- If there is no result, `P` holds of the error. -/
def FailsOnly (P : ε → Prop) (r : Except ε α) : Prop := ∀ e, r = .error e → P e

namespace FailsOnly

variable {P : ε → Prop}

/-- A result is no failure. -/
theorem ok (a : α) : FailsOnly P (.ok a : Except ε α) := by
  rintro e ⟨⟩

/-- An error that `P` holds of. -/
theorem error {e : ε} (he : P e) : FailsOnly P (.error e : Except ε α) := by
  rintro e' ⟨⟩
  exact he

/-- A step and what follows it. -/
theorem bind {r : Except ε α} {f : α → Except ε β} (hr : FailsOnly P r)
    (hf : ∀ a, FailsOnly P (f a)) : FailsOnly P (r >>= f) := by
  cases r with
  | ok a => exact hf a
  | error e => exact error (hr e rfl)

/-- What is made of a result does not fail. -/
theorem map {r : Except ε α} (hr : FailsOnly P r) (f : α → β) : FailsOnly P (r.map f) := by
  cases r with
  | ok a => exact ok (f a)
  | error e => exact error (hr e rfl)

/-- Errors that are passed on as others. -/
theorem mapError {ε' : Type} {P : ε' → Prop} {wrap : ε → ε'} {r : Except ε α}
    (hr : FailsOnly (fun e => P (wrap e)) r) : FailsOnly P (r.mapError wrap) := by
  cases r with
  | ok a => exact ok a
  | error e => exact error (hr e rfl)

/-- Both ways out of a check. -/
theorem ite {c : Prop} [Decidable c] {r r' : Except ε α} (hr : FailsOnly P r)
    (hr' : FailsOnly P r') : FailsOnly P (if c then r else r') := by
  by_cases hc : c
  · rw [if_pos hc]
    exact hr
  · rw [if_neg hc]
    exact hr'

end FailsOnly

/-! ## Computations with certain results only -/

/-- If there is a result, `P` holds of it. -/
def Yields (P : α → Prop) (r : Except ε α) : Prop := ∀ a, r = .ok a → P a

namespace Yields

variable {P : α → Prop} {Q : β → Prop}

theorem ok {a : α} (ha : P a) : Yields P (.ok a : Except ε α) := by
  rintro a' ⟨⟩
  exact ha

theorem error (e : ε) : Yields P (.error e : Except ε α) := by
  rintro a ⟨⟩

theorem bind {r : Except ε α} {f : α → Except ε β} (hr : Yields P r)
    (hf : ∀ a, P a → Yields Q (f a)) : Yields Q (r >>= f) := by
  cases r with
  | ok a => exact hf a (hr a rfl)
  | error e => exact error e

/-- Both ways out of a check. -/
theorem ite {c : Prop} [Decidable c] {r r' : Except ε α} (hr : Yields P r) (hr' : Yields P r') :
    Yields P (if c then r else r') := by
  by_cases hc : c
  · rw [if_pos hc]
    exact hr
  · rw [if_neg hc]
    exact hr'

end Yields

end Formulary
