import Formulary.CommandLine.Outcome
import Formulary.Proofs.Outcome

/-!
# Parts of a run on a quiet console

A console that is not verbose has nothing to show but its engine. `Ends P Q x engine` says what a
part `x` of a run comes to on such a console: it has just the results that `Q` describes, together
with the engine that is left, and where there is none it fails in a way that `P` allows. There is
one rule for each way of putting parts together.
-/

namespace Formulary.CommandLine

/-- A console that logs nothing. -/
def quiet (engine : Engine) : Console := { engine, verbose := false }

/-- On a quiet console, which stays quiet, the results of a part are those that `Q` describes, and
its failure is one that `P` holds of. -/
def Ends {β : Type} (P : Failure → Prop) (Q : β → Engine → Prop) (x : ConsoleM β)
    (engine : Engine) : Prop :=
  ∃ r engine', x.run.run (quiet engine) = (r, quiet engine') ∧ FailsOnly P r ∧
    ∀ b e, Q b e ↔ r = .ok b ∧ e = engine'

namespace Ends

variable {α β γ : Type} {P : Failure → Prop} {Q : β → Engine → Prop} {x : ConsoleM β}
  {engine : Engine}

/-- The same results, said differently. -/
theorem congr {Q' : β → Engine → Prop} (h : Ends P Q x engine) (hQ : ∀ b e, Q' b e ↔ Q b e) :
    Ends P Q' x engine := by
  obtain ⟨r, engine', hrun, hP, hresult⟩ := h
  exact ⟨r, engine', hrun, hP, fun b e => (hQ b e).trans (hresult b e)⟩

/-- A result of its own. -/
theorem pure (b : β) : Ends P (fun b' e => b' = b ∧ e = engine) (Pure.pure b) engine := by
  refine ⟨.ok b, engine, rfl, .ok b, fun b' e => and_congr_left fun _ => ?_⟩
  rw [Except.ok.injEq, eq_comm]

/-- A failure that `P` holds of. -/
theorem throw {e : Failure} (he : P e) :
    Ends P (fun (_ : β) _ => False) (MonadExcept.throw e) engine :=
  ⟨.error e, engine, rfl, .error he, fun _ _ => by simp⟩

/-- An operation on the engine. -/
theorem onEngine {y : EngineM β} (h : FailsOnly P (y.run.run engine).1) :
    Ends P (fun b e => y.run.run engine = (.ok b, e)) (CommandLine.onEngine y) engine := by
  refine ⟨(y.run.run engine).1, (y.run.run engine).2, rfl, h, fun b e => ?_⟩
  exact Prod.ext_iff.trans (and_congr_right fun _ => eq_comm)

/-- A second part follows a result, on the engine that the first one has left. -/
theorem bind {S : β → Engine → γ → Engine → Prop} {f : β → ConsoleM γ} (hx : Ends P Q x engine)
    (hf : ∀ b e, Q b e → Ends P (S b e) (f b) e) :
    Ends P (fun c e' => ∃ b e, Q b e ∧ S b e c e') (x >>= f) engine := by
  obtain ⟨r, engine', hrun, hP, hresult⟩ := hx
  have hbind : (x >>= f).run.run (quiet engine) =
      (ExceptT.bindCont f r : StateM Console _) (quiet engine') := by
    rw [ExceptT.run_bind, StateT.run_bind, hrun]
    cases r <;> rfl
  cases r with
  | error e =>
    refine ⟨.error e, engine', hbind, .error (hP e rfl), fun c e' => ?_⟩
    simp [hresult]
  | ok b =>
    obtain ⟨r', engine'', hrun', hP', hresult'⟩ := hf b engine' ((hresult b engine').2 ⟨rfl, rfl⟩)
    refine ⟨r', engine'', hbind.trans hrun', hP', fun c e' => ?_⟩
    constructor
    · rintro ⟨b', e, hQ, hS⟩
      obtain ⟨⟨⟩, rfl⟩ := (hresult b' e).1 hQ
      exact (hresult' c e').1 hS
    · intro h
      exact ⟨b, engine', (hresult b engine').2 ⟨rfl, rfl⟩, (hresult' c e').2 h⟩

/-- The same for a first part that leaves the engine as it is. -/
theorem bind_kept {R : β → Prop} {S : β → γ → Engine → Prop} {f : β → ConsoleM γ}
    (hx : Ends P (fun b e => R b ∧ e = engine) x engine)
    (hf : ∀ b, R b → Ends P (S b) (f b) engine) :
    Ends P (fun c e => ∃ b, R b ∧ S b c e) (x >>= f) engine := by
  have hbind : Ends P (fun c e' => ∃ b e, (R b ∧ e = engine) ∧ S b c e') (x >>= f) engine := by
    refine hx.bind (S := fun b _ => S b) ?_
    rintro b _ ⟨hb, rfl⟩
    exact hf b hb
  exact hbind.congr fun c e' => exists_congr fun b => by simp

/-- Nothing is logged. -/
theorem log (part line : String) :
    Ends P (fun _ e => e = engine) (logLine part line) engine :=
  ⟨.ok (), engine, rfl, .ok (), fun b e => by simp⟩

/-- A line of the log changes nothing. -/
theorem log_bind {part line : String} (h : Ends P Q x engine) :
    Ends P Q (logLine part line >>= fun _ => x) engine := h

/-- A part that begins with looking at the console. -/
theorem get_bind {f : Console → ConsoleM β} (h : Ends P Q (f (quiet engine)) engine) :
    Ends P Q (get >>= f) engine := h

/-- An option that has to have a value. -/
theorem valueOf {value : Option String} (h : value = none → P .noValue) :
    Ends P (fun text e => value = some text ∧ e = engine) (CommandLine.valueOf value) engine := by
  cases value with
  | none => exact (throw (h rfl)).congr (by simp)
  | some text => exact (pure text).congr fun text' e => by simp [eq_comm]

/-- A part that begins with another engine. -/
theorem set_bind {f : PUnit → ConsoleM β} {engine' : Engine} (h : Ends P Q (f ⟨⟩) engine') :
    Ends P Q (set (quiet engine') >>= f) engine := h

/-- A part that does not look at the console. -/
theorem of {r : Except Failure β} (h : FailsOnly P r) :
    Ends P (fun b e => r = .ok b ∧ e = engine) (ExceptT.mk (Pure.pure r)) engine :=
  ⟨r, engine, rfl, h, fun _ _ => Iff.rfl⟩

/-- One part for each element of a list, all of them leaving the engine as it is. -/
theorem mapM {R : α → β → Prop} {f : α → ConsoleM β} {xs : List α}
    (h : ∀ a ∈ xs, Ends P (fun b e => R a b ∧ e = engine) (f a) engine) :
    Ends P (fun bs e => List.Forall₂ R xs bs ∧ e = engine) (xs.mapM f) engine := by
  induction xs with
  | nil => exact (pure []).congr fun bs e => by simp
  | cons a xs ih =>
    obtain ⟨ha, hxs⟩ := List.forall_mem_cons.1 h
    rw [List.mapM_cons]
    refine (ha.bind_kept fun b _ => (ih hxs).bind_kept fun bs _ => pure (b :: bs)).congr
      fun bs e => ?_
    rw [List.forall₂_cons_left_iff]
    constructor
    · rintro ⟨⟨b, bs', hb, hbs, rfl⟩, rfl⟩
      exact ⟨b, hb, bs', hbs, rfl, rfl⟩
    · rintro ⟨b, hb, bs', hbs, rfl, rfl⟩
      exact ⟨⟨b, bs', hb, hbs, rfl⟩, rfl⟩

/-- Optimizing, which fails with a failure that is a part of what it comes to. -/
theorem optimize [Scalar Float] {t : Expr Float}
    (h : ∀ e, ((Engine.optimize t).run engine).1.failure = some e → P e) :
    Ends P (fun t' e => ∃ count, (Engine.optimize t).run engine = (⟨t', count, none⟩, e))
      (CommandLine.optimize t) engine := by
  unfold CommandLine.optimize
  generalize Engine.optimize t = operation at h ⊢
  refine get_bind ?_
  rw [show (quiet engine).engine = engine from rfl]
  generalize operation.run engine = outcome at h ⊢
  obtain ⟨⟨t', count, failure⟩, engine'⟩ := outcome
  refine @set_bind _ _ _ _ _ engine' ?_
  cases failure with
  | some e => exact (throw (h e rfl)).congr fun t'' e' => ⟨by rintro ⟨_, ⟨⟩⟩, False.elim⟩
  | none =>
    refine (log_bind (log_bind (pure t'))).congr fun t'' e' => ?_
    constructor
    · rintro ⟨count', heq⟩
      cases heq
      exact ⟨rfl, rfl⟩
    · rintro ⟨rfl, rfl⟩
      exact ⟨count, rfl⟩

end Ends

end Formulary.CommandLine
