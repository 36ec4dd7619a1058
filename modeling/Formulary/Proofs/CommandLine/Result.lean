import Formulary.Proofs.Calculus.Failing
import Formulary.Proofs.CommandLine.Quiet
import Formulary.Proofs.CommandLine.Ready

/-!
# The result of a command line

What the result of a command line is, `Arguments.HasResult` says in terms of the operations of an
engine: the definitions are made, the bindings are read, the formula is read, derived or integrated,
and folded, and the tree is rendered or its value described. `ends_answer` is about the run that
looks for it: on a quiet console it comes to just this result, and if there is none, it `Fails`.

A run may fail in two ways that are not reported (`Arguments.Unreported`). An option without its
value is no error that there is a wording for where it is a definition or a binding. And where the
pending calls are limited, there may be no room for what is asked for.
-/

namespace Formulary

/-- Failures of these kinds can be told to the author of a formula. -/
theorem Failure.isReportable_of_kind {f : Failure} {kind : ErrorKind} (h : f.kind = kind)
    (hkind : kind.isCalculation = true ∨ kind ∈ [.parse, .invalidArgument, .derivative]) :
    f.isReportable = true := by
  unfold isReportable
  rw [h]
  cases kind <;> first | rfl | (rcases hkind with hkind | hkind <;> revert hkind <;> decide)

namespace CommandLine

open Formulary.Expr

/-! ## What a run is to come to -/

/-- The functions are defined one after the other. -/
def Defines : List (Option String) → Engine → Engine → Prop
  | [], engine, engine' => engine' = engine
  | value :: values, engine, engine'' => ∃ text d engine', value = some text ∧
      (Engine.define text).run.run engine = (.ok d, engine') ∧ Defines values engine' engine''

/-- The value of an option is a binding. -/
def Binds (format : NumberFormat) (value : Option String) (pair : String × Value Float) : Prop :=
  ∃ text, value = some text ∧ readBinding format text = .ok pair

namespace Arguments

variable (a : Arguments)

section

variable [Scalar Float]

/-- The tree is derived or integrated if the arguments ask for that. -/
def Transforms (engine : Engine) (t t' : Expr Float) (engine' : Engine) : Prop :=
  if a.derive ≠ "" then (Engine.derive t a.derive).run.run engine = (.ok t', engine')
  else if a.integrate ≠ "" then (Engine.integrate t a.integrate).run.run engine = (.ok t', engine')
  else t' = t ∧ engine' = engine

/-- The tree is folded if the arguments ask for that. -/
def Optimizes (engine : Engine) (t t' : Expr Float) (engine' : Engine) : Prop :=
  if a.optimize then ∃ count, (Engine.optimize t).run engine = (⟨t', count, none⟩, engine')
  else t' = t ∧ engine' = engine

/-- The line is the tree as text if the arguments ask for a tree, and else its value. -/
def Shows (bindings : Bindings Float) (engine : Engine) (t : Expr Float) (line : String)
    (engine' : Engine) : Prop :=
  if a.render ∨ a.derive ≠ "" ∨ a.integrate ≠ "" then
    (Engine.render t).run.run engine = (.ok line, engine')
  else ∃ v, (Engine.evaluate t bindings).run.run engine = (.ok v, engine') ∧
    line = v.describeWith engine.language.format

/-- The line is what the arguments ask an engine for. -/
def Answers (engine : Engine) (line : String) (engine' : Engine) : Prop :=
  ∃ defined pairs t t' engine₁ t'' engine₂, Defines a.definitions engine defined ∧
    List.Forall₂ (Binds defined.language.format) a.bindings pairs ∧
    defined.language.parse a.formula = .ok t ∧ a.Transforms defined t t' engine₁ ∧
    a.Optimizes engine₁ t' t'' engine₂ ∧ a.Shows (.ofList pairs) engine₂ t'' line engine'

/-- The line is the result that the arguments ask for. -/
def HasResult (evaluator : Evaluator Float) (line : String) : Prop :=
  (a.derive = "" ∨ a.integrate = "") ∧ ∃ format, numberFormat a.decimalSeparator = .ok format ∧
    ∃ engine, a.Answers { language := { format, maxPending := evaluator.maxPending }, evaluator }
      line engine

end

/-- What stands in the way of a result without being reported: an option without its value, and a
limit. -/
inductive Unreported (limit : CallLimit) : Failure → Prop where
  | noValue (h : none ∈ a.definitions ∨ none ∈ a.bindings) : Unreported limit .noValue
  | noRoom {failure : Failure} (hkind : failure.kind = .exhausted) (hlimit : limit ≠ none) :
      Unreported limit failure

/-- The ways in which a run may fail. -/
def Fails (limit : CallLimit) (failure : Failure) : Prop :=
  failure.isReportable = true ∨ a.Unreported limit failure

variable {a} {limit : CallLimit}

/-- An error of a formula is one that a run may end with. -/
theorem Fails.of_kind {failure : Failure} {kind : ErrorKind} (h : failure.kind = kind)
    (hkind : kind.isCalculation = true ∨ kind ∈ [.parse, .invalidArgument, .derivative]) :
    a.Fails limit failure := .inl (Failure.isReportable_of_kind h hkind)

/-- An error that there is a wording for, or one for want of room. -/
theorem Fails.of_kind_or {failure : Failure} {kind : ErrorKind}
    (h : failure.kind = kind ∨ failure.kind = .exhausted ∧ limit ≠ none)
    (hkind : kind.isCalculation = true ∨ kind ∈ [.parse, .invalidArgument, .derivative]) :
    a.Fails limit failure := by
  rcases h with h | ⟨hexhausted, hlimit⟩
  · exact .of_kind h hkind
  · exact .inr (.noRoom hexhausted hlimit)

end Arguments

/-! ## Parts of a run -/

variable {a : Arguments} {limit : CallLimit}

/-- A definition is made known, or the run ends with an error. -/
theorem ends_define (h : Ready limit engine) {value : Option String} (hvalue : value ∈ a.definitions) :
    Ends (a.Fails limit) (fun _ e => ∃ text d, value = some text ∧
      (Engine.define text).run.run engine = (.ok d, e)) (define value) engine := by
  have hdefine (text : String) :
      FailsOnly (a.Fails limit) ((Engine.define text).run.run engine).1 := fun e he =>
    .of_kind_or (h.failsOnly_define text e he) (.inr (by decide))
  unfold define
  refine ((Ends.valueOf fun hnone => .inr (.noValue (.inl (hnone ▸ hvalue)))).bind_kept
    fun text _ => (Ends.onEngine (hdefine text)).bind
      fun d e _ => Ends.log _ _).congr fun _ e => ?_
  constructor
  · rintro ⟨text, d, htext, hrun⟩
    exact ⟨text, htext, d, e, hrun, rfl⟩
  · rintro ⟨text, htext, d, _, hrun, rfl⟩
    exact ⟨text, d, htext, hrun⟩

/-- Definitions are made known in turn, or the run ends with an error. -/
theorem ends_definitions (h : Ready limit engine) {values : List (Option String)}
    (hvalues : ∀ value ∈ values, value ∈ a.definitions) :
    Ends (a.Fails limit) (fun _ e => Defines values engine e) (values.forM define) engine := by
  induction values generalizing engine with
  | nil => exact (Ends.pure ()).congr fun _ e => by simp [Defines]
  | cons value values ih =>
    obtain ⟨hvalue, hvalues⟩ := List.forall_mem_cons.1 hvalues
    show Ends (a.Fails limit) _ (define value >>= fun _ => values.forM define) engine
    refine ((ends_define h hvalue).bind (S := fun _ e _ => Defines values e) ?_).congr fun _ e => ?_
    · rintro _ e ⟨text, d, -, hdefine⟩
      exact ih (h.define hdefine) hvalues
    · constructor
      · rintro ⟨text, d, e', htext, hdefine, hdefines⟩
        exact ⟨(), e', ⟨text, d, htext, hdefine⟩, hdefines⟩
      · rintro ⟨-, e', ⟨text, d, htext, hdefine⟩, hdefines⟩
        exact ⟨text, d, e', htext, hdefine, hdefines⟩

/-- An engine that is ready stays so with more definitions. -/
theorem Defines.ready {values : List (Option String)} (h : Defines values engine engine')
    (hengine : Ready limit engine) : Ready limit engine' := by
  induction values generalizing engine with
  | nil => exact h ▸ hengine
  | cons value values ih =>
    obtain ⟨text, d, e, -, hdefine, hdefines⟩ := h
    exact ih hdefines (hengine.define hdefine)

/-- Every binding is read, or the run ends with an error. -/
theorem ends_bind (engine : Engine) :
    Ends (a.Fails limit) (fun bindings e => (∃ pairs,
      List.Forall₂ (Binds engine.language.format) a.bindings pairs ∧ bindings = .ofList pairs) ∧
        e = engine) (bind a.bindings) engine := by
  have hvalue (value : Option String) (hmem : value ∈ a.bindings) :
      Ends (a.Fails limit) (fun pair e => Binds engine.language.format value pair ∧ e = engine)
        (do
          let text ← valueOf value
          ExceptT.mk (pure ((readBinding engine.language.format text).mapError .binding)))
        engine := by
    refine ((Ends.valueOf fun hnone => .inr (.noValue (.inr (hnone ▸ hmem)))).bind_kept
      fun text _ => Ends.of (.mapError fun e he => ?_)).congr fun pair e => ?_
    · rcases failsOnly_readBinding _ _ e he with hkind | hkind
      · exact .of_kind hkind (.inr (by decide))
      · exact .of_kind hkind (.inr (by decide))
    · simp only [mapError_eq_ok, Binds]
      constructor
      · rintro ⟨⟨text, htext, hread⟩, rfl⟩
        exact ⟨text, htext, hread, rfl⟩
      · rintro ⟨text, htext, hread, rfl⟩
        exact ⟨⟨text, htext, hread⟩, rfl⟩
  unfold bind
  refine .get_bind (((Ends.mapM hvalue).bind_kept fun pairs _ => .pure _).congr fun bindings e => ?_)
  constructor
  · rintro ⟨⟨pairs, hpairs, rfl⟩, rfl⟩
    exact ⟨pairs, hpairs, rfl, rfl⟩
  · rintro ⟨pairs, hpairs, rfl, rfl⟩
    exact ⟨⟨pairs, hpairs, rfl⟩, rfl⟩

/-- The formula is read, or the run ends with an error. -/
theorem ends_parse (h : Ready limit engine) :
    Ends (a.Fails limit) (fun t e => engine.language.parse a.formula = .ok t ∧ e = engine)
      (onEngine (Engine.parse a.formula)) engine := by
  refine (Ends.onEngine ?_).congr fun t e => ?_
  · exact .mapError fun e he =>
      .of_kind_or (h.failsOnly_parse _ e he) (.inr (by decide))
  · rw [Engine.parse, Engine.run_reading, Prod.mk.injEq, mapError_eq_ok, eq_comm (a := e)]

section

variable [Scalar Float] [LawfulDivision Float] {t t' : Expr Float}

/-- The derivative or antiderivative that is asked for is made, or the run ends with an error. -/
theorem ends_transform (h : Ready limit engine) (ht : t.WellFormed) :
    Ends (a.Fails limit) (fun t' e => a.Transforms engine t t' e) (transform a t) engine := by
  have hderive : FailsOnly (a.Fails limit) ((Engine.derive t a.derive).run.run engine).1 :=
    fun e he => .of_kind_or (h.evaluating ▸ Engine.failsOnly_derive engine ht a.derive e he)
      (.inr (by decide))
  have hintegrate :
      FailsOnly (a.Fails limit) ((Engine.integrate t a.integrate).run.run engine).1 :=
    fun e he => .of_kind_or (h.evaluating ▸ Engine.failsOnly_integrate engine ht a.integrate e he)
      (.inr (by decide))
  unfold transform
  by_cases hx : a.derive = ""
  · by_cases hy : a.integrate = ""
    · simpa [Arguments.Transforms, hx, hy] using Ends.pure t
    · simpa [Arguments.Transforms, hx, hy] using Ends.log_bind (Ends.onEngine hintegrate)
  · simpa [Arguments.Transforms, hx] using Ends.log_bind (Ends.onEngine hderive)

omit [LawfulDivision Float] in
/-- What is made of a well-formed tree is well-formed. -/
theorem Arguments.Transforms.sound (h : a.Transforms engine t t' engine') (ht : t.WellFormed) :
    t'.WellFormed ∧ ∃ drawn, engine' = { engine with drawn } := by
  unfold Transforms at h
  split at h
  · exact Engine.of_run_derive_eq_ok ht h
  · split at h
    · obtain ⟨ht', rfl⟩ := Engine.of_run_integrate_eq_ok ht h
      exact ⟨ht', engine'.drawn, rfl⟩
    · obtain ⟨rfl, rfl⟩ := h
      exact ⟨ht, engine'.drawn, rfl⟩

/-- The tree is optimized if that is asked for, or the run ends with an error. -/
theorem ends_optimize (h : Ready limit engine) (ht : t.WellFormed) :
    Ends (a.Fails limit) (fun t' e => a.Optimizes engine t t' e)
      (if a.optimize then optimize t else pure t) engine := by
  have hoptimize (failure : Failure)
      (hfailure : ((Engine.optimize t).run engine).1.failure = some failure) :
      a.Fails limit failure := by
    rcases Engine.run_optimize_cases engine ht with
      ⟨hexhausted, hrun⟩ | ⟨folding, hrun, htree, -, hblames⟩
    · rw [hrun] at hfailure
      cases hfailure
      exact .inr (.noRoom rfl (h.evaluating ▸ CallLimit.ne_none_of_isExceeded hexhausted))
    · rw [hrun] at hfailure
      obtain ⟨err, herr, rfl⟩ := Option.map_eq_some_iff.1 hfailure
      obtain ⟨level, n, hn⟩ := hblames err herr
      exact .of_kind rfl (.inl (hn.calculationFails ht htree).1)
  by_cases ho : a.optimize = true
  · simpa [Arguments.Optimizes, ho] using Ends.optimize hoptimize
  · simpa [Arguments.Optimizes, ho] using Ends.pure t

omit [LawfulDivision Float] in
/-- Folding leaves a well-formed tree, and the engine as it is. -/
theorem Arguments.Optimizes.sound (h : a.Optimizes engine t t' engine') (ht : t.WellFormed) :
    t'.WellFormed ∧ engine' = engine := by
  unfold Optimizes at h
  split at h
  · obtain ⟨count, hrun⟩ := h
    rcases Engine.run_optimize_cases engine ht with ⟨-, hrun'⟩ | ⟨folding, hrun', htree, -, -⟩
    · rw [hrun] at hrun'
      cases hrun'
    · obtain ⟨hresult, rfl⟩ := Prod.mk.inj (hrun.symm.trans hrun')
      obtain rfl : t' = folding.tree := congrArg Optimization.tree hresult
      exact ⟨htree, rfl⟩
  · obtain ⟨rfl, rfl⟩ := h
    exact ⟨ht, rfl⟩

omit [Scalar Float] [LawfulDivision Float] in
/-- Any value can be displayed. -/
theorem Ready.run_describe (h : Ready limit engine) (v : Value Float) :
    (Engine.describe v).run.run engine = (.ok (v.describeWith engine.language.format), engine) := by
  rw [Engine.describe, Engine.run_get_bind, h.describeWith?_eq]
  rfl

/-- A well-formed tree has a value, or there is a calculation error. -/
theorem run_evaluate_cases (engine : Engine) (ht : t.WellFormed) (bindings : Bindings Float) :
    (∃ v drawn, (Engine.evaluate t bindings).run.run engine = (.ok v, { engine with drawn })) ∨
      ∃ e drawn, (Engine.evaluate t bindings).run.run engine =
        (.error (.evaluation e), { engine with drawn }) ∧ e.kind.isCalculation = true := by
  let x := engine.evaluator.evaluate (.ofBindings bindings) t
  have hrun : (Engine.evaluate t bindings).run.run engine =
      ((x.outcome engine.drawn).1.mapError .evaluation,
        { engine with drawn := (x.outcome engine.drawn).2 }) := rfl
  have hproper : Proper (x.outcome engine.drawn).1 :=
    ht.proper_evalAt engine.evaluator (.ofBindings bindings) 2 engine.drawn
  rcases houtcome : x.outcome engine.drawn with ⟨e | v, drawn⟩
  · rw [houtcome] at hrun hproper
    exact .inr ⟨e, drawn, hrun, EvalError.isCalculation_kind (hproper e rfl)⟩
  · rw [houtcome] at hrun
    exact .inl ⟨v, drawn, hrun⟩

/-- There is a value, which can be displayed, or a calculation error. -/
theorem ends_evaluate (h : Ready limit engine) (ht : t.WellFormed) (bindings : Bindings Float) :
    Ends (a.Fails limit) (fun line e => ∃ v, (Engine.evaluate t bindings).run.run engine = (.ok v, e) ∧
      line = v.describeWith engine.language.format)
      (onEngine do Engine.describe (← Engine.evaluate t bindings)) engine := by
  rcases run_evaluate_cases engine ht bindings with
    ⟨v, drawn, hrun⟩ | ⟨e, drawn, hrun, hkind⟩
  · have hdescribe : (Engine.describe v).run.run { engine with drawn } =
        (.ok (v.describeWith engine.language.format), { engine with drawn }) :=
      (h.drawn drawn).run_describe v
    refine (Ends.onEngine ?_).congr fun line e => ?_
    · rw [Engine.run_bind, hrun]
      dsimp only
      rw [hdescribe]
      exact .ok _
    · rw [Engine.run_bind, hrun]
      dsimp only
      rw [hdescribe]
      constructor
      · rintro ⟨v', heq, rfl⟩
        cases heq
        rfl
      · intro heq
        cases heq
        exact ⟨v, rfl, rfl⟩
  · refine (Ends.onEngine ?_).congr fun line e' => ?_
    · rw [Engine.run_bind, hrun]
      exact .error (.of_kind rfl (.inl hkind))
    · rw [Engine.run_bind, hrun]
      exact ⟨by rintro ⟨v, ⟨⟩, -⟩, by rintro ⟨⟩⟩

omit [Scalar Float] [LawfulDivision Float] in
/-- The tree is rendered, or there is no room for it. -/
theorem ends_render (h : Ready limit engine) (t : Expr Float) :
    Ends (a.Fails limit) (fun line e => (Engine.render t).run.run engine = (.ok line, e))
      (onEngine (Engine.render t)) engine := by
  refine Ends.onEngine fun e he => ?_
  rw [Engine.run_render] at he
  split at he
  · next hexhausted =>
    cases he
    exact .inr (.noRoom rfl (h.evaluating ▸ CallLimit.ne_none_of_isExceeded hexhausted))
  · cases he

/-- The line that is asked for is made, or the run ends with an error. -/
theorem ends_show (h : Ready limit engine) (ht : t.WellFormed) (bindings : Bindings Float) :
    Ends (a.Fails limit) (fun line e => a.Shows bindings engine t line e)
      (if a.render || !a.derive.isEmpty || !a.integrate.isEmpty then onEngine (Engine.render t)
        else onEngine do Engine.describe (← Engine.evaluate t bindings)) engine := by
  by_cases htext : a.render = true ∨ a.derive ≠ "" ∨ a.integrate ≠ ""
  · have hcheck : (a.render || !a.derive.isEmpty || !a.integrate.isEmpty) = true := by
      simpa [or_assoc] using htext
    rw [if_pos hcheck]
    simpa only [Arguments.Shows, if_pos htext] using ends_render h t
  · have hcheck : ¬ (a.render || !a.derive.isEmpty || !a.integrate.isEmpty) = true := by
      simpa [or_assoc] using htext
    rw [if_neg hcheck]
    simpa only [Arguments.Shows, if_neg htext] using ends_evaluate h ht bindings

/-- What is made of a formula, and shown. -/
theorem ends_made (h : Ready limit engine) (ht : t.WellFormed) (bindings : Bindings Float) :
    Ends (a.Fails limit) (fun line e => ∃ t' engine₁, a.Transforms engine t t' engine₁ ∧
      ∃ t'' engine₂, a.Optimizes engine₁ t' t'' engine₂ ∧ a.Shows bindings engine₂ t'' line e)
      (do
        let t ← transform a t
        let t ← (if a.optimize then optimize t else pure t)
        if a.render || !a.derive.isEmpty || !a.integrate.isEmpty then onEngine (Engine.render t)
        else onEngine do Engine.describe (← Engine.evaluate t bindings)) engine := by
  refine (ends_transform h ht).bind fun t' engine₁ htransforms => ?_
  obtain ⟨ht', drawn, rfl⟩ := htransforms.sound ht
  have hready := h.drawn drawn
  refine (ends_optimize hready ht').bind fun t'' engine₂ hoptimizes => ?_
  obtain ⟨ht'', rfl⟩ := hoptimizes.sound ht'
  exact ends_show hready ht'' bindings

/-- The only line of a run is made, or the run ends with an error. -/
theorem ends_answer (h : Ready limit engine) :
    Ends (a.Fails limit) (fun line e => a.Answers engine line e) (answer a) engine := by
  have hread : Ends (a.Fails limit) (fun line e => ∃ (_ : PUnit) (defined : Engine),
      Defines a.definitions engine defined ∧ ∃ bindings, (∃ pairs,
        List.Forall₂ (Binds defined.language.format) a.bindings pairs ∧
          bindings = .ofList pairs) ∧
        ∃ t, defined.language.parse a.formula = .ok t ∧
          ∃ t' engine₁, a.Transforms defined t t' engine₁ ∧
            ∃ t'' engine₂, a.Optimizes engine₁ t' t'' engine₂ ∧
              a.Shows bindings engine₂ t'' line e) (answer a) engine := by
    refine (ends_definitions h fun _ => id).bind fun _ defined hdefines => ?_
    have hready := hdefines.ready h
    refine (ends_bind defined).bind_kept fun bindings _ => ?_
    refine (ends_parse hready).bind_kept fun t hparse => ?_
    have ht : t.WellFormed := Language.wellFormed_of_parse hready.registry.wellFormed hparse
    have hmade := ends_made (a := a) hready ht bindings
    by_cases hoptimize : a.optimize = true
    · simp only [if_pos hoptimize] at hmade ⊢
      exact hmade
    · simp only [if_neg hoptimize] at hmade ⊢
      exact hmade
  refine hread.congr fun line e => ?_
  constructor
  · rintro ⟨defined, pairs, t, t', engine₁, t'', engine₂, hdefines, hbinds, hparse, htransforms,
      hoptimizes, hshows⟩
    exact ⟨⟨⟩, defined, hdefines, _, ⟨pairs, hbinds, rfl⟩, t, hparse, t', engine₁, htransforms,
      t'', engine₂, hoptimizes, hshows⟩
  · rintro ⟨-, defined, hdefines, _, ⟨pairs, hbinds, rfl⟩, t, hparse, t', engine₁, htransforms,
      t'', engine₂, hoptimizes, hshows⟩
    exact ⟨defined, pairs, t, t', engine₁, t'', engine₂, hdefines, hbinds, hparse, htransforms,
      hoptimizes, hshows⟩

end

end CommandLine

end Formulary
