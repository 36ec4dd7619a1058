import Formulary.Engine
import Formulary.Proofs.Syntax.Rules
import Formulary.Proofs.Syntax.Spelling
import Mathlib.Data.List.Nodup
import Mathlib.Logic.Relation

/-!
# The functions of an engine

An engine is asked to read definitions, to register them, or to do both at once. Whatever is asked
of it, and in whatever order, its registry is `Ordered`: names and parameters differ, bodies need no
binding but their parameters, and every call in a body has the arity of a function that was
registered before. So functions never come back to themselves.

The invariant is about the definitions that were handed out as well, because these may be registered
later: their callees are registered, and stay so as the registry only grows.
-/

open Relation Formulary.Grammar

namespace Formulary

/-! ## Registries -/

namespace Registry

/-- The body of the function with the first name calls one with the second name somewhere. -/
def Calls (r : Registry) (name name' : String) : Prop :=
  ∃ d ∈ r.definitions, d.name = name ∧
    ∃ callee args, .apply callee args ∈ d.body.nodes ∧ callee.name = name'

/-- The registered functions build upon each other, from the first one on. -/
structure Ordered (r : Registry) : Prop where
  names_nodup : r.names.Nodup
  params_nodup : ∀ d ∈ r.definitions, d.params.Nodup
  closed : ∀ d ∈ r.definitions, ∀ name ∈ d.body.freeVars, name ∈ d.params
  calls : ∀ (i : Nat) (d : Definition (Expr Float)), r.definitions[i]? = some d →
    ∀ callee args, .apply callee args ∈ d.body.nodes →
      args.length = callee.arity ∧ callee ∈ r.definitions.take i

/-- The definition can be registered, if its name is not taken. -/
structure Fits (r : Registry) (d : Definition (Expr Float)) : Prop where
  params_nodup : d.params.Nodup
  closed : ∀ name ∈ d.body.freeVars, name ∈ d.params
  follows : d.body.Follows { callee := fun callee => callee ∈ r.definitions }

variable {r r' : Registry} {d : Definition (Expr Float)}

/-- A definition that fits the first functions of a registry fits them all. -/
theorem Fits.mono (h : r.Fits d) (hr : r.definitions <+: r'.definitions) : r'.Fits d where
  params_nodup := h.params_nodup
  closed := h.closed
  follows := h.follows.mono (fun _ => id) (fun _ => id) fun _ hcallee => hr.mem hcallee

/-- No functions are in order. -/
theorem ordered_empty : Ordered {} where
  names_nodup := .nil
  params_nodup := by simp
  closed := by simp
  calls := by simp

/-- Registering a definition that fits, under a new name, keeps the order. -/
theorem Ordered.push (h : r.Ordered) (hd : r.Fits d) (hname : d.name ∉ r.names) :
    (r.push d).Ordered where
  names_nodup := by
    have hnames : (r.push d).names = r.names ++ [d.name] := by simp [names, Registry.push]
    rw [hnames]
    refine List.nodup_append.2 ⟨h.names_nodup, List.nodup_singleton _, ?_⟩
    rintro name hmem _ hnew rfl
    exact hname (List.mem_singleton.1 hnew ▸ hmem)
  params_nodup := by
    intro d' hd'
    rcases List.mem_append.1 hd' with hold | hnew
    · exact h.params_nodup d' hold
    · exact List.mem_singleton.1 hnew ▸ hd.params_nodup
  closed := by
    intro d' hd'
    rcases List.mem_append.1 hd' with hold | hnew
    · exact h.closed d' hold
    · exact List.mem_singleton.1 hnew ▸ hd.closed
  calls := by
    intro i d' hi callee args hcall
    rw [Registry.push] at hi ⊢
    rcases Nat.lt_or_ge i r.definitions.length with hlt | hge
    · -- the functions before an old one are those that were before it
      rw [List.getElem?_append_left hlt] at hi
      rw [List.take_append_of_le_length hlt.le]
      exact h.calls i d' hi callee args hcall
    · -- all of the old functions are before the new one
      rw [List.getElem?_append_right hge, List.getElem?_singleton] at hi
      split at hi
      · obtain rfl : i = r.definitions.length := by omega
        cases hi
        rw [List.take_left]
        cases hd.follows.of_mem_nodes hcall with
        | apply hcallee harity _ => exact ⟨harity, hcallee⟩
      · cases hi

/-- A call leads from a name to one that was registered before. -/
theorem Ordered.idxOf_lt (h : r.Ordered) {name name' : String} (hcall : r.Calls name name') :
    r.names.idxOf name' < r.names.idxOf name := by
  obtain ⟨d, hd, rfl, callee, args, hnode, rfl⟩ := hcall
  obtain ⟨i, hi, rfl⟩ := List.mem_iff_getElem.1 hd
  have hcallee := (h.calls i _ (List.getElem?_eq_getElem hi) callee args hnode).2
  obtain ⟨j, hj, rfl⟩ := List.mem_take_iff_getElem.1 hcallee
  -- as names differ, a function's index is that of its name
  have hidx : ∀ (k : Nat) (hk : k < r.definitions.length),
      r.names.idxOf r.definitions[k].name = k := by
    intro k hk
    have hk' : k < r.names.length := by simpa [names] using hk
    have hget : r.definitions[k].name = r.names[k] := by simp [names]
    rw [hget, h.names_nodup.idxOf_getElem k hk']
  rw [hidx i hi, hidx j (by omega)]
  omega

/-- No function of an ordered registry calls itself, directly or through others. -/
theorem Ordered.not_calls_self (h : r.Ordered) (name : String) : ¬ TransGen r.Calls name name := by
  have hlt : ∀ {name name'}, TransGen r.Calls name name' →
      r.names.idxOf name' < r.names.idxOf name := by
    intro name name' hcalls
    induction hcalls with
    | single hcall => exact h.idxOf_lt hcall
    | tail _ hcall ih => exact (h.idxOf_lt hcall).trans ih
  exact fun hself => (hlt hself).false

end Registry

/-! ## Operations of an engine -/

namespace Engine

variable {β γ : Type}

theorem run_reading {ε : Type} (wrap : ε → Failure) (f : Engine → Except ε β) (engine : Engine) :
    (reading wrap f).run.run engine = ((f engine).mapError wrap, engine) := rfl

/-- An engine reads what its language reads. -/
theorem run_parse_eq_ok {text : String} {engine : Engine} {t : Expr Float} :
    (parse text).run.run engine = (.ok t, engine) ↔ engine.language.parse text = .ok t := by
  rw [parse, run_reading]
  cases engine.language.parse text with
  | error e => exact ⟨nofun, nofun⟩
  | ok t' =>
    constructor <;> rintro ⟨⟩
    · rfl
    · rfl

/-- A second operation follows a result, on the engine that the first one has left. -/
theorem run_bind (x : EngineM β) (f : β → EngineM γ) (engine : Engine) :
    (x >>= f).run.run engine =
      match x.run.run engine with
      | (.ok b, engine) => (f b).run.run engine
      | (.error e, engine) => (.error e, engine) := by
  show (ExceptT.bindCont f (x.run.run engine).1 : StateM Engine _) (x.run.run engine).2 = _
  rcases x.run.run engine with ⟨_ | _, m⟩ <;> rfl

theorem run_register (d : Definition (Expr Float)) (engine : Engine) :
    (register d).run.run engine =
      match engine.language.register d with
      | .ok language => (.ok (), { engine with language })
      | .error e => (.error (.parse e), engine) := by
  rw [register, run_bind, run_reading]
  cases engine.language.register d <;> rfl

/-- An operation that begins with looking at the engine. -/
theorem run_get_bind (f : Engine → EngineM β) (engine : Engine) :
    ((get : EngineM Engine) >>= f).run.run engine = (f engine).run.run engine := rfl

/-- A tree is rendered if there is room for that. -/
theorem run_render (t : Expr Float) (engine : Engine) :
    (render t).run.run engine =
      if engine.isExhausted (1 + t.renderCalls) then (.error .exhausted, engine)
      else (.ok (t.render engine.language.format), engine) := by
  rw [render, within, run_get_bind]
  split <;> rfl

/-- To define a function is to read it and to register it. -/
theorem run_define (text : String) (engine : Engine) :
    (define text).run.run engine =
      match engine.language.parseDefinition text with
      | .ok d =>
        match engine.language.register d with
        | .ok language => (.ok d, { engine with language })
        | .error e => (.error (.parse e), engine)
      | .error e => (.error (.parse e), engine) := by
  rw [define, run_bind, parseDefinition, run_reading]
  cases engine.language.parseDefinition text with
  | error e => rfl
  | ok d =>
    dsimp only [Except.mapError]
    rw [run_bind, run_register]
    cases engine.language.register d <;> rfl

/-- A function is defined if it is read and can be registered. -/
theorem run_define_eq_ok {text : String} {engine engine' : Engine} {d : Definition (Expr Float)}
    (h : (define text).run.run engine = (.ok d, engine')) :
    ∃ language, engine.language.parseDefinition text = .ok d ∧
      engine.language.register d = .ok language ∧ engine' = { engine with language } := by
  rw [run_define] at h
  split at h
  · next d' hread =>
    split at h
    · next language hregister =>
      cases h
      exact ⟨language, hread, hregister, rfl⟩
    · cases h
  · cases h

end Engine

/-! ## A call of a function -/

namespace Language

section

variable (param : String) (body : Expr Float) (bodyText : String)

/-- A call of the only function that there is. -/
theorem parse_call :
    let f : Definition (Expr Float) := ⟨"f", [param], body, bodyText⟩
    ({ registry := ⟨[f]⟩, maxPending := none } : Language).parse "f(y)" =
      .ok (.apply f [.var "y"]) := by
  intro f
  let lang : Language := { registry := ⟨[f]⟩, maxPending := none }
  have hnone : lang.registry.lookup? ['y'] = none := by simp [lang, f, Registry.lookup?]
  have hy : Atom lang ['y'] (.var "y") :=
    .variable ⟨not_wrapped_of_head (by decide), by decide, by decide, hnone⟩ rfl (by decide)
  have hclear : Clear lang.format.argument ['y'] :=
    .of_forall (show ∀ c ∈ ['y'], Bracket.isBracket c = false ∧ c ∉ [','] by decide)
  have hcall : Atom lang "f(y)".toList (.apply f [.var "y"]) :=
    atom_iff.2 (.apply_only rfl rfl rfl hclear (formula_iff.1 (.of_atom (by decide) hy)))
  have hdepth : ((Text.compact "f(y)".toList).length : Int) ≤ lang.maxDepth :=
    show ((Text.compact "f(y)".toList).length : Int) ≤ ({} : Language).maxDepth by decide
  exact parse_of_formula NumberFormat.hasPlainMarks_standard rfl hdepth (.of_atom (by decide) hcall)

/-- A function that is defined by a call of the only one that there is. -/
theorem parseDefinition_call :
    let f : Definition (Expr Float) := ⟨"f", [param], body, bodyText⟩
    ({ registry := ⟨[f]⟩, maxPending := none } : Language).parseDefinition "g(y) = f(y)" =
      .ok ⟨"g", ["y"], .apply f [.var "y"], "f(y)"⟩ :=
  @parseDefinition_of_parse _ _ ['g'] ['y'] _ [['y']] _ rfl (Syntax.isReserved_letter (by decide)) rfl
    (by simp [Syntax.isName, Syntax.isLowercase, Syntax.isReserved_letter]) (by decide) rfl
    (parse_call param body bodyText) (Syntax.isExhausted_of_none rfl _)
    (by simp [Expr.freeVars, Expr.freeVarsOfAll])

end

end Language

/-! ## What an engine is asked for -/

/-- A request that has to do with the functions of an engine. -/
inductive Request where
  | define (text : String)
  | parseDefinition (text : String)
  | register (d : Definition (Expr Float))

namespace Request

/-- What the engine does on request. The result is the definition that is handed out, if one is. -/
def perform : Request → EngineM (Option (Definition (Expr Float)))
  | define text => some <$> Engine.define text
  | parseDefinition text => some <$> Engine.parseDefinition text
  | register d => do
    Engine.register d
    return none

/-- Only definitions that were handed out are registered. -/
def Allowed (returned : List (Definition (Expr Float))) : Request → Prop
  | register d => d ∈ returned
  | _ => True

/-- What a request can come to: a result, and the engine afterwards. -/
inductive Outcome (engine : Engine) :
    Request → Except Failure (Option (Definition (Expr Float))) × Engine → Prop where
  | failed {request : Request} (e : Failure) : Outcome engine request (.error e, engine)
  | read {text : String} {d : Definition (Expr Float)}
      (hread : engine.language.parseDefinition text = .ok d) :
      Outcome engine (.parseDefinition text) (.ok (some d), engine)
  | registered {d : Definition (Expr Float)} {language : Language}
      (hregister : engine.language.register d = .ok language) :
      Outcome engine (.register d) (.ok none, { engine with language })
  | defined {text : String} {d : Definition (Expr Float)} {language : Language}
      (hread : engine.language.parseDefinition text = .ok d)
      (hregister : engine.language.register d = .ok language) :
      Outcome engine (.define text) (.ok (some d), { engine with language })

theorem run_parseDefinition (text : String) (engine : Engine) :
    (perform (.parseDefinition text)).run.run engine =
      match engine.language.parseDefinition text with
      | .ok d => (.ok (some d), engine)
      | .error e => (.error (.parse e), engine) := by
  rw [perform, ← bind_pure_comp, Engine.run_bind, Engine.parseDefinition, Engine.run_reading]
  cases engine.language.parseDefinition text <;> rfl

theorem run_register (d : Definition (Expr Float)) (engine : Engine) :
    (perform (.register d)).run.run engine =
      match engine.language.register d with
      | .ok language => (.ok none, { engine with language })
      | .error e => (.error (.parse e), engine) := by
  rw [perform, Engine.run_bind, Engine.run_register]
  cases engine.language.register d <;> rfl

theorem run_define (text : String) (engine : Engine) :
    (perform (.define text)).run.run engine =
      match engine.language.parseDefinition text with
      | .ok d =>
        match engine.language.register d with
        | .ok language => (.ok (some d), { engine with language })
        | .error e => (.error (.parse e), engine)
      | .error e => (.error (.parse e), engine) := by
  rw [perform, ← bind_pure_comp, Engine.run_bind, Engine.run_define]
  cases engine.language.parseDefinition text with
  | error e => rfl
  | ok d =>
    dsimp only
    cases engine.language.register d <;> rfl

/-- What a request comes to is one of its outcomes. -/
theorem outcome (request : Request) (engine : Engine) :
    Outcome engine request (request.perform.run.run engine) := by
  cases request with
  | parseDefinition text =>
    rw [run_parseDefinition]
    cases hread : engine.language.parseDefinition text with
    | error e => exact .failed _
    | ok d => exact .read hread
  | register d =>
    rw [run_register]
    cases hregister : engine.language.register d with
    | error e => exact .failed _
    | ok language => exact .registered hregister
  | define text =>
    rw [run_define]
    cases hread : engine.language.parseDefinition text with
    | error e => exact .failed _
    | ok d =>
      dsimp only
      cases hregister : engine.language.register d with
      | error e => exact .failed _
      | ok language => exact .defined hread hregister

/-- A failing request leaves the engine as it is. -/
theorem engine_eq_of_error {request : Request} {engine engine' : Engine} {e : Failure}
    (hrun : request.perform.run.run engine = (.error e, engine')) : engine' = engine := by
  have houtcome := request.outcome engine
  rw [hrun] at houtcome
  cases houtcome
  rfl

end Request

/-! ## Histories -/

/-- What has come of an engine: its state, and the definitions that it has handed out. -/
structure History where
  engine : Engine
  returned : List (Definition (Expr Float)) := []

namespace History

/-- The functions that are registered. -/
def registry (h : History) : Registry := h.engine.language.registry

/-- One request, whether it succeeds or fails. -/
inductive Step : History → History → Prop where
  | success {h : History} {request : Request} {d? : Option (Definition (Expr Float))}
      {engine : Engine} (hallowed : request.Allowed h.returned)
      (hrun : request.perform.run.run h.engine = (.ok d?, engine)) :
      Step h ⟨engine, h.returned ++ d?.toList⟩
  | failure {h : History} {request : Request} {e : Failure} {engine : Engine}
      (hallowed : request.Allowed h.returned)
      (hrun : request.perform.run.run h.engine = (.error e, engine)) :
      Step h ⟨engine, h.returned⟩

/-- The registry is ordered, and what was handed out can be registered. -/
structure Sound (h : History) : Prop where
  ordered : h.registry.Ordered
  fits : ∀ d ∈ h.returned, h.registry.Fits d

variable {h h' : History}

/-- A definition that is read fits the registry that it was read with. -/
theorem fits_of_parseDefinition {lang : Language} {text : String} {d : Definition (Expr Float)}
    (hd : lang.parseDefinition text = .ok d) : lang.registry.Fits d := by
  obtain ⟨-, hparams, hclosed, hbody⟩ := Language.parseDefinition_eq_ok hd
  exact ⟨hparams, hclosed, Language.follows_of_parse hbody⟩

/-- What a step does: the registry stays, or gets one more definition that fits and has a new name,
and whatever is handed out fits. -/
theorem Step.effect (hstep : Step h h') (hsound : h.Sound) :
    (h'.registry = h.registry ∨ ∃ d, h.registry.Fits d ∧ d.name ∉ h.registry.names ∧
      h'.registry = h.registry.push d) ∧ ∀ d ∈ h'.returned, h.registry.Fits d := by
  have hregistered : ∀ {d : Definition (Expr Float)} {language : Language},
      h.engine.language.register d = .ok language → h.registry.Fits d →
        ∃ d, h.registry.Fits d ∧ d.name ∉ h.registry.names ∧
          language.registry = h.registry.push d := by
    intro d language hregister hd
    obtain ⟨hname, rfl⟩ := Language.register_eq_ok hregister
    exact ⟨d, hd, hname, rfl⟩
  have hreturned : ∀ {d : Definition (Expr Float)}, h.registry.Fits d →
      ∀ d' ∈ h.returned ++ [d], h.registry.Fits d' := fun hd d' hd' =>
    (List.mem_append.1 hd').elim (hsound.fits d') fun hnew => List.mem_singleton.1 hnew ▸ hd
  cases hstep with
  | @success request d? engine hallowed hrun =>
    have houtcome := request.outcome h.engine
    rw [hrun] at houtcome
    cases houtcome with
    | read hread => exact ⟨.inl rfl, hreturned (fits_of_parseDefinition hread)⟩
    | registered hregister =>
      exact ⟨.inr (hregistered hregister (hsound.fits _ hallowed)), by simpa using hsound.fits⟩
    | defined hread hregister =>
      have hd := fits_of_parseDefinition hread
      exact ⟨.inr (hregistered hregister hd), hreturned hd⟩
  | failure _ hrun =>
    obtain rfl := Request.engine_eq_of_error hrun
    exact ⟨.inl rfl, hsound.fits⟩

/-- Registered functions stay where they are. -/
theorem Step.isPrefix (hstep : Step h h') (hsound : h.Sound) :
    h.registry.definitions <+: h'.registry.definitions := by
  obtain ⟨hsame | ⟨d, -, -, hpush⟩, -⟩ := hstep.effect hsound
  · exact hsame ▸ List.prefix_rfl
  · exact hpush ▸ List.prefix_append _ _

/-- A step keeps a history sound. -/
theorem Step.sound (hstep : Step h h') (hsound : h.Sound) : h'.Sound := by
  have hprefix := hstep.isPrefix hsound
  obtain ⟨hregistry, hreturned⟩ := hstep.effect hsound
  refine ⟨?_, fun d hd => (hreturned d hd).mono hprefix⟩
  rcases hregistry with hsame | ⟨d, hd, hname, hpush⟩
  · exact hsame ▸ hsound.ordered
  · exact hpush ▸ hsound.ordered.push hd hname

/-- Whatever comes of a sound history is sound, and its registry is that history's with more
functions behind it. -/
theorem Sound.of_steps (hsound : h.Sound) (hsteps : ReflTransGen Step h h') :
    h'.Sound ∧ h.registry.definitions <+: h'.registry.definitions := by
  induction hsteps with
  | refl => exact ⟨hsound, List.prefix_rfl⟩
  | tail _ hstep ih => exact ⟨hstep.sound ih.1, ih.2.trans (hstep.isPrefix ih.1)⟩

/-- Whatever is asked of an engine without functions, at every point its registry is ordered and no
function calls itself; later registries extend it, and a request that fails leaves the engine as it
is. -/
theorem ordered_of_steps (engine : Engine) (hnone : engine.language.registry = {}) (h : History)
    (hsteps : ReflTransGen Step ⟨engine, []⟩ h) :
    h.registry.Ordered ∧ (∀ name, ¬ TransGen h.registry.Calls name name) ∧
      (∀ h', ReflTransGen Step h h' → h.registry.definitions <+: h'.registry.definitions) ∧
      ∀ (request : Request) (e : Failure) (engine' : Engine),
        request.perform.run.run h.engine = (.error e, engine') → engine' = h.engine := by
  have hstart : Sound ⟨engine, []⟩ := by
    refine ⟨?_, by simp⟩
    rw [registry, hnone]
    exact Registry.ordered_empty
  have hsound := (hstart.of_steps hsteps).1
  exact ⟨hsound.ordered, hsound.ordered.not_calls_self, fun h' hlater => (hsound.of_steps hlater).2,
    fun request e engine' => request.engine_eq_of_error⟩

/-- A function that is read and registered, and another one that is defined with a call of it. -/
theorem ordered_of_steps_power :
    let power : Definition (Expr Float) := ⟨"f", ["x"], .binary .pow (.var "x") (.var "x"), "x^x"⟩
    let tower : Definition (Expr Float) := ⟨"g", ["y"], .apply power [.var "y"], "f(y)"⟩
    let engine (r : Registry) : Engine :=
      { language := { registry := r, maxPending := none }, evaluator := { draw := fun _ => 0.5 } }
    let h : History := ⟨engine ⟨[power, tower]⟩, [power, tower]⟩
    ReflTransGen Step ⟨engine {}, []⟩ h ∧
      h.registry.Ordered ∧ (∀ name, ¬ TransGen h.registry.Calls name name) ∧
      (∀ h', ReflTransGen Step h h' → h.registry.definitions <+: h'.registry.definitions) ∧
      ∀ (request : Request) (e : Failure) (engine' : Engine),
        request.perform.run.run h.engine = (.error e, engine') → engine' = h.engine := by
  intro power tower engine h
  have hpower : (engine {}).language.parseDefinition "f(x) = x^x" = .ok power := by
    have hx : Atom (engine {}).language ['x'] (.var "x") :=
      .variable ⟨not_wrapped_of_head (by decide), by decide, by decide, by decide⟩ rfl (by decide)
    have hbody : (engine {}).language.parse "x^x" = .ok power.body :=
      Language.parse_of_formula NumberFormat.hasPlainMarks_standard rfl (by decide)
        (.mk (.part (.part (by decide) (.part (.part (.join .pow rfl (.part hx) hx))))))
    exact @Language.parseDefinition_of_parse _ _ ['f'] ['x'] _ [['x']] _ rfl
      (Syntax.isReserved_letter (by decide)) rfl
      (by simp [Syntax.isName, Syntax.isLowercase, Syntax.isReserved_letter]) (by decide) rfl hbody
      (Syntax.isExhausted_of_none rfl _) (by decide)
  have htower : (engine ⟨[power]⟩).language.parseDefinition "g(y) = f(y)" = .ok tower :=
    Language.parseDefinition_call "x" power.body power.bodyText
  have hread : Step ⟨engine {}, []⟩ ⟨engine {}, [power]⟩ := by
    refine @Step.success ⟨engine {}, []⟩ (.parseDefinition "f(x) = x^x") (some power) _ trivial ?_
    rw [Request.run_parseDefinition, hpower]
  have hregister : Step ⟨engine {}, [power]⟩ ⟨engine ⟨[power]⟩, [power]⟩ :=
    @Step.success ⟨engine {}, [power]⟩ (.register power) none _ (List.mem_singleton.2 rfl) rfl
  have hdefine : Step ⟨engine ⟨[power]⟩, [power]⟩ h := by
    refine @Step.success ⟨engine ⟨[power]⟩, [power]⟩ (.define "g(y) = f(y)") (some tower) _
      trivial ?_
    rw [Request.run_define, htower]
    rfl
  have hsteps := ((ReflTransGen.single hread).tail hregister).tail hdefine
  exact ⟨hsteps, ordered_of_steps (engine {}) rfl h hsteps⟩

end History

end Formulary
