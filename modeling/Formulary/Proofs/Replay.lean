import Formulary.Proofs.Engine

/-!
# Definitions as texts

The definitions of an engine can be written out and defined again elsewhere: on a fresh engine with
the same number format and the same limits, their texts give the same functions (`Engine.replay`).

`Definition.describe` with the argument separator of the format writes just the text that a
definition was read from, without its blanks (`Language.Writes.describe_eq`), as joining the
parameters undoes their separation. A definition is read with the functions that were registered
before it. So the invariant is that every function is read again from its text where the ones before
it are registered, and that its name is not taken there (`Language.Replays`); definitions that fail
leave it alone.
-/

namespace Formulary

/-! ## The text of a definition -/

namespace Syntax

variable {mark : List Char}

theorem separate_ne_nil (skip : Nat) (text : List Char) : separate mark skip text ≠ [] := by
  fun_induction separate mark skip text with
  | case1 | case3 | case4 | case5 => simp
  | case2 _ _ _ ih => exact ih

/-- The pieces of a text with the marks between them are the text, from behind the characters that
belong to the last mark. -/
theorem intercalate_separate (hmark : mark ≠ []) (skip : Nat) (text : List Char) :
    mark.intercalate (separate mark skip text) = text.drop skip := by
  fun_induction separate mark skip text with
  | case1 => simp
  | case2 skip c cs ih => simpa using ih
  | case3 c cs hprefix ih =>
    obtain ⟨m, mark, rfl⟩ := List.exists_cons_of_ne_nil hmark
    obtain ⟨rfl, hbehind⟩ := List.cons_prefix_cons.1 (List.isPrefixOf_iff_prefix.1 hprefix)
    obtain ⟨behind, rfl⟩ := hbehind
    rw [List.intercalate_cons_of_ne_nil (separate_ne_nil _ _), ih]
    simp
  | case4 c cs hprefix piece pieces hpieces ih =>
    rw [hpieces] at ih
    cases pieces with
    | nil => simpa using ih
    | cons next pieces =>
      rw [List.intercalate_cons_cons] at ih ⊢
      simpa using ih
  | case5 c cs hprefix hnil ih => exact absurd hnil (separate_ne_nil 0 cs)

theorem eq_of_signature? {text name params : List Char} (h : signature? text = some (name, params)) :
    text = name ++ '(' :: params ++ [')'] := by
  have hsplit := List.takeWhile_append_dropWhile (p := isLowercase) (l := text)
  unfold signature? at h
  dsimp only at h
  split at h
  · next c word rest hname hrest =>
    split at h
    · next hlast =>
      cases h
      obtain ⟨params, rfl⟩ := List.getLast?_eq_some_iff.1 hlast
      rw [List.dropLast_concat]
      calc text = text.takeWhile isLowercase ++ text.dropWhile isLowercase := hsplit.symm
        _ = _ := by rw [hrest]; simp
    · cases h
  · cases h

end Syntax

namespace Language

variable {lang : Language} {text text' : String} {d : Definition (Expr Float)}

/-- A definition is described as it was written. -/
theorem Writes.describe_eq {text paramText : List Char} (h : lang.Writes text paramText d) :
    (d.describe lang.format.argumentText).toList = text := by
  have hparams : (lang.format.argumentText.intercalate d.params).toList = paramText := by
    rw [h.params]
    split
    · next hempty => simp [List.isEmpty_iff.1 hempty]
    · have hjoin := Syntax.intercalate_separate lang.format.argument_ne_nil 0 paramText
      simpa [NumberFormat.argumentText, Function.comp_def] using hjoin
  have hequals : text.dropWhile (· != '=') = '=' :: d.bodyText.toList := by
    have hbody := h.bodyText
    cases hrest : text.dropWhile (· != '=') with
    | nil =>
      -- an empty body is no formula
      rw [hrest, List.drop_nil] at hbody
      have hparse := h.body
      simp [parse, ← hbody, Text.compact] at hparse
    | cons c rest =>
      have hc := List.head?_dropWhile_not (· != '=') text
      rw [hrest] at hbody hc
      obtain rfl : c = '=' := by simpa using hc
      rw [← hbody]
      rfl
  calc (d.describe lang.format.argumentText).toList
      = (d.name.toList ++ '(' :: paramText ++ [')']) ++ '=' :: d.bodyText.toList := by
        simp [Definition.describe, hparams]
    _ = text.takeWhile (· != '=') ++ text.dropWhile (· != '=') := by
        rw [hequals, Syntax.eq_of_signature? h.signature]
    _ = text := List.takeWhile_append_dropWhile

/-- Blanks do not matter to a definition. -/
theorem parseDefinition_congr (h : Text.compact text'.toList = Text.compact text.toList)
    (hd : lang.parseDefinition text = .ok d) : lang.parseDefinition text' = .ok d := by
  unfold parseDefinition at hd ⊢
  dsimp only at hd ⊢
  rw [h]
  split at hd
  · cases hd
  · next hbody =>
    rw [if_neg hbody]
    exact hd

/-- A definition that was read is read again from its description. -/
theorem parseDefinition_describe (hd : lang.parseDefinition text = .ok d) :
    lang.parseDefinition (d.describe lang.format.argumentText) = .ok d := by
  obtain ⟨paramText, hwrites⟩ := exists_writes_of_parseDefinition hd
  refine parseDefinition_congr ?_ hd
  rw [hwrites.describe_eq, Text.compact_compact]

/-! ## Registries that can be replayed -/

/-- The language with other functions. -/
def withFunctions (lang : Language) (definitions : List (Definition (Expr Float))) : Language :=
  { lang with registry := ⟨definitions⟩ }

/-- Where the functions before it are registered, each function is read from its description and can
be registered. -/
def Replays (lang : Language) (definitions : List (Definition (Expr Float))) : Prop :=
  ∀ before d after, definitions = before ++ d :: after →
    (lang.withFunctions before).parseDefinition (d.describe lang.format.argumentText) = .ok d ∧
      (lang.withFunctions before).register d = .ok (lang.withFunctions (before ++ [d]))

theorem replays_nil (lang : Language) : lang.Replays [] := by
  intro before d after h
  simp at h

/-- A definition that is read and registered can be replayed as well. -/
theorem Replays.concat {definitions : List (Definition (Expr Float))} {language : Language}
    (h : lang.Replays definitions)
    (hread : (lang.withFunctions definitions).parseDefinition text = .ok d)
    (hregister : (lang.withFunctions definitions).register d = .ok language) :
    language = lang.withFunctions (definitions ++ [d]) ∧ lang.Replays (definitions ++ [d]) := by
  obtain ⟨-, rfl⟩ := register_eq_ok hregister
  refine ⟨rfl, fun before d' after hsplit => ?_⟩
  rcases List.eq_nil_or_concat after with rfl | ⟨after, last, rfl⟩
  · -- the new definition is the last one
    obtain ⟨rfl, hlast⟩ := List.append_inj' hsplit rfl
    obtain rfl : d = d' := by simpa using hlast
    exact ⟨parseDefinition_describe hread, hregister⟩
  · rw [List.concat_eq_append, ← List.cons_append, ← List.append_assoc] at hsplit
    obtain ⟨hold, -⟩ := List.append_inj' hsplit rfl
    exact h before d' after hold

end Language

/-! ## Engines -/

namespace Engine

variable {lang : Language} {engine : Engine} {definitions : List (Definition (Expr Float))}

/-- The engine with these functions in a language. -/
def speaking (engine : Engine) (lang : Language) (definitions : List (Definition (Expr Float))) :
    Engine :=
  { engine with language := lang.withFunctions definitions }

/-- A request for a definition, whatever becomes of it. -/
def tryDefine (text : String) : StateM Engine (Except Failure (Definition (Expr Float))) :=
  (define text).run

/-- One request keeps the functions replayable, and adds the function that it returns, if it does.
-/
theorem replays_tryDefine (h : lang.Replays definitions) (text : String) :
    ∃ result, (tryDefine text).run (engine.speaking lang definitions) =
        (result, engine.speaking lang (definitions ++ result.toOption.toList)) ∧
      lang.Replays (definitions ++ result.toOption.toList) := by
  have hfailed (e : Failure) :
      definitions ++ (Except.error e : Except Failure (Definition (Expr Float))).toOption.toList =
        definitions := List.append_nil _
  have hrun := run_define text (engine.speaking lang definitions)
  split at hrun
  · next d hread =>
    split at hrun
    · next language hregister =>
      obtain ⟨rfl, hreplays⟩ := h.concat hread hregister
      exact ⟨.ok d, hrun, hreplays⟩
    · next e _ =>
      refine ⟨.error (.parse e), ?_⟩
      rw [hfailed]
      exact ⟨hrun, h⟩
  · next e _ =>
    refine ⟨.error (.parse e), ?_⟩
    rw [hfailed]
    exact ⟨hrun, h⟩

/-- So do several requests, one after the other. -/
theorem replays_mapM_tryDefine (h : lang.Replays definitions) (texts : List String) :
    ∃ results, (texts.mapM tryDefine).run (engine.speaking lang definitions) =
        (results, engine.speaking lang (definitions ++ results.filterMap Except.toOption)) ∧
      lang.Replays (definitions ++ results.filterMap Except.toOption) := by
  induction texts generalizing definitions with
  | nil =>
    refine ⟨[], ?_, ?_⟩ <;> rw [List.filterMap_nil, List.append_nil]
    · rfl
    · exact h
  | cons text texts ih =>
    obtain ⟨result, hfirst, hreplays⟩ := @replays_tryDefine lang engine _ h text
    obtain ⟨results, hrest, hreplays⟩ := ih hreplays
    have hadded : definitions ++ result.toOption.toList ++ results.filterMap Except.toOption =
        definitions ++ (result :: results).filterMap Except.toOption := by
      cases result <;> simp [Except.toOption, List.filterMap_cons]
    refine ⟨result :: results, ?_, hadded ▸ hreplays⟩
    rw [← hadded, List.mapM_cons]
    calc _ = (do
          let (result, engine) ← (tryDefine text).run (engine.speaking lang definitions)
          let (results, engine) ← (texts.mapM tryDefine).run engine
          return (result :: results, engine)) := rfl
      _ = _ := by rw [hfirst]; dsimp only [Id.run, pure, bind]; rw [hrest]

/-- Functions that can be replayed are defined again, one after the other, from their descriptions.
-/
theorem run_mapM_define {before after : List (Definition (Expr Float))}
    (h : lang.Replays (before ++ after)) :
    ((after.map (·.describe lang.format.argumentText)).mapM define).run.run
        (engine.speaking lang before) =
      (.ok after, engine.speaking lang (before ++ after)) := by
  induction after generalizing before with
  | nil =>
    rw [List.append_nil]
    rfl
  | cons d after ih =>
    obtain ⟨hread, hregister⟩ := h before d after rfl
    have hfirst : (define (d.describe lang.format.argumentText)).run.run
        (engine.speaking lang before) = (.ok d, engine.speaking lang (before ++ [d])) := by
      rw [run_define]
      simp only [speaking, hread, hregister]
    have hrest := @ih (before ++ [d]) (by simpa using h)
    rw [List.map_cons, List.mapM_cons, run_bind, hfirst]
    dsimp only
    rw [run_bind, hrest, List.append_assoc]
    rfl

/-- Whatever an engine without functions was asked to define, its functions are the ones that came
of it, and on any engine without functions, with the same number format and the same limits, the
texts of the definitions give the same functions again, in the same order. -/
theorem replay (lang : Language) (engine replayer : Engine) (texts : List String) :
    let defined := (texts.mapM tryDefine).run (engine.speaking lang [])
    let functions := defined.2.language.registry.definitions
    functions = defined.1.filterMap Except.toOption ∧
      ((functions.map (·.describe lang.format.argumentText)).mapM define).run.run
          (replayer.speaking lang []) =
        (.ok functions, replayer.speaking lang functions) := by
  obtain ⟨results, hrun, hreplays⟩ :=
    @replays_mapM_tryDefine lang engine _ lang.replays_nil texts
  simp only [hrun]
  exact ⟨rfl, run_mapM_define hreplays⟩

end Engine

end Formulary
