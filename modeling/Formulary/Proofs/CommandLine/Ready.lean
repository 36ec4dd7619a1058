import Formulary.CommandLine.Outcome
import Formulary.Proofs.Engine
import Formulary.Proofs.Number.Display
import Formulary.Proofs.Syntax.Rules

/-!
# Reading on a command line

The engine of a command line is `Ready`: the functions that it has were defined on it, what it reads
and what it evaluates has the same limit, and numbers are displayed with three places. It stays so
while functions are defined on it and draws are taken.

On such an engine the text of a formula, a definition or a binding is read, or the error says what
is wrong with it. Under a limit there may be no room for a text. Any value can be displayed.
-/

namespace Formulary

/-- A number format has as many places as it is made with. -/
theorem NumberFormat.maxFractionDigits_of_make {settings : Settings} {format : NumberFormat}
    (h : make settings = .ok format) :
    format.maxFractionDigits = settings.maxFractionDigits.toNat := by
  unfold make at h
  split at h
  · cases h
  split at h
  · cases h
  split at h
  · cases h
  split at h
  · cases h
  dsimp only at h
  split at h
  · cases h
  split at h
  · cases h
  cases h
  rfl

namespace CommandLine

/-! ## Reading -/

/-- What does not change while a command line is run. -/
structure Ready (limit : CallLimit) (engine : Engine) : Prop where
  registry : engine.language.registry.Defined
  reading : engine.language.maxPending = limit
  evaluating : engine.evaluator.maxPending = limit
  places : engine.language.format.maxFractionDigits = 3

/-- A text is wrong, or a limit is in the way of reading it. -/
def IsTextError (limit : CallLimit) (e : ParseError) : Prop :=
  e.kind = .parse ∨ e.kind = .exhausted ∧ limit ≠ none

variable {limit : CallLimit} {engine engine' : Engine} {text : String}

namespace Ready

/-- A formula is read, or the error is one of its text. -/
theorem failsOnly_parse (h : Ready limit engine) (text : String) :
    FailsOnly (IsTextError limit) (engine.language.parse text) := by
  intro e he
  rcases engine.language.settles_parse text with ⟨t, ht, -⟩ | ⟨e', he', hreport⟩
  · rw [he] at ht
    cases ht
  · rw [he] at he'
    cases he'
    rw [Language.Reports, h.reading] at hreport
    rcases hreport with hparse | ⟨rfl, hlimit⟩
    · exact .inl hparse
    · exact .inr ⟨rfl, hlimit⟩

/-- A definition is read, or the error is one of its text. -/
theorem failsOnly_parseDefinition (h : Ready limit engine) (text : String) :
    FailsOnly (IsTextError limit) (engine.language.parseDefinition text) := by
  unfold Language.parseDefinition
  dsimp only
  split
  · exact .error (.inl rfl)
  split
  · exact .error (.inl rfl)
  next name paramText _ =>
  generalize (if paramText.isEmpty = true then [] else _) = params
  split
  · exact .error (.inl rfl)
  split
  · exact .error (.inl rfl)
  split
  · exact .error (.inl rfl)
  refine .bind (h.failsOnly_parse _) fun body => ?_
  split
  · next hexhausted =>
    exact .error (.inr ⟨rfl, h.reading ▸ CallLimit.ne_none_of_isExceeded hexhausted⟩)
  · split
    · exact .ok _
    · exact .error (.inl rfl)

/-- A function is not defined for the same reasons. -/
theorem failsOnly_define (h : Ready limit engine) (text : String) :
    FailsOnly (fun e => e.kind = .parse ∨ e.kind = .exhausted ∧ limit ≠ none)
      ((Engine.define text).run.run engine).1 := by
  have hread := h.failsOnly_parseDefinition text
  rw [Engine.run_define]
  cases hdefinition : engine.language.parseDefinition text with
  | error e => exact .error (hread e hdefinition)
  | ok d =>
    dsimp only
    cases hregister : engine.language.register d with
    | ok language => exact .ok d
    | error e =>
      refine .error (.inl ?_)
      unfold Language.register at hregister
      split at hregister
      · cases hregister
        rfl
      · cases hregister

/-- An engine that is ready stays so after a definition. -/
theorem define {d : Definition (Expr Float)} (h : Ready limit engine)
    (hdefine : (Engine.define text).run.run engine = (.ok d, engine')) : Ready limit engine' := by
  obtain ⟨language, hread, hregister, rfl⟩ := Engine.run_define_eq_ok hdefine
  have hregistry : language.registry.Defined := .register h.registry hread h.registry hregister
  obtain ⟨-, rfl⟩ := Language.register_eq_ok hregister
  exact ⟨hregistry, h.reading, h.evaluating, h.places⟩

/-- An engine that is ready stays so after draws. -/
theorem drawn (h : Ready limit engine) (drawn : ℕ) : Ready limit { engine with drawn } :=
  ⟨h.registry, h.reading, h.evaluating, h.places⟩

/-- Every number can be displayed with three places. -/
theorem canDisplay (h : Ready limit engine) (x : Float) :
    engine.language.format.canDisplay x = true := by
  by_cases hx : Binary64.isFinite x = true
  · refine NumberFormat.canDisplay_of_lt hx (fun _ => ?_) ?_
    · rw [h.places]
      decide
    · rw [h.places]
      exact NumberFormat.scaled_lt_of_le hx (by decide)
  · simp [NumberFormat.canDisplay, hx]

/-- Any value can be displayed in the format of the engine. -/
theorem describeWith?_eq (h : Ready limit engine) (v : Value Float) :
    v.describeWith? engine.language.format = some (v.describeWith engine.language.format) := by
  cases v <;> simp [Value.describeWith?, h.canDisplay]

end Ready

/-- The errors of reading a value. -/
def IsValueError (e : ParseError) : Prop := e.kind = .parse ∨ e.kind = .invalidArgument

/-- An error of a number is an error of a value. -/
theorem isValueError_number (e : NumberError) : IsValueError (.number e) := by
  cases e with
  | notANumber => exact .inl rfl
  | unconvertible => exact .inr rfl

/-- Reading a number fails with errors of values only. -/
theorem failsOnly_read (format : NumberFormat) (text : List Char) :
    FailsOnly IsValueError ((format.read text).mapError .number) :=
  .mapError fun e _ => isValueError_number e

/-- Reading a complex number fails with errors of values only. -/
theorem failsOnly_readComplex (format : NumberFormat) (text : String) :
    FailsOnly IsValueError (readComplex format text) := by
  unfold readComplex
  split
  · exact .error (.inl rfl)
  · refine .bind (.mapError fun e _ => isValueError_number e) fun im => ?_
    exact .ite (.ok _) (.bind (failsOnly_read _ _) fun re => .ok _)
  · exact .bind (failsOnly_read _ _) fun re => .ok _

/-- What is wrong with a binding is its form or its value. -/
theorem failsOnly_readBinding (format : NumberFormat) (text : String) :
    FailsOnly (fun e => e.kind = .parse ∨ e.kind = .invalidArgument) (readBinding format text) := by
  unfold readBinding
  dsimp only
  refine .ite (.error (.inr rfl)) (.ite (.ok _) (.ite (.ok _) (.ite ?_ ?_)))
  · exact .bind (.mapError (failsOnly_readComplex _ _)) fun z => .ok _
  · exact .bind (.mapError fun e _ => isValueError_number e) fun x => .ok _

/-- The number format of a command line has three places. -/
theorem ready_of_numberFormat {decimalSeparator : Option String} {format : NumberFormat}
    (h : numberFormat decimalSeparator = .ok format) (evaluator : Evaluator Float) :
    Ready evaluator.maxPending
      { language := { format, maxPending := evaluator.maxPending }, evaluator } := by
  refine ⟨.empty, rfl, rfl, ?_⟩
  cases decimalSeparator with
  | none => cases h
  | some decimal => exact NumberFormat.maxFractionDigits_of_make (mapError_eq_ok.1 h)

end CommandLine

end Formulary
