import Formulary.Proofs.CommandLine.Result
import Formulary.Proofs.Reachable

/-!
# Results and errors of a command line

A command line that is not verbose writes its result and nothing else, or an error and nothing else
(`CommandLine.run_reports`). It writes an error only if it has no result, and the error is worded,
as every failure is that is not for want of room (`Failure.message_ne_empty`).

This is about releases of the argument parser that keep `--` as the value of an option that it is
attached to. Where it is taken away, a definition or a binding may lack its value, and this is a
failure that is not reported (`CommandLine.Arguments.run_ends`).
-/

namespace Formulary

/-! ## Messages -/

/-- What begins with some text is some text. -/
theorem append_ne_empty {s : String} (h : s ≠ "") (t : String) : s ++ t ≠ "" := by
  rw [Ne, String.append_eq_empty_iff]
  exact fun hempty => h hempty.1

/-- Lines of which the first one is not empty are some text. -/
theorem intercalate_ne_empty {line : String} (h : line ≠ "") (mark : String) (lines : List String) :
    mark.intercalate (line :: lines) ≠ "" := by
  cases lines with
  | nil => rwa [String.intercalate_singleton]
  | cons next lines =>
    rw [String.intercalate_cons_cons]
    exact append_ne_empty (append_ne_empty h mark) _

/-- Every report says something. -/
theorem Report.text_ne_empty (r : Report) : r.text ≠ "" :=
  intercalate_ne_empty (append_ne_empty (by decide) r.message) _ _

/-- Every error of reading says something. -/
theorem ParseError.message_ne_empty (e : ParseError) : e.message ≠ "" := by
  unfold message
  split
  · exact append_ne_empty (by decide) _
  · exact Report.text_ne_empty _

/-- Every error of data says something. -/
theorem DatumError.message_ne_empty (e : DatumError) : e.message ≠ "" := by
  cases e with
  | notConvertible => exact Report.text_ne_empty _
  | integerTooLarge => decide

/-- Every error of a format says something. -/
theorem SettingsError.message_ne_empty (e : SettingsError) : e.message ≠ "" := by
  cases e with
  | decimal | grouping | negativePlaces => exact append_ne_empty (by decide) _
  | groupingIsDecimal | argumentIsDecimal | argumentIsGrouping => decide

/-- Every error of a binding says something. -/
theorem BindingError.message_ne_empty (e : BindingError) : e.message ≠ "" := by
  cases e with
  | form text => exact append_ne_empty (append_ne_empty (by decide) text) _
  | value e => exact e.message_ne_empty

/-- What is reported is not that there is no room. -/
theorem Failure.kind_ne_of_isReportable {f : Failure} (h : f.isReportable = true) :
    f.kind ≠ .exhausted := by
  intro hkind
  rw [isReportable, hkind] at h
  cases h

/-- Every failure is worded, but for a lack of room. -/
theorem Failure.message_ne_empty {f : Failure} (h : f.kind ≠ .exhausted) : f.message ≠ "" := by
  cases f with
  | parse e => exact e.message_ne_empty
  | evaluation e => exact e.report.text_ne_empty
  | derivative e =>
    cases e with
    | exhausted => exact absurd rfl h
    | _ => exact Report.text_ne_empty _
  | datum e => exact e.message_ne_empty
  | settings e => exact e.message_ne_empty
  | binding e => exact e.message_ne_empty
  | tooManyDigits => decide
  | noChild sort =>
    rw [message]
    simp
  | unknownName | suggestionCount => exact append_ne_empty (by decide) _
  | noValue => decide
  | exhausted => exact absurd rfl h

namespace CommandLine

open Grammar

/-! ## Outcomes -/

/-- Of the arguments that no check refuses, the result is the answer of an engine. -/
theorem Arguments.hasResult_iff [Scalar Float] {a : Arguments} {evaluator : Evaluator Float}
    {format : NumberFormat} {line : String} (hsome : a.derive = "" ∨ a.integrate = "")
    (hformat : numberFormat a.decimalSeparator = .ok format) :
    a.HasResult evaluator line ↔
      ∃ engine, a.Answers { language := { format, maxPending := evaluator.maxPending }, evaluator }
        line engine := by
  constructor
  · rintro ⟨-, format', hformat', hanswers⟩
    obtain rfl := Except.ok.inj (hformat.symm.trans hformat')
    exact hanswers
  · exact fun hanswers => ⟨hsome, format, hformat, hanswers⟩

/-- A single line and its end. -/
theorem unlines_singleton (line : String) : unlines [line] = line ++ "\n" := by
  simp [unlines, String.join]

/-- Arguments that are not verbose have one result, which is written, or none. In the latter case an
error is written that is worded, unless an option lacks its value or there is no room. -/
theorem Arguments.run_ends [Scalar Float] [LawfulDivision Float] {a : Arguments}
    (hquiet : a.verbose = false) (evaluator : Evaluator Float) :
    (∃ line, (∀ line', a.HasResult evaluator line' ↔ line' = line) ∧
        a.run evaluator = .exited 0 (line ++ "\n") "") ∨
      (∀ line, ¬ a.HasResult evaluator line) ∧
        ((∃ message, message ≠ "" ∧ a.run evaluator = .exited 1 "" (message ++ "\n")) ∨
          ∃ failure, a.Unreported evaluator.maxPending failure ∧
            a.run evaluator = .failed failure) := by
  unfold Arguments.run
  split
  · next hboth =>
    have hboth : a.derive ≠ "" ∧ a.integrate ≠ "" := by simpa using hboth
    refine .inr ⟨fun line hresult => ?_, .inl
      ⟨"Error: Cannot use both --derive and --integrate", by decide, by rw [unlines_singleton]⟩⟩
    rcases hresult.1 with hderive | hintegrate
    · exact hboth.1 hderive
    · exact hboth.2 hintegrate
  next hnotBoth =>
  cases hformat : numberFormat a.decimalSeparator with
  | error message =>
    refine .inr ⟨fun line hresult => ?_, .inl
      ⟨"Error: " ++ message, append_ne_empty (by decide) message, ?_⟩⟩
    · obtain ⟨-, format, hformat', -⟩ := hresult
      cases hformat.symm.trans hformat'
    · dsimp only
      rw [unlines_singleton]
  | ok format =>
    have hready := ready_of_numberFormat hformat evaluator
    have hsome : a.derive = "" ∨ a.integrate = "" := by
      by_contra hnone
      exact hnotBoth (by simpa using hnone)
    obtain ⟨r, engine, hanswer, hfails, hanswers⟩ := ends_answer (a := a) hready
    rw [quiet, ← hquiet] at hanswer
    dsimp only
    rw [hanswer]
    cases r with
    | ok line =>
      refine .inl ⟨line, fun line' => ?_, ?_⟩
      · rw [Arguments.hasResult_iff hsome hformat]
        constructor
        · rintro ⟨engine', hline⟩
          exact (Except.ok.inj ((hanswers _ _).1 hline).1).symm
        · rintro rfl
          exact ⟨engine, (hanswers _ _).2 ⟨rfl, rfl⟩⟩
      · dsimp only
        rw [unlines_singleton]
        rfl
    | error failure =>
      refine .inr ⟨?_, ?_⟩
      · intro line hresult
        obtain ⟨engine', hline⟩ := (Arguments.hasResult_iff hsome hformat).1 hresult
        cases ((hanswers _ _).1 hline).1
      · dsimp only
        by_cases hreport : failure.isReportable = true
        · rw [if_pos hreport]
          refine .inl ⟨failure.message, Failure.message_ne_empty ?_, ?_⟩
          · exact Failure.kind_ne_of_isReportable hreport
          · rw [← unlines_singleton]
            rfl
        · rw [if_neg hreport]
          rcases hfails failure rfl with hreport' | hunreported
          · exact absurd hreport' hreport
          · exact .inr ⟨failure, hunreported, rfl⟩

/-! ## Options and their values -/

namespace Arguments

/-- No option lacks its value. -/
def IsComplete (a : Arguments) : Prop := none ∉ a.definitions ∧ none ∉ a.bindings

variable {a a' : Arguments}

/-- An option with a value keeps the arguments complete. -/
theorem IsComplete.set? {f : Flag} {value : Option String} (h : a.IsComplete)
    (hvalue : f.takesValue = true → value ≠ none) (hset : a.set? f value = some a') :
    a'.IsComplete := by
  obtain ⟨hdefinitions, hbindings⟩ := h
  cases f with
  | help => cases hset
  | var =>
    cases hset
    exact ⟨hdefinitions, by simpa [hbindings] using (hvalue rfl).symm⟩
  | define =>
    cases hset
    exact ⟨by simpa [hdefinitions] using (hvalue rfl).symm, hbindings⟩
  | optimize | render | derive | integrate | decimalSeparator | verbose =>
    cases hset
    exact ⟨hdefinitions, hbindings⟩

/-- Where `--` is kept, every option that takes a value has one. -/
theorem IsComplete.readRest {found : Bool} {words : List String} (h : a.IsComplete)
    (hread : Arguments.readRest .kept a found words = some a') : a'.IsComplete := by
  fun_induction Arguments.readRest .kept a found words with
  | case1 a =>
    cases hread
    exact h
  | case5 a =>
    cases hread
    exact h
  | case8 a =>
    cases hread
    exact h
  | case10 a found word rest _ _ _ ih => exact ih h hread
  | case11 a found word f value rest _ _ a₁ hset ih =>
    exact ih (h.set? (fun _ => by simp [AttachedSeparator.value?]) hset) hread
  | case14 a found word f _ _ value rest a₁ hset _ ih =>
    exact ih (h.set? (fun _ => Option.some_ne_none value) hset) hread
  | case17 a found word f rest _ htakes a₁ hset ih =>
    exact ih (h.set? (fun h => absurd h htakes) hset) hread
  | _ => cases hread

/-- Where attached values are kept, every option that takes a value has one. -/
theorem isComplete_of_read? {arguments : List String} (h : read? .kept arguments = some a) :
    a.IsComplete :=
  .readRest (a := {}) ⟨List.not_mem_nil, List.not_mem_nil⟩ h

end Arguments

/-- A command line that is not verbose writes its only result or, if it has none, an error that is
worded. With a limit, it may also end because there is no room. -/
theorem run_reports {lib : ElementaryLibrary} (hlib : lib.Lawful) {arguments : List String}
    {a : Arguments} (hread : Arguments.read? .kept arguments = some a) (hquiet : a.verbose = false)
    (evaluator : Evaluator Float) :
    letI := lib.scalar
    (∃ line, (∀ line', a.HasResult evaluator line' ↔ line' = line) ∧
        run arguments evaluator .kept = .exited 0 (line ++ "\n") "") ∨
      (∀ line, ¬ a.HasResult evaluator line) ∧
        ((∃ message, message ≠ "" ∧
            run arguments evaluator .kept = .exited 1 "" (message ++ "\n")) ∨
          evaluator.IsLimited ∧ ∃ failure, failure.kind = .exhausted ∧
            run arguments evaluator .kept = .failed failure) := by
  let _ := lib.scalar
  have _ := hlib.lawfulDivision
  have hrun : run arguments evaluator .kept = a.run evaluator := by
    rw [run, hread]
  rw [hrun]
  obtain ⟨hdefinitions, hbindings⟩ := Arguments.isComplete_of_read? hread
  refine (Arguments.run_ends hquiet evaluator).imp_right (And.imp_right (Or.imp_right ?_))
  rintro ⟨failure, hfailure, hfailed⟩
  cases hfailure with
  | noValue hnone => exact absurd hnone (not_or.2 ⟨hdefinitions, hbindings⟩)
  | noRoom hkind hlimit => exact ⟨hlimit, failure, hkind, hfailed⟩

/-- A difference of variables is read without going into anything. -/
theorem parse_difference :
    ({ maxPending := none } : Language).parse "x-y" = .ok (.binary .sub (.var "x") (.var "y")) := by
  have hvar {c : Char} (hc : c ∈ ['x', 'y']) :
      AtomWithin { maxPending := none } 101 [c] (.var (String.ofList [c])) := by
    obtain rfl | rfl : c = 'x' ∨ c = 'y' := by simpa using hc
    all_goals
      exact .variable ⟨not_wrapped_of_head (by decide), by decide, by decide, rfl⟩ rfl (by decide)
  have hsum : Sum (AtomWithin { maxPending := none } 101) (['x'] ++ BinaryOp.sub.symbol.toList ++ ['y'])
      (.binary .sub (.var "x") (.var "y")) :=
    .join .sub rfl (.part (.part (.part (hvar (c := 'x') (by decide)))))
      (.part (.part (hvar (c := 'y') (by decide))))
  exact Language.parse_of_within NumberFormat.hasPlainMarks_standard rfl
    (.part (.part (by decide) hsum))

/-- The derivative of a difference is the result that is written. -/
theorem run_reports_derivative :
    letI := ElementaryLibrary.firstOrder.scalar
    let a : Arguments := { formula := "x-y", derive := "x" }
    let evaluator : Evaluator Float := { maxPending := none, draw := fun _ => 0.5 }
    ElementaryLibrary.firstOrder.Lawful ∧
      Arguments.read? .kept ["x-y", "--derive", "x"] = some a ∧ a.verbose = false ∧
        a.HasResult evaluator "1-0" ∧
          run ["x-y", "--derive", "x"] evaluator .kept = .exited 0 "1-0\n" "" := by
  let _ := ElementaryLibrary.firstOrder.scalar
  intro a evaluator
  have hlawful := ElementaryLibrary.lawful_firstOrder
  have hread : Arguments.read? .kept ["x-y", "--derive", "x"] = some a := by decide +kernel
  have hresult : a.HasResult evaluator "1-0" := by
    let engine : Engine := { language := { maxPending := none }, evaluator }
    let t' : Expr Float := .binary .sub (.number 1) (.number 0)
    refine ⟨.inr rfl, .standard, rfl, engine, engine, [], _, t', engine, t', engine, rfl, .nil,
      parse_difference, ?_, ?_, ?_⟩
    · rw [Arguments.Transforms, if_pos (by decide)]
      rfl
    · rw [Arguments.Optimizes, if_neg (by decide)]
      exact ⟨rfl, rfl⟩
    · have htext : t'.render .standard = "1-0" := by decide +kernel
      rw [Arguments.Shows, if_pos (.inr (.inl (by decide))), Engine.run_render, if_neg (by decide)]
      rw [show engine.language.format = .standard from rfl, htext]
  refine ⟨hlawful, hread, rfl, hresult, ?_⟩
  rcases run_reports hlawful hread rfl evaluator with ⟨line, hline, hrun⟩ | ⟨hnone, -⟩
  · rw [hrun, ← (hline "1-0").1 hresult]
    rfl
  · exact absurd hresult (hnone "1-0")

end CommandLine

end Formulary
