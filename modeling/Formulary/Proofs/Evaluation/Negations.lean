import Formulary.Proofs.Evaluation.Dependence
import Formulary.Proofs.Expr.Folding
import Formulary.Proofs.Syntax.Completeness
import Formulary.Proofs.Syntax.Registry
import Formulary.Proofs.Syntax.Spelling

/-!
# Behind many negations

A node takes two calls, so behind `n` times `!` a tree has `2 * n` calls less room than in front of
them (`Evaluator.evalAt_negated`). Folding takes only one call for a node, so it has `n` calls less
(`Folding.ofExpr_negated`). A call of the function `f(x)=!…!x` needs as much room for its body,
wherever it stands (`Negation.evalAt_call`). With these the room of an evaluation is used up by a
formula of a few words, and it can be used up where that of folding is not.
-/

namespace Formulary

open Formulary.Expr Grammar

/-! ## Trees -/

namespace Expr

variable {α : Type}

/-- A tree behind some number of `!`. -/
def negated (e : Expr α) : Nat → Expr α
  | 0 => e
  | n + 1 => .unary .not (negated e n)

variable (e : Expr α) (n : Nat)

/-- Negations behind negations. -/
theorem negated_negated (m : Nat) : (e.negated m).negated n = e.negated (m + n) := by
  induction n with
  | zero => rfl
  | succ n ih => rw [negated, ih, Nat.add_succ, negated]

/-- A negation is no constant. -/
theorem isConst_negated (he : e.isConst = false) : (e.negated n).isConst = false := by
  cases n with
  | zero => exact he
  | succ n => rfl

/-- Negations depend on nothing themselves. -/
@[simp] theorem dependence_negated : (e.negated n).dependence = e.dependence := by
  induction n with
  | zero => rfl
  | succ n ih => rw [negated, dependence, ih]

/-- A tree can be folded behind negations if it can be in front of them. -/
@[simp] theorem isFoldable_negated : (e.negated n).isFoldable = e.isFoldable := by
  rw [isFoldable, dependence_negated, ← isFoldable]

/-- Negations have no variables themselves. -/
@[simp] theorem freeVars_negated : (e.negated n).freeVars = e.freeVars := by
  induction n with
  | zero => rfl
  | succ n ih => rw [negated, freeVars, ih]

/-- Negations make a tree higher by one each. -/
@[simp] theorem height_negated : (e.negated n).height = e.height + n := by
  induction n with
  | zero => rfl
  | succ n ih => rw [negated, height, ih, Nat.add_assoc]

/-- No call stands in a negation itself. -/
@[simp] theorem searchCalls_negated : (e.negated n).searchCalls = e.searchCalls := by
  induction n with
  | zero => rfl
  | succ n ih => rw [negated, searchCalls, ih]

/-- The analysis takes two calls for a negation, as an evaluation does. -/
@[simp] theorem analysisCalls_negated : (e.negated n).analysisCalls = e.analysisCalls + 2 * n := by
  induction n with
  | zero => rfl
  | succ n ih =>
    rw [negated, analysisCalls, ih]
    omega

/-- Negations are no series. -/
@[simp] theorem malformedSeries?_negated : (e.negated n).malformedSeries? = e.malformedSeries? := by
  induction n with
  | zero => rfl
  | succ n ih => rw [negated, malformedSeries?, ih]

end Expr

/-! ## Outcomes -/

namespace Evaluator

variable {α : Type} [Scalar α] {ev : Evaluator α} {scope : Scope α} {e : Expr α} {n depth : Nat}

/-- A tree is too deep behind negations if it is too deep two calls further on for each of them. -/
theorem evalAt_negated_of_tooDeep (h : ev.evalAt scope (depth + 2 * n) e = throw .tooDeep) :
    ev.evalAt scope depth (e.negated n) = throw .tooDeep := by
  induction n generalizing depth with
  | zero => exact h
  | succ n ih =>
    by_cases hdeep : ev.isTooDeep (depth + 2) = true
    · exact evalAt_of_isTooDeep hdeep scope _
    · have hinner : depth + 2 + 2 * n = depth + 2 * (n + 1) := by omega
      rw [negated, evalAt, if_neg hdeep, ih (by rw [hinner, h])]
      rfl

/-- A truth value is negated as often as there are negations in front of it. -/
theorem evalAt_negated_of_truth {b : Bool} (h : ev.evalAt scope (depth + 2 * n) e = pure (.boolean b)) :
    ev.evalAt scope depth (e.negated n) = pure (.boolean (b == decide (n % 2 = 0))) := by
  induction n generalizing depth with
  | zero => simpa [negated] using h
  | succ n ih =>
    have hinner : depth + 2 + 2 * n = depth + 2 * (n + 1) := by omega
    -- there is room for the first negation, as there is for what stands behind it
    have hroom : ¬ ev.isTooDeep (depth + 2) = true := fun hdeep => by
      have hdeep' : ev.isTooDeep (depth + 2 * (n + 1) + 2) = true :=
        isTooDeep_mono (by omega) hdeep
      rw [evalAt_of_isTooDeep hdeep'] at h
      cases congrArg Prod.fst (congrFun h 0)
    have hparity : (!(b == decide (n % 2 = 0))) = (b == decide ((n + 1) % 2 = 0)) := by
      rcases Nat.mod_two_eq_zero_or_one n with hn | hn <;> cases b <;> simp [hn, Nat.add_mod]
    rw [negated, evalAt, if_neg hroom, ih (by rw [hinner, h]), ← hparity]
    rfl

/-- A tree that has a truth value where there is room for it, behind negations. -/
theorem evalAt_negated {room : Nat} {b : Bool}
    (h : ∀ depth, ev.evalAt scope depth e =
      if ev.isTooDeep (depth + room) then throw .tooDeep else pure (.boolean b)) (n depth : Nat) :
    ev.evalAt scope depth (e.negated n) =
      if ev.isTooDeep (depth + 2 * n + room) then throw .tooDeep
      else pure (.boolean (b == decide (n % 2 = 0))) := by
  split
  · next hdeep => exact evalAt_negated_of_tooDeep (by rw [h, if_pos hdeep])
  · next hroom => exact evalAt_negated_of_truth (by rw [h, if_neg hroom])

end Evaluator

/-! ## Folding -/

namespace Folding

variable {α : Type} [Scalar α] {ev : Evaluator α} {conditional : Bool} {e : Expr α} {a : Folding α}

/-- Negations that are kept are folded behind. -/
theorem ofExpr_negated {n depth : Nat}
    (hkept : ∀ k < n, attempt ev (depth + k) conditional (e.negated (n - k)) = pure .kept)
    (ha : ofExpr ev (depth + n) conditional e = pure a) :
    ofExpr ev depth conditional (e.negated n) = pure ⟨a.tree.negated n, a.count, a.failure⟩ := by
  induction n generalizing depth with
  | zero => exact ha
  | succ n ih =>
    have hdepth (k : Nat) : depth + 1 + k = depth + (k + 1) := by omega
    have hrest := @ih (depth + 1) (fun k hk => by
      rw [hdepth, ← Nat.add_sub_add_right n 1 k]
      exact hkept (k + 1) (by omega)) (by rw [hdepth, ha])
    have hfirst : attempt ev depth conditional (.unary .not (e.negated n)) = pure .kept :=
      hkept 0 (by omega)
    rw [negated, ofExpr, hfirst, pure_bind]
    dsimp only
    rw [hrest]
    rfl

/-- What cannot be folded is kept behind negations. -/
theorem attempt_negated (he : e.isFoldable = false) (depth n : Nat) :
    attempt ev depth conditional (e.negated n) = pure .kept :=
  attempt_of_left (by rw [isFoldable_negated, he, Bool.not_false, Bool.or_true])

end Folding

/-! ## Texts -/

/-- Any number of `!` may stand in front of a part that may be negated. -/
theorem Grammar.Negated.negated {Part : List Char → Expr Float → Prop} {s : List Char}
    {t : Expr Float} (h : Negated Part s t) (n : Nat) :
    Negated Part (List.replicate n '!' ++ s) (t.negated n) := by
  induction n with
  | zero => exact h
  | succ n ih => exact .not ih

/-- Negations have no blanks. -/
theorem Text.compact_negations (n : Nat) {s : List Char} (h : Text.compact s = s) :
    Text.compact (List.replicate n '!' ++ s) = List.replicate n '!' ++ s := by
  have hbangs : Text.compact (List.replicate n '!') = List.replicate n '!' :=
    List.filter_replicate_of_pos (by decide)
  rw [Text.compact, List.filter_append, ← Text.compact, ← Text.compact, hbangs, h]

/-- No separator of arguments stands among negations. -/
theorem Grammar.clear_negations (n : Nat) {s : List Char} (h : Clear [','] s) :
    Clear [','] (List.replicate n '!' ++ s) := by
  have hbangs : Clear [','] (List.replicate n '!') := .of_forall fun c hc => by
    rw [List.eq_of_mem_replicate hc]
    decide
  exact hbangs.append h

namespace Negation

/-! ## A function that negates its argument many times -/

/-- `f(x)=!…!x` -/
def function (n : Nat) : Definition (Expr Float) :=
  ⟨"f", ["x"], (Expr.var "x").negated n, String.ofList (List.replicate n '!' ++ ['x'])⟩

/-- A language that knows the function and no other one. -/
def language (n : Nat) : Language := { registry := ⟨[function n]⟩, maxPending := none }

/-- The definition of the function is read as the function. -/
theorem parseDefinition_function (n : Nat) :
    ({ maxPending := none } : Language).parseDefinition
      (String.ofList ("f(x)=".toList ++ (List.replicate n '!' ++ ['x']))) = .ok (function n) := by
  have hbody : Text.compact (List.replicate n '!' ++ ['x']) = List.replicate n '!' ++ ['x'] :=
    Text.compact_negations n rfl
  have hcompact : Text.compact ("f(x)=".toList ++ (List.replicate n '!' ++ ['x'])) =
      "f(x)=".toList ++ (List.replicate n '!' ++ ['x']) := by
    conv_rhs => rw [← hbody]
    rw [Text.compact, List.filter_append]
    rfl
  have hx : Operand (AtomWithin { maxPending := none } 101) ['x'] (.var "x") :=
    operand_letter (by decide) rfl
  have hparse : ({ maxPending := none } : Language).parse
      (String.ofList (List.replicate n '!' ++ ['x'])) = .ok ((Expr.var "x").negated n) := by
    refine Language.parse_of_within NumberFormat.hasPlainMarks_standard rfl ?_
    rw [String.toList_ofList, hbody]
    exact .part (hx.negated n)
  have hclosed : ∀ v ∈ ((Expr.var "x").negated n : Expr Float).freeVars, v ∈ ["x"] := by
    rw [freeVars_negated]
    decide
  refine @Language.parseDefinition_of_parse _ _ ['f'] ['x'] _ [['x']] _ ?_
      (Syntax.isReserved_letter (by decide)) rfl
      (by simp [Syntax.isName, Syntax.isLowercase, Syntax.isReserved_letter])
      (by decide) ?_ hparse (Syntax.isExhausted_of_none rfl _) hclosed
  · rw [String.toList_ofList, hcompact]
    rfl
  · rw [String.toList_ofList, hcompact]
    rfl

/-- Defining the function makes it known. -/
theorem define_function (n : Nat) :
    ({ maxPending := none } : Language).define
      (String.ofList ("f(x)=".toList ++ (List.replicate n '!' ++ ['x']))) =
        .ok (function n, language n) := by
  rw [Language.define, parseDefinition_function]
  rfl

/-- No other name is the name of a function. -/
theorem lookup?_language {n : Nat} {c : Char} {cs : List Char} (h : c ≠ 'f') :
    (language n).registry.lookup? (c :: cs) = none := by
  simp [language, Registry.lookup?, function, h.symm]

/-! ## Calls of it -/

/-- `f(true)` -/
def call (n : Nat) : Expr Float := .apply (function n) [.const (.boolean true)]

/-- The text of a call as an operand. -/
theorem operand_call (n levels : Nat) :
    Operand (AtomWithin (language n) (levels + 2)) "f(true)".toList (call n) := by
  let lang := language n
  have htrue : Operand (AtomWithin lang (levels + 1)) "true".toList (.const (.boolean true)) :=
    operand_true (lookup?_language (by decide))
  have hclear : Clear lang.format.argument "true".toList :=
    .of_forall (show ∀ c ∈ "true".toList, Bracket.isBracket c = false ∧ c ∉ [','] by decide)
  have happly : AtomWithin lang (levels + 2) "f(true)".toList (call n) :=
    AtomOver.apply_only rfl rfl rfl hclear (.part htrue)
  exact .part (by decide) (.part (.part (.part happly)))

/-- No separator of arguments stands outside the brackets of a call. -/
theorem clear_call : Clear [','] "f(true)".toList := by
  have harguments : Balanced "true".toList := .of_forall (by decide)
  exact .outside (by decide) (by decide) (harguments.bracketed .round)

/-- No draw is taken in the body. -/
theorem bodyDeterministic_function (n : Nat) : bodyDeterministic (function n) = true := by
  rw [function, bodyDeterministic, ← dependence_deterministic, dependence_negated]
  rfl

/-- A call has no variables and takes no draws. -/
theorem isFoldable_call (n : Nat) : (call n).isFoldable = true := by
  simp [call, isFoldable, dependence, bodyDeterministic_function, dependenceOfAll, Dependence.join,
    Dependence.none]

/-- The analysis of a call lists the nodes of the body, one call for each level. -/
theorem analysisCalls_call (n : Nat) : (call n).analysisCalls = max 4 (n + 3) := by
  simp [call, analysisCalls, analysisCallsOfAll, allDeterministic, isDeterministic, function,
    bodyCalls, height, searchCalls]
  omega

/-- A call has a value wherever there is room for the variable behind the negations: two calls for
each of them and for the variable, three for the call, and one for the search of the variable. -/
theorem evalAt_call [Scalar Float] (ev : Evaluator Float) (scope : Scope Float) (n depth : Nat) :
    ev.evalAt scope depth (call n) =
      if ev.isTooDeep (depth + (2 * n + 6)) then throw .tooDeep
      else pure (.boolean (true == decide (n % 2 = 0))) := by
  let inside : Scope Float := .ofBindings (.ofList [("x", .boolean true)]) "f"
  have hvariable (depth : Nat) : ev.evalAt inside depth (.var "x") =
      if ev.isTooDeep (depth + 3) then throw .tooDeep else pure (.boolean true) := by
    by_cases hdeep : ev.isTooDeep (depth + 2) = true
    · rw [Evaluator.evalAt_of_isTooDeep hdeep, if_pos (Evaluator.isTooDeep_mono (by omega) hdeep)]
    · rw [Evaluator.evalAt, if_neg hdeep]
      rfl
  have hbody := Evaluator.evalAt_negated hvariable n (depth + 3)
  have hroom : depth + 3 + 2 * n + 3 = depth + (2 * n + 6) := by omega
  rw [hroom] at hbody
  by_cases hdeep : ev.isTooDeep (depth + 2) = true
  · rw [Evaluator.evalAt_of_isTooDeep hdeep, if_pos (Evaluator.isTooDeep_mono (by omega) hdeep)]
  · by_cases hargument : ev.isTooDeep (depth + 4 + 2) = true
    · rw [if_pos (Evaluator.isTooDeep_mono (by omega) hargument), call, Evaluator.evalAt, if_neg hdeep,
        Evaluator.evalAll, Evaluator.evalAt_of_isTooDeep hargument]
      rfl
    · have hvalues : ev.evalAll scope (depth + 4) [.const (.boolean true)] = pure [.boolean true] := by
        rw [Evaluator.evalAll, Evaluator.evalAt, if_neg hargument]
        rfl
      rw [call, Evaluator.evalAt, if_neg hdeep, hvalues, pure_bind, function, Evaluator.evalBody]
      exact hbody

section

variable [Scalar Float] {ev : Evaluator Float} {conditional : Bool} {n depth : Nat}

/-- Folding replaces a call that it has room to evaluate. -/
theorem ofExpr_call (hroom : ev.isTooDeep (depth + 2 + (2 * n + 6)) = false) :
    Folding.ofExpr ev depth conditional (call n) =
      pure { tree := .const (.boolean (true == decide (n % 2 = 0))), count := 1 } := by
  have hvalue : ev.evalAt .empty (depth + 2) (call n) =
      Eval.of (.ok (.boolean (true == decide (n % 2 = 0)))) := by
    rw [evalAt_call, if_neg (by simp [hroom])]
    rfl
  rw [Folding.ofExpr.eq_def, Folding.attempt_of_foldable rfl (isFoldable_call n) hvalue]
  rfl

/-- Folding leaves a call as it is that it has no room to evaluate, if no evaluation has to come to
it. -/
theorem ofExpr_call_of_isTooDeep (hdeep : ev.isTooDeep (depth + 2 + (2 * n + 6)) = true) :
    Folding.ofExpr ev depth true (call n) = pure { tree := call n } := by
  have hvalue : ev.evalAt .empty (depth + 2) (call n) = Eval.of (.error .tooDeep) := by
    rw [evalAt_call, if_pos hdeep]
    rfl
  have hkept : Folding.attempt ev depth true (call n) = pure .kept :=
    Folding.attempt_of_foldable rfl (isFoldable_call n) hvalue
  rw [call, Folding.ofExpr, ← call, hkept, pure_bind]
  dsimp only
  rw [Folding.ofArgs, Folding.ofExpr]
  rfl

end

/-! ## A call that is joined with a variable -/

/-- `f(true)&&y` -/
def guarded (n : Nat) : Expr Float := .binary .and (call n) (.var "y")

/-- The text of it behind negations. -/
def guardedText (bangs : Nat) : List Char := List.replicate bangs '!' ++ "(f(true)&&y)".toList

/-- No separator of arguments stands in it. -/
theorem clear_guardedText (bangs : Nat) : Clear [','] (guardedText bangs) := by
  have hinner : Balanced "f(true)&&y".toList := clear_call.balanced.append (.of_forall (by decide))
  exact clear_negations bangs (hinner.bracketed .round)

/-- The text is read as an operand. -/
theorem operand_guarded (n bangs levels : Nat) :
    Operand (AtomWithin (language n) (levels + 3)) (guardedText bangs) ((guarded n).negated bangs) := by
  have hy : Operand (AtomWithin (language n) (levels + 2)) ['y'] (.var "y") :=
    operand_letter (by decide) (lookup?_language (by decide))
  have hlogic : Logic (AtomWithin (language n) (levels + 2)) "f(true)&&y".toList (guarded n) :=
    .join .and rfl (.part (operand_call n levels)) hy
  have hatom : AtomWithin (language n) (levels + 3) "(f(true)&&y)".toList (guarded n) :=
    .wrapped .round hlogic
  have hoperand : Operand (AtomWithin (language n) (levels + 3)) "(f(true)&&y)".toList (guarded n) :=
    .part (by decide) (.part (.part (.part hatom)))
  exact hoperand.negated bangs

/-- The text is read as a formula. -/
theorem parse_guarded (n bangs : Nat) :
    (language n).parse (String.ofList (guardedText bangs)) = .ok ((guarded n).negated bangs) := by
  refine Language.parse_of_within NumberFormat.hasPlainMarks_standard rfl ?_
  rw [String.toList_ofList, guardedText, Text.compact_negations bangs rfl]
  exact .part (operand_guarded n bangs 98)

/-- What is joined with a variable cannot be folded. -/
theorem isFoldable_guarded (n : Nat) : (guarded n).isFoldable = false := by
  rw [guarded, isFoldable_binary]
  exact Bool.and_false _

/-- The analysis takes two calls more than that of the call. -/
theorem analysisCalls_guarded (n : Nat) : (guarded n).analysisCalls = max 4 (n + 3) + 2 := by
  rw [guarded, analysisCalls, analysisCalls_call, analysisCalls, max_eq_left]
  omega

section

variable [Scalar Float] {ev : Evaluator Float} {conditional : Bool} {n depth : Nat}

/-- It is too deep to evaluate if the call is. -/
theorem evalAt_guarded_of_isTooDeep (hdeep : ev.isTooDeep (depth + 2 + (2 * n + 6)) = true)
    (scope : Scope Float) : ev.evalAt scope depth (guarded n) = throw .tooDeep := by
  by_cases hroot : ev.isTooDeep (depth + 2) = true
  · exact Evaluator.evalAt_of_isTooDeep hroot scope _
  · rw [guarded, Evaluator.evalAt, if_neg hroot, evalAt_call, if_pos hdeep]
    rfl

/-- Folding replaces the call in it, if there is room to evaluate it. -/
theorem ofExpr_guarded (hroom : ev.isTooDeep (depth + 1 + 2 + (2 * n + 6)) = false) :
    Folding.ofExpr ev depth conditional (guarded n) =
      pure ⟨.binary .and (.const (.boolean (true == decide (n % 2 = 0)))) (.var "y"), 1, none⟩ :=
  Folding.ofExpr_binary_of_kept .and (Folding.attempt_negated (isFoldable_guarded n) depth 0)
    (ofExpr_call hroom) rfl (Folding.ofExpr_var ev _ _ "y")

/-- Folding leaves the call in it if there is not. -/
theorem ofExpr_guarded_of_isTooDeep (hdeep : ev.isTooDeep (depth + 1 + 2 + (2 * n + 6)) = true) :
    Folding.ofExpr ev depth true (guarded n) = pure { tree := guarded n } :=
  Folding.ofExpr_binary_of_kept .and (Folding.attempt_negated (isFoldable_guarded n) depth 0)
    (ofExpr_call_of_isTooDeep hdeep) rfl (Folding.ofExpr_var ev _ _ "y")

end

end Negation

end Formulary
