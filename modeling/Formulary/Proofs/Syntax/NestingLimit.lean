import Formulary.Proofs.Syntax.Placement

/-!
# The limit of nesting

A higher limit of nesting takes nothing away but the error that a text is nested too deeply, and a
limit that the text without blanks is not longer than is never reached (`Language.parse_limited`).

Two readings of a text take the same steps until the first one has no level left (`Outlasts`). Each
level uses up a character: a bracket, or the name of a function. So a reading runs out of levels
only if it was given no more of them than the text has characters, and the induction on the levels
carries that bound along with the comparison.
-/

namespace Formulary

/-- The language with another limit of nesting. -/
abbrev Language.limited (lang : Language) (depth : Int) : Language := { lang with maxDepth := depth }

/-- A reading ends because the text is nested too deeply. -/
def TooDeep {α : Type} (r : Except ParseError α) : Prop :=
  ∃ limit position, r = .error (.tooDeep limit position)

/-- What is not too deep fails with other errors only. -/
theorem not_tooDeep_iff {α : Type} {r : Except ParseError α} :
    ¬ TooDeep r ↔ FailsOnly (fun e => ∀ limit position, e ≠ .tooDeep limit position) r := by
  constructor
  · rintro h e rfl limit position rfl
    exact h ⟨limit, position, rfl⟩
  · rintro h ⟨limit, position, rfl⟩
    exact h _ rfl limit position rfl

/-! ## Two readings -/

/-- The second reading comes to what the first one comes to, unless the first one is too deep, which
takes `short`. -/
def Outlasts {α : Type} (short : Prop) (r r' : Except ParseError α) : Prop :=
  (short ∧ TooDeep r) ∨ (¬ TooDeep r ∧ r' = r)

namespace Outlasts

variable {α β : Type} {short short' : Prop} {r r' x x' : Except ParseError α}

/-- What does not depend on the levels. -/
theorem same (h : FailsOnly (fun e => ∀ limit position, e ≠ .tooDeep limit position) r) :
    Outlasts short r r := .inr ⟨not_tooDeep_iff.2 h, rfl⟩

/-- A result is not cut short. -/
theorem ok (a : α) : Outlasts short (.ok a : Except ParseError α) (.ok a) := same (.ok a)

/-- An error of another sort is not cut short. -/
theorem error {e : ParseError} (he : ∀ limit position, e ≠ .tooDeep limit position) :
    Outlasts short (.error e : Except ParseError α) (.error e) := same (.error he)

/-- The condition for being cut short may be weakened. -/
theorem imp (h : Outlasts short r r') (himp : short → short') : Outlasts short' r r' :=
  Or.imp_left (And.imp_left himp) h

/-- A step and what follows it. -/
theorem bind {f f' : α → Except ParseError β} (h : Outlasts short r r')
    (hf : ∀ a, r = .ok a → Outlasts short (f a) (f' a)) : Outlasts short (r >>= f) (r' >>= f') := by
  rcases h with ⟨hshort, limit, position, rfl⟩ | ⟨hdeep, rfl⟩
  · exact .inl ⟨hshort, limit, position, rfl⟩
  · cases r' with
    | ok a => exact hf a rfl
    | error e => exact error fun limit position he => hdeep ⟨limit, position, he ▸ rfl⟩

/-- A reading whose result is put into a tree. -/
theorem map (h : Outlasts short r r') (f : α → β) :
    Outlasts short (do return f (← r)) (do return f (← r')) :=
  h.bind fun a _ => ok (f a)

/-- Both ways out of a check. -/
theorem ite {c : Prop} [Decidable c] (h : c → Outlasts short r r') (h' : ¬ c → Outlasts short x x') :
    Outlasts short (if c then r else x) (if c then r' else x') := by
  by_cases hc : c
  · rw [if_pos hc, if_pos hc]
    exact h hc
  · rw [if_neg hc, if_neg hc]
    exact h' hc

/-- A step for each element of a list. -/
theorem mapM {γ : Type} {f f' : γ → Except ParseError α} {xs : List γ}
    (h : ∀ x ∈ xs, Outlasts short (f x) (f' x)) : Outlasts short (xs.mapM f) (xs.mapM f') := by
  induction xs with
  | nil => exact ok []
  | cons x xs ih =>
    obtain ⟨hfirst, hrest⟩ := List.forall_mem_cons.1 h
    rw [List.mapM_cons, List.mapM_cons]
    exact hfirst.bind fun a _ => (ih hrest).map (a :: ·)

end Outlasts

/-! ## Splits -/

section Splits

variable {κ : Type} (delimiters : List (Delimiter κ)) (lone : List Char)

/-- No scan counts levels. -/
theorem Split.scan_not_tooDeep (whole : Segment) (index : Nat) (stack : List (Bracket × Nat))
    (skip : Nat) (text : List Char) :
    FailsOnly (fun e => ∀ limit position, e ≠ .tooDeep limit position)
      (Split.scan delimiters lone whole index stack skip text) := by
  fun_induction Split.scan delimiters lone whole index stack skip text with
  | case1 => exact .ok _
  | case2 | case5 | case7 | case10 => exact .error (by rintro _ _ ⟨⟩)
  | case3 _ _ _ _ _ ih => exact ih
  | case4 _ _ _ _ _ _ ih | case6 _ _ _ _ _ _ _ _ ih | case8 _ _ _ _ _ _ _ ih
  | case9 _ _ _ _ _ _ _ _ ih | case11 _ _ _ _ _ _ _ ih => exact ih.bind fun _ => .ok _

/-- Cutting a text does not go deeper. -/
theorem Segment.split_not_tooDeep (s : Segment) :
    FailsOnly (fun e => ∀ limit position, e ≠ .tooDeep limit position)
      (s.split delimiters lone) := by
  refine (Split.scan_not_tooDeep delimiters lone s 0 [] 0 s.text).bind fun ⟨part, rest⟩ => ?_
  dsimp only
  split
  · exact .error (by rintro _ _ ⟨⟩)
  · exact .ok _

end Splits

/-! ## Pieces that are shorter -/

namespace Segment

open Syntax Grammar

variable {s : Segment}

/-- What stands inside brackets is shorter than what has them. -/
theorem length_inner_lt (s : Segment) (hne : s.text ≠ []) :
    s.inner.text.length < s.text.length := by
  have hpos := List.length_pos_iff.2 hne
  rw [inner, List.length_dropLast, List.length_tail]
  omega

/-- What stands inside the brackets behind a name is shorter than what begins with the name. -/
theorem length_inside_lt {n : Nat} (hne : (s.drop n).text ≠ []) :
    (s.drop n).inner.text.length < s.text.length :=
  Nat.lt_of_lt_of_le (length_inner_lt _ hne) (List.drop_suffix n s.text).length_le

/-- What stands behind the name of a function is shorter than what begins with the name. -/
theorem length_behind_lt (f : UnaryOp) (hne : s.text ≠ []) :
    (s.drop f.name.length).text.length < s.text.length := by
  have hpos := List.length_pos_iff.2 hne
  have hname := function_name_length_pos f
  rw [String.length_toList] at hname
  rw [drop, List.length_drop]
  omega

end Segment

/-! ## Passes -/

namespace Syntax

open Grammar

variable {lang : Language} {short : Prop} {n : Nat} {s : Segment}
  {read read' : Segment → Parsed}

/-- Parts that outlast a limit are joined to a tree that does. -/
theorem outlasts_foldLeft {first : Expr Float} {rest : List (Delimiter BinaryOp × Segment)}
    (hread : ∀ x ∈ rest, Outlasts short (read x.2) (read' x.2)) :
    Outlasts short (foldLeft read first rest) (foldLeft read' first rest) := by
  induction rest generalizing first with
  | nil => exact .ok first
  | cons x rest ih =>
    obtain ⟨hpart, hrest⟩ := List.forall_mem_cons.1 hread
    unfold foldLeft
    rw [List.foldlM_cons, List.foldlM_cons]
    exact (hpart.map _).bind fun left _ => ih hrest

/-- The parts of a split are compared, as they are not longer than the text. -/
theorem outlasts_parts (level : Level)
    (hread : ∀ part, part.text.length ≤ n → Outlasts short (read part) (read' part))
    (hlength : s.text.length ≤ n) {parts : Split BinaryOp}
    (hparts : s.split level.delimiters level.lone = .ok parts) :
    Outlasts short (read parts.first) (read' parts.first) ∧
      ∀ x ∈ parts.rest, Outlasts short (read x.2) (read' x.2) := by
  have hpart (part : Segment) (h : part ∈ parts.parts) : Outlasts short (read part) (read' part) :=
    hread part ((Segment.length_le_of_split (fun d hd => spelling_ne_nil hd) hparts part h).trans
      hlength)
  obtain ⟨hfirst, hrest⟩ := List.forall_mem_cons.1 hpart
  exact ⟨hfirst, List.forall_mem_map.1 hrest⟩

/-- A pass outlasts a limit if the next pass does. -/
theorem outlasts_readSplit (level : Level)
    (hread : ∀ part, part.text.length ≤ n → Outlasts short (read part) (read' part))
    (hlength : s.text.length ≤ n) :
    Outlasts short (readSplit level.delimiters level.lone read s)
      (readSplit level.delimiters level.lone read' s) := by
  refine (Outlasts.same (Segment.split_not_tooDeep _ _ s)).bind fun parts hparts => ?_
  obtain ⟨hfirst, hrest⟩ := outlasts_parts level hread hlength hparts
  exact hfirst.bind fun tree _ => outlasts_foldLeft hrest

/-! ## Atoms -/

section Calls

variable {inner inner' : Segment → Parsed}
  (hinner : ∀ s, s.text.length < n → Outlasts short (inner s) (inner' s))
include hinner

/-- An argument list is compared by its arguments. -/
theorem outlasts_arguments (name : String) (hlength : s.text.length ≤ n) :
    Outlasts short (arguments lang inner name s) (arguments lang inner' name s) := by
  unfold arguments
  refine .ite (fun hlist => ?_) fun _ => .error (by rintro _ _ ⟨⟩)
  refine .ite (fun _ => .ok []) fun _ => ?_
  refine (Outlasts.same (Segment.split_not_tooDeep _ _ _)).bind fun parts hparts => .mapM ?_
  have hinside : (s.drop name.length).inner.text.length < n :=
    Nat.lt_of_lt_of_le (Segment.length_inside_lt (ne_nil_of_isWrapped hlist.2)) hlength
  intro part hpart
  exact hinner part (Nat.lt_of_le_of_lt
    (Segment.length_le_of_split (argument_spelling_ne_nil lang) hparts part hpart) hinside)

/-- A call of a builtin function is compared by its arguments. -/
theorem outlasts_builtinCall (f : Builtin) (hlength : s.text.length ≤ n) :
    Outlasts short (builtinCall lang inner f s) (builtinCall lang inner' f s) := by
  refine (outlasts_arguments hinner f.name hlength).bind fun args _ => ?_
  refine .ite (fun _ => .error (by rintro _ _ ⟨⟩)) fun _ => ?_
  exact .ite (fun _ => .error (by rintro _ _ ⟨⟩)) fun _ => .ok _

/-- A call of a user-defined function is compared by its arguments. -/
theorem outlasts_userCall (d : Definition (Expr Float)) (hlength : s.text.length ≤ n) :
    Outlasts short (userCall lang inner d s) (userCall lang inner' d s) := by
  refine (outlasts_arguments hinner d.name hlength).bind fun args _ => ?_
  exact .ite (fun _ => .error (by rintro _ _ ⟨⟩)) fun _ => .ok _

end Calls

/-- No number literal is nested. -/
theorem number_not_tooDeep (s : Segment) :
    FailsOnly (fun e => ∀ limit position, e ≠ .tooDeep limit position) (number lang s) := by
  unfold number
  dsimp only
  split
  · exact .ok _
  · exact .error (by rintro _ _ ⟨⟩)
  · exact .error (by rintro _ _ ⟨⟩)

section Passes

variable {inner inner' : Nat → Segment → Parsed}
  (hinner : ∀ pending s, s.text.length < n → Outlasts short (inner pending s) (inner' pending s))
include hinner

/-- What stands inside an atom, behind a bracket or a name, is shorter than the atom. -/
theorem outlasts_atom {pending : Nat} (hlength : s.text.length ≤ n) :
    Outlasts short (atom lang inner pending s) (atom lang inner' pending s) := by
  unfold atom
  refine .ite (fun _ => .error (by rintro _ _ ⟨⟩)) fun hne => ?_
  have hne : s.text ≠ [] := fun hnil => hne (List.isEmpty_iff.2 hnil)
  refine .ite (fun _ => hinner _ s.inner (Nat.lt_of_lt_of_le (s.length_inner_lt hne) hlength))
    fun _ => ?_
  cases UnaryOp.match? s.text with
  | some found =>
    obtain ⟨f, rest⟩ := found
    refine .ite (fun _ => .error (by rintro _ _ ⟨⟩)) fun _ => (hinner _ _ ?_).map _
    exact Nat.lt_of_lt_of_le (Segment.length_behind_lt f hne) hlength
  | none =>
    cases Builtin.match? s.text with
    | some f => exact outlasts_builtinCall (hinner _) f hlength
    | none =>
      cases lang.registry.lookup? s.text with
      | some d => exact outlasts_userCall (hinner _) d hlength
      | none =>
        cases constant? s.text with
        | some v => exact .ok _
        | none => exact .ite (fun _ => .ok _) fun _ => .same (number_not_tooDeep s)

/-! ## Formulas -/

/-- Two readings of a product are compared by its atoms. -/
theorem outlasts_product {pending : Nat} (hlength : s.text.length ≤ n) :
    Outlasts short (product lang inner pending s) (product lang inner' pending s) :=
  outlasts_readSplit .product
    (fun _ h => outlasts_readSplit .power (fun _ h => outlasts_atom hinner h) h) hlength

/-- Two readings of a sum are compared by its terms, whether or not a minus sign stands in front. -/
theorem outlasts_sum {pending : Nat} (hlength : s.text.length ≤ n) :
    Outlasts short (sum lang inner pending s) (sum lang inner' pending s) := by
  refine (Outlasts.same (Segment.split_not_tooDeep _ _ s)).bind fun parts hparts => ?_
  have hproduct (pending : Nat) (part : Segment) (h : part.text.length ≤ n) :
      Outlasts short (product lang inner pending part) (product lang inner' pending part) :=
    outlasts_product hinner h
  obtain ⟨hfirst, hrest⟩ := outlasts_parts .sum (hproduct (pending + 3)) hlength hparts
  have hnegated := (outlasts_parts .sum (hproduct (pending + 1)) hlength hparts).2
  obtain ⟨first, rest⟩ := parts
  rcases first with ⟨_ | ⟨c, cs⟩, offset⟩ <;> rcases rest with _ | ⟨⟨d, part⟩, rest⟩
  case nil.cons =>
    -- the minus sign in front of the first term
    have hpart := (List.forall_mem_cons.1 hnegated).1
    exact hpart.bind fun tree _ => outlasts_foldLeft (List.forall_mem_cons.1 hrest).2
  all_goals exact hfirst.bind fun tree _ => outlasts_foldLeft hrest

/-- Two readings of a part of a logic formula are compared behind its `!`. -/
theorem outlasts_operand {text : List Char} {pending offset : Nat} (hlength : text.length ≤ n) :
    Outlasts short (operand lang inner pending offset text)
      (operand lang inner' pending offset text) := by
  induction text generalizing pending offset with
  | nil => exact outlasts_sum hinner hlength
  | cons c cs ih =>
    rw [operand, operand]
    refine .ite (fun _ => ?_) fun _ => outlasts_sum hinner hlength
    refine .ite (fun _ => .error (by rintro _ _ ⟨⟩)) fun _ => (ih ?_).map _
    rw [List.length_cons] at hlength
    omega

end Passes

/-- The limit of nesting is nothing to the operands of a formula. -/
theorem operand_limited (lang : Language) (depth : Int) (inner : Nat → Segment → Parsed)
    (pending offset : Nat) (text : List Char) :
    operand (lang.limited depth) inner pending offset text =
      operand lang inner pending offset text := by
  induction text generalizing pending offset with
  | nil => rfl
  | cons c cs ih =>
    rw [operand, operand, ih]
    rfl

/-- A reading with more levels comes to the same, unless the first one runs out of levels, which
takes at least as many characters. -/
theorem outlasts_formula (lang : Language) (depth depth' : Int) {levels levels' : Nat}
    (hlevels : levels ≤ levels') (pending : Nat) (s : Segment) :
    Outlasts (levels ≤ s.text.length) (formula (lang.limited depth) levels pending s)
      (formula (lang.limited depth') levels' pending s) := by
  induction levels generalizing levels' pending s with
  | zero => exact .inl ⟨Nat.zero_le _, depth, s.offset, rfl⟩
  | succ levels ih =>
    obtain ⟨levels', rfl⟩ : ∃ n, levels' = n + 1 := ⟨levels' - 1, by omega⟩
    have hinner (pending : Nat) (inside : Segment) (hinside : inside.text.length < s.text.length) :
        Outlasts (levels + 1 ≤ s.text.length)
          (formula (lang.limited depth) levels pending inside)
          (formula (lang.limited depth') levels' pending inside) :=
      (ih (Nat.le_of_succ_le_succ hlevels) pending inside).imp fun hshort => by omega
    unfold formula
    simp only [operand_limited]
    refine .ite (fun _ => .error (by rintro _ _ ⟨⟩)) fun _ => ?_
    exact outlasts_readSplit .logic (fun _ h => outlasts_operand hinner h) (Nat.le_refl _)

end Syntax

namespace Language

/-- With a higher limit of nesting a text is read as the same tree or refused with the same error,
unless it was nested too deeply before. That never happens if the limit is at least the length of
the text without blanks. -/
theorem parse_limited (lang : Language) (text : String) {depth depth' : Int} (h : depth ≤ depth') :
    (¬ TooDeep ((lang.limited depth).parse text) →
        (lang.limited depth').parse text = (lang.limited depth).parse text) ∧
      ((Text.compact text.toList).length ≤ depth → ¬ TooDeep ((lang.limited depth).parse text)) := by
  unfold parse
  cases Text.compact text.toList with
  | nil => exact ⟨fun _ => rfl, fun _ => not_tooDeep_iff.2 (.error (by rintro _ _ ⟨⟩))⟩
  | cons c cs =>
    have hlevels : (lang.limited depth).levels ≤ (lang.limited depth').levels := by
      dsimp only [levels]
      omega
    have hreadings := Syntax.outlasts_formula lang depth depth' hlevels 0 ⟨c :: cs, 0⟩
    refine ⟨fun hdeep => ?_, fun hlength => ?_⟩
    · rcases hreadings with ⟨-, htooDeep⟩ | ⟨-, hsame⟩
      · exact absurd htooDeep hdeep
      · exact hsame
    · rcases hreadings with ⟨hshort, -⟩ | ⟨hdeep, -⟩
      · dsimp only [levels] at hshort
        omega
      · exact hdeep

/-- One pair of brackets is too deep for the limit 0, but not for the length of the text. -/
theorem parse_limited_bracketed :
    TooDeep ((({} : Language).limited 0).parse "( x )") ∧
      ¬ TooDeep ((({} : Language).limited 3).parse "( x )") ∧
      (({} : Language).limited 100).parse "( x )" = (({} : Language).limited 3).parse "( x )" := by
  have hlimit : (Text.compact "( x )".toList).length ≤ (3 : Int) := by decide
  obtain ⟨hsame, hroom⟩ := @parse_limited {} "( x )" 3 100 (by decide)
  exact ⟨⟨0, 1, by rfl⟩, hroom hlimit, hsame (hroom hlimit)⟩

end Language

end Formulary
