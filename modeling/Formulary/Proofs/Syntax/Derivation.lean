import Formulary.Proofs.Syntax.Literals
import Formulary.Proofs.Syntax.Names

/-!
# Derivable texts

What a text looks like if it derives a tree. An atom is not empty, has matching brackets and no
operator outside them, and does not end in `!`; so are the texts of the looser levels, up to the
operators of their own level. In the other direction, a formula without operators outside brackets
is an atom behind any number of `!`.

Both rest on one induction over the length of the text, as each sort of atom holds shorter texts
only.
-/

namespace Formulary

open Split Text

namespace Level

/-- The operators of a level are no marks of the looser ones. -/
theorem notMem_before_of_mem_symbol {op : BinaryOp} {c : Char} (h : c ∈ op.symbol.toList) :
    c ∉ op.level.before := by
  cases op <;> revert c <;> decide

/-- Every operator is written with a mark of its level. -/
theorem exists_mem_marks (op : BinaryOp) : ∃ c ∈ op.symbol.toList, c ∈ op.level.marks := by
  cases op <;> decide

/-- The characters that a looser level is cut at are those of operators. -/
theorem mem_operatorCharacters_of_mem_before {level : Level} {c : Char} (h : c ∈ level.before) :
    c ∈ operatorCharacters := by
  cases level <;> revert c <;> decide

/-- A lowercase word contains no operator. -/
theorem isLowercase_clear {s marks : List Char} (h : s.all Syntax.isLowercase = true)
    (hmarks : ∀ c ∈ marks, c ∈ operatorCharacters) : Clear marks s := by
  refine Closes.of_forall fun c hc => ?_
  have hlow := List.all_eq_true.1 h c hc
  exact ⟨Syntax.not_isBracket_of_isLowercase hlow,
    fun hm => Syntax.not_operator_of_isLowercase hlow (hmarks c hm)⟩

end Level

namespace Grammar

variable {lang : Language} {level : Level} {Part : List Char → Expr Float → Prop}
  {s : List Char} {t : Expr Float}

/-- A text that a pass can find as one of its parts. -/
structure IsToken (marks s : List Char) : Prop extends IsPart marks s where
  ne_nil : s ≠ []

/-- What no operator cuts is not cut by fewer of them. -/
theorem IsToken.mono {marks marks' : List Char} (h : IsToken marks s)
    (hsub : ∀ c ∈ marks', c ∈ marks) : IsToken marks' s :=
  ⟨⟨h.clear.mono hsub, fun heq => h.bang (hsub _ heq)⟩, h.ne_nil⟩

/-- Parts joined by operators are a token of the looser levels. -/
theorem Joined.isToken (h : Joined level Part s t)
    (hpart : ∀ u v, u.length ≤ s.length → Part u v → IsToken (level.before ++ level.marks) u) :
    IsToken level.before s := by
  induction h with
  | part h => exact (hpart _ _ (Nat.le_refl _) h).mono (by simp +contextual)
  | @minus s t hlevel h =>
    have hs : IsToken level.before s := (hpart s t (by simp) h).mono (by simp +contextual)
    subst hlevel
    -- the sign is a mark of its own level only
    refine ⟨⟨.outside (by decide) (by decide) hs.clear, fun heq => ?_⟩, by simp⟩
    rw [List.getLast?_cons_of_ne_nil hs.ne_nil]
    exact hs.bang heq
  | @join l r a b op hop hl hr ih =>
    have hl := ih fun u v hu => hpart u v (by simp; omega)
    have hr : IsToken level.before r :=
      (hpart r b (by simp; omega) hr).mono (by simp +contextual)
    subst hop
    have hop : Clear op.level.before op.symbol.toList := Closes.of_forall fun c hc =>
      ⟨Level.isBracket_of_mem_symbol hc, Level.notMem_before_of_mem_symbol hc⟩
    refine ⟨⟨(hl.clear.append hop).append hr.clear, fun heq => ?_⟩, by simp [hl.ne_nil]⟩
    rw [List.getLast?_append_of_ne_nil _ hr.ne_nil]
    exact hr.bang heq

/-- A part with `!` in front is a token as well. -/
theorem Negated.isToken {marks : List Char} (h : Negated Part s t) (hmarks : '!' ∉ marks)
    (hpart : ∀ u v, u.length ≤ s.length → Part u v → IsToken marks u) : IsToken marks s := by
  induction h with
  | part _ h => exact hpart _ _ (Nat.le_refl _) h
  | @not s t h ih =>
    have hs := ih fun u v hu => hpart u v (by simp; omega)
    refine ⟨⟨.outside (by decide) hmarks hs.clear, fun heq => ?_⟩, by simp⟩
    rw [List.getLast?_cons_of_ne_nil hs.ne_nil]
    exact hs.bang heq

section Tokens

variable {A : List Char → Expr Float → Prop}
  (hA : ∀ u v, u.length ≤ s.length → A u v → IsToken Level.atom.before u)

include hA

/-- No looser operator cuts a power. -/
theorem Power.isToken (h : Power A s t) : IsToken Level.power.before s := Joined.isToken h hA

/-- No looser operator cuts a product. -/
theorem Product.isToken (h : Product A s t) : IsToken Level.product.before s :=
  Joined.isToken h fun u v hu hp => Power.isToken (fun u' v' hu' => hA u' v' (by omega)) hp

/-- No looser operator cuts a sum. -/
theorem Sum.isToken (h : Sum A s t) : IsToken Level.sum.before s :=
  Joined.isToken h fun u v hu hp => Product.isToken (fun u' v' hu' => hA u' v' (by omega)) hp

/-- No logic operator cuts an operand. -/
theorem Operand.isToken (h : Operand A s t) : IsToken Level.sum.before s :=
  Negated.isToken h (by decide) fun u v hu hp =>
    Sum.isToken (fun u' v' hu' => hA u' v' (by omega)) hp

/-- A formula has balanced brackets. -/
theorem Logic.isToken (h : Logic A s t) : IsToken [] s :=
  Joined.isToken h fun u v hu hp => Operand.isToken (fun u' v' hu' => hA u' v' (by omega)) hp

end Tokens

/-! ## Atoms -/

/-- A text that does not begin with a bracket is not wrapped. -/
theorem not_wrapped_of_head {c : Char} (hc : Bracket.isBracket c = false) : ¬ Wrapped (c :: s) := by
  rintro ⟨b, inner, -, h⟩
  obtain ⟨rfl, -⟩ := List.cons.inj h
  cases b <;> exact absurd hc (by decide)

/-- An argument list is balanced. -/
theorem Separated.balanced {texts : List (List Char)}
    (hargument : lang.format.HasPlainArgument) (h : Separated lang texts) :
    Balanced (lang.format.argument.intercalate texts) := by
  obtain ⟨c, hc, hplain⟩ := hargument
  have hmark : Balanced lang.format.argument := by
    rw [hc]
    exact .outside hplain.not_bracket (by simp) .nil
  induction texts with
  | nil => exact .nil
  | cons s texts ih =>
    have hs : Balanced s := (h s (by simp)).balanced
    by_cases htexts : texts = []
    · simpa [htexts] using hs
    · rw [List.intercalate_cons_of_ne_nil htexts]
      exact (hs.append hmark).append (ih fun u hu => h u (by simp [hu]))

/-- A name, and its arguments in round brackets. -/
theorem argumentList_eq (name : String) (texts : List (List Char)) :
    argumentList lang name texts = name.toList ++
      (Bracket.round.opening :: lang.format.argument.intercalate texts ++
        [Bracket.round.closing]) := by
  simp [argumentList, Bracket.opening, Bracket.closing]

/-- No name of a function contains an operator, but for `!`. -/
theorem function_name_clear {f : UnaryOp} (hf : f ≠ .not) :
    Clear Level.atom.before f.name.toList := by
  refine Closes.of_forall ?_
  revert hf
  cases f <;> decide

/-- No name of a function is empty. -/
theorem function_name_length_pos (f : UnaryOp) : 0 < f.name.toList.length := by
  cases f <;> decide

/-- No name of a builtin function contains an operator. -/
theorem builtin_name_clear {f : Builtin} (hf : f ∈ Builtin.all) :
    Clear Level.atom.before f.name.toList := by
  refine Closes.of_forall ?_
  revert f
  decide

/-- A lowercase word is a token. -/
theorem isToken_of_isName (h : Syntax.isName s = true) : IsToken Level.atom.before s := by
  simp only [Syntax.isName, Bool.and_eq_true, Bool.not_eq_true', List.isEmpty_eq_false_iff] at h
  refine ⟨⟨Level.isLowercase_clear h.2 fun c => Level.mem_operatorCharacters_of_mem_before, ?_⟩, h.1⟩
  rintro - hbang
  have := List.all_eq_true.1 h.2 _ (List.mem_of_getLast? hbang)
  exact absurd this (by decide)

/-- A number literal is a token. -/
theorem isToken_of_read {x : Float} (hmarks : lang.format.HasPlainMarks) (hbare : Bare s)
    (hx : lang.format.read s = .ok x) : IsToken Level.atom.before s := by
  obtain ⟨c, hc, hlast⟩ := NumberFormat.getLast?_of_read hx
  refine ⟨⟨hbare, fun _ hbang => ?_⟩, by rintro rfl; simp at hc⟩
  obtain rfl : c = '!' := by simpa [hc] using hbang
  rcases hlast with hdigit | hdecimal
  · exact absurd hdigit (by decide)
  · exact hmarks.decimal.not_operator (hdecimal ▸ by decide)

/-- Atoms are tokens of every level. -/
theorem Atom.isToken (hmarks : lang.format.HasPlainMarks) (h : Atom lang s t) :
    IsToken Level.atom.before s := by
  induction hn : s.length using Nat.strong_induction_on generalizing s t with
  | _ n ih =>
    subst hn
    cases h with
    | @wrapped s t b h =>
      have hs := Logic.isToken (fun u v hu hA => ih u.length (by simp; omega) hA rfl)
        (formula_iff.1 h)
      refine ⟨⟨hs.clear.bracketed b, fun _ => ?_⟩, by simp⟩
      rw [List.getLast?_concat]
      cases b <;> decide
    | @function s t f hname h =>
      have hlength := function_name_length_pos f
      have hs := Negated.isToken h (by decide) fun u v hu hA =>
        ih u.length (by rw [List.length_append]; omega) hA rfl
      refine ⟨⟨(function_name_clear hname.ne_not).append hs.clear, fun heq => ?_⟩,
        by simp [hs.ne_nil]⟩
      rw [List.getLast?_append_of_ne_nil _ hs.ne_nil]
      exact hs.bang heq
    | @builtin texts args f hf hseparated hargs harity hloop =>
      rw [argumentList_eq]
      refine ⟨⟨(builtin_name_clear hf).append ((hseparated.balanced hmarks.argument).bracketed .round),
        fun _ => ?_⟩, by simp⟩
      rw [← List.append_assoc, List.getLast?_concat]
      decide
    | @apply texts args d hwrapped hfunction hbuiltin hd hbare hseparated hargs harity =>
      -- nothing is known of the name here, so that the rule itself says that the call is bare
      refine ⟨⟨hbare, fun _ => ?_⟩, by simp [argumentList]⟩
      rw [argumentList, List.getLast?_concat]
      decide
    | constant hs hv => exact isToken_of_isName (Syntax.isName_of_constant? hv)
    | «variable» hs hconstant hname => exact isToken_of_isName hname
    | number hs hbare hx => exact isToken_of_read hmarks hbare hx
    | @imaginary s x hs hbare hx =>
      have := isToken_of_read hmarks hbare hx
      refine ⟨⟨this.clear.append (.outside (by decide) (by decide) .nil), fun _ => ?_⟩, by simp⟩
      rw [List.getLast?_concat]
      decide

/-- Formulas are tokens as well; they may hold operators outside brackets. -/
theorem Formula.isToken (hmarks : lang.format.HasPlainMarks) (h : Formula lang s t) :
    IsToken [] s :=
  Logic.isToken (fun _ _ _ hA => hA.isToken hmarks) (formula_iff.1 h)

/-! ## Formulas without operators outside brackets -/

/-- Without an operator of its level, a joined text is a single part. -/
theorem Joined.part_of_clear (h : Joined level Part s t) (hs : Clear level.marks s)
    (hpart : ∀ u v, u.length ≤ s.length → Part u v → IsToken (level.before ++ level.marks) u) :
    Part s t := by
  cases h with
  | part h => exact h
  | minus hlevel h =>
    subst hlevel
    exact absurd (by decide) (hs.head_notMem (c := '-') (by decide))
  | @join l r a b op hop hl hr =>
    subst hop
    rw [List.append_assoc] at hs
    have hl : IsToken op.level.before l := hl.isToken fun u v hu => hpart u v (by simp; omega)
    have hright := (hs.split hl.clear.balanced).2
    have hbracket : ∀ c ∈ op.symbol.toList, Bracket.isBracket c = false :=
      fun c => Level.isBracket_of_mem_symbol
    have hbalanced : Balanced op.symbol.toList :=
      Closes.of_forall fun c hc => ⟨hbracket c hc, by simp⟩
    have hsymbol := (hright.split hbalanced).1
    -- the operator stands outside brackets and is written with a mark
    obtain ⟨c, hc, hmark⟩ := Level.exists_mem_marks op
    exact absurd (by simpa using hmark) (hsymbol.notMem hbracket c hc)

/-- Without operators outside brackets, a formula is an atom with any number of `!` in front. -/
theorem Logic.negated_of_bare {A : List Char → Expr Float → Prop}
    (hA : ∀ u v, A u v → IsToken Level.atom.before u) (h : Logic A s t) (hs : Bare s) :
    Negated A s t := by
  have hoperand : Operand A s t :=
    h.part_of_clear (hs.mono (by decide)) fun u v hu hp => Operand.isToken (fun u' v' _ => hA u' v') hp
  clear h
  -- each pass from here on has a single part, and `!` is all that there can be in front
  induction hoperand with
  | @part s t hbang h =>
    refine .part hbang ?_
    have hproduct : Product A s t := h.part_of_clear (hs.mono (by decide))
      fun u v _ hp => Product.isToken (fun u' v' _ => hA u' v') hp
    have hpower : Power A s t := hproduct.part_of_clear (hs.mono (by decide))
      fun u v _ hp => Power.isToken (fun u' v' _ => hA u' v') hp
    exact hpower.part_of_clear (hs.mono (by decide)) fun u v _ => hA u v
  | @not s t h ih => exact .not (ih (hs.tail (by decide)))

/-- An atom with any number of `!` in front is a formula. -/
theorem Logic.of_negated {A : List Char → Expr Float → Prop} (h : Negated A s t) : Logic A s t := by
  refine .part ?_
  induction h with
  | part hbang h => exact .part hbang (.part (.part (.part h)))
  | not _ ih => exact .not ih

end Grammar

end Formulary
