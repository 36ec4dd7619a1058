import Formulary.Proofs.Syntax.Splitting
import Formulary.Syntax.Formula

/-!
# The passes

Each level of operators has a pass that cuts a formula at the operators of that level. The `marks`
of a pass are the characters that none of its parts holds outside brackets: the ones that its
operators are written with. Only `!` is no mark, as it also stands in front of an operand.

`Level.cuts`, `Level.passesOver` and `Level.recognised` are the facts about the fourteen operators
that everything else about the passes follows from.
-/

namespace Formulary

open Split

namespace Level

/-- The delimiters of the pass for a level. -/
def delimiters : Level → List (Delimiter BinaryOp)
  | logic => Syntax.logicOperators
  | sum => Syntax.sumOperators
  | product => Syntax.productOperators
  | power => Syntax.powerOperators
  | atom => []

/-- The characters that may not stand alone in the pass for a level. -/
def lone : Level → List Char
  | logic => Syntax.lone
  | _ => []

/-- The characters that no part of the pass for a level holds outside brackets. -/
def marks : Level → List Char
  | logic => ['=', '<', '>', '&', '|', '#']
  | sum => ['+', '-']
  | product => ['*', '/']
  | power => ['^']
  | atom => []

/-- The marks of the looser levels. -/
def before : Level → List Char
  | logic => []
  | sum => logic.marks
  | product => logic.marks ++ sum.marks
  | power => logic.marks ++ sum.marks ++ product.marks
  | atom => logic.marks ++ sum.marks ++ product.marks ++ power.marks

/-- The delimiter for an operator. -/
def delimiter (op : BinaryOp) : Delimiter BinaryOp := ⟨op.symbol.toList, op⟩

theorem delimiters_logic : logic.delimiters =
    [⟨['=', '='], .equal⟩, ⟨['!', '='], .notEqual⟩, ⟨['>', '='], .atLeast⟩,
      ⟨['<', '='], .atMost⟩, ⟨['&', '&'], .and⟩, ⟨['|', '|'], .or⟩, ⟨['#', '#'], .xor⟩,
      ⟨['>'], .greater⟩, ⟨['<'], .less⟩] := rfl

theorem delimiters_sum : sum.delimiters = [⟨['+'], .add⟩, ⟨['-'], .sub⟩] := rfl

theorem delimiters_product : product.delimiters = [⟨['*'], .mul⟩, ⟨['/'], .div⟩] := rfl

theorem delimiters_power : power.delimiters = [⟨['^'], .pow⟩] := rfl

theorem mem_delimiters {level : Level} {d : Delimiter BinaryOp} (h : d ∈ level.delimiters) :
    d.spelling = d.tag.symbol.toList ∧ d.tag.level = level := by
  cases level
  case logic =>
    simp only [delimiters_logic, List.mem_cons, List.not_mem_nil, or_false] at h
    rcases h with rfl | rfl | rfl | rfl | rfl | rfl | rfl | rfl | rfl <;> exact ⟨rfl, rfl⟩
  case sum =>
    simp only [delimiters_sum, List.mem_cons, List.not_mem_nil, or_false] at h
    rcases h with rfl | rfl <;> exact ⟨rfl, rfl⟩
  case product =>
    simp only [delimiters_product, List.mem_cons, List.not_mem_nil, or_false] at h
    rcases h with rfl | rfl <;> exact ⟨rfl, rfl⟩
  case power =>
    simp only [delimiters_power, List.mem_cons, List.not_mem_nil, or_false] at h
    rcases h with rfl
    exact ⟨rfl, rfl⟩
  case atom => simp [delimiters] at h

/-- No operator is written with brackets. -/
theorem isBracket_of_mem_symbol {op : BinaryOp} {c : Char} (h : c ∈ op.symbol.toList) :
    Bracket.isBracket c = false := by
  cases op <;> revert c <;> decide

theorem balanced_spelling {level : Level} {d : Delimiter BinaryOp} (h : d ∈ level.delimiters) :
    Balanced d.spelling := by
  rw [(mem_delimiters h).1]
  exact Closes.of_forall fun c hc => ⟨isBracket_of_mem_symbol hc, by simp⟩

/-- The pass for a level cuts at all of its marks. -/
theorem cuts (level : Level) : Cuts level.delimiters level.lone level.marks := by
  intro c hc text
  cases level <;> simp only [marks, List.mem_cons, List.not_mem_nil, or_false] at hc
  case logic =>
    rcases hc with rfl | rfl | rfl | rfl | rfl | rfl
    case inr.inl => exact .inr (by simp [delimiterAt?, delimiters_logic, List.isPrefixOf])
    case inr.inr.inl => exact .inr (by simp [delimiterAt?, delimiters_logic, List.isPrefixOf])
    all_goals exact .inl (by decide)
  case sum =>
    rcases hc with rfl | rfl <;>
      exact .inr (by simp [delimiterAt?, delimiters_sum, List.isPrefixOf])
  case product =>
    rcases hc with rfl | rfl <;>
      exact .inr (by simp [delimiterAt?, delimiters_product, List.isPrefixOf])
  case power =>
    rw [hc]
    exact .inr (by simp [delimiterAt?, delimiters_power, List.isPrefixOf])

theorem mem_marks_of_mem_lone {level : Level} {c : Char} (h : c ∈ level.lone) :
    c ∈ level.marks := by
  cases level <;> revert c <;> decide

/-- The pass for a level passes over everything but its marks. -/
theorem passesOver (level : Level) : PassesOver level.delimiters level.lone level.marks := by
  intro c text hc hbang
  refine ⟨?_, fun h => hc (mem_marks_of_mem_lone h)⟩
  have hne : ∀ m ∈ level.marks, m ≠ c := fun m hm h => hc (h ▸ hm)
  rw [delimiterAt?_eq_none]
  cases level <;>
    simp only [marks, List.mem_cons, List.not_mem_nil, or_false, forall_eq_or_imp, forall_eq]
      at hne
  case logic =>
    simp only [delimiters_logic, List.forall_mem_cons, List.cons_prefix_cons, hne, false_and,
      not_false_eq_true, true_and]
    refine ⟨?_, by simp⟩
    -- only `!=` begins with a character that is no mark
    rintro ⟨rfl, heq⟩
    refine hbang rfl (by decide) ?_
    cases text with
    | nil => simp at heq
    | cons d text => simpa [eq_comm] using heq
  case sum => simp [delimiters_sum, hne]
  case product => simp [delimiters_product, hne]
  case power => simp [delimiters_power, hne]
  case atom => simp [delimiters]

/-- An operator is recognised in front of a part, unless the part turns it into another one. -/
theorem recognised (op : BinaryOp) {part : List Char} (hne : part ≠ [])
    (heq : op.level = .logic → part.head? ≠ some '=') :
    Recognised op.level.delimiters (delimiter op) part := by
  obtain ⟨c, part, rfl⟩ := List.exists_cons_of_ne_nil hne
  have hc : op.level = .logic → '=' ≠ c := fun h => by simpa [eq_comm] using heq h
  constructor
  · cases op <;> exact ⟨_, _, rfl, by decide⟩
  · intro after
    cases op
    case add | sub =>
      simp [delimiterAt?, delimiter, BinaryOp.level, BinaryOp.symbol, delimiters_sum,
        List.isPrefixOf]
    case mul | div =>
      simp [delimiterAt?, delimiter, BinaryOp.level, BinaryOp.symbol, delimiters_product,
        List.isPrefixOf]
    case pow =>
      simp [delimiterAt?, delimiter, BinaryOp.level, BinaryOp.symbol, delimiters_power,
        List.isPrefixOf]
    all_goals
      simp [delimiterAt?, delimiter, BinaryOp.level, BinaryOp.symbol, delimiters_logic,
        List.isPrefixOf, hc rfl]

end Level

end Formulary
