import Formulary.Proofs.Number.Signed
import Formulary.Proofs.Syntax.Readings
import Formulary.Proofs.Syntax.WellBracketed

/-!
# Separators in texts that are read

A text that is read holds no separator of arguments outside brackets, whatever brackets, operators
and calls it consists of (`Syntax.shields_formula`): the separator is no part of an operator, a name
or a number, and an argument list stands in brackets. So such a text can be put into an argument
list, where it is not cut.
-/

open Formulary.Grammar Formulary.Split

namespace Formulary

namespace Syntax

/-! ## Parts -/

variable {lang : Language} {read : Segment → Parsed}

/-- Balanced text that is read holds no separator of arguments outside brackets. -/
def Shields (lang : Language) (read : Segment → Parsed) : Prop :=
  ∀ s t, Balanced s.text → read s = .ok t → Clear lang.format.argument s.text

theorem exists_read_of_foldLeft {first t : Expr Float} {rest : List (Delimiter BinaryOp × Segment)}
    (h : foldLeft read first rest = .ok t) : ∀ x ∈ rest, ∃ v, read x.2 = .ok v := by
  induction rest generalizing first with
  | nil => simp
  | cons x rest ih =>
    obtain ⟨joined, hjoined, h⟩ := bind_eq_ok.1 h
    obtain ⟨v, hv, -⟩ := bind_eq_ok.1 hjoined
    exact List.forall_mem_cons.2 ⟨⟨v, hv⟩, ih h⟩

variable (hargument : lang.format.HasPlainArgument)

include hargument

/-- Words that cannot be mistaken for the separator. -/
theorem clear_argument {s : List Char}
    (hs : ∀ c ∈ s, Bracket.isBracket c = false ∧ ¬ IsPlainMark c) :
    Clear lang.format.argument s := by
  obtain ⟨mark, hmark, hplain⟩ := hargument
  refine Closes.of_forall fun c hc => ⟨(hs c hc).1, fun hmem => (hs c hc).2 ?_⟩
  rw [hmark, List.mem_singleton] at hmem
  exact hmem ▸ hplain

theorem clear_symbol (op : BinaryOp) : Clear lang.format.argument op.symbol.toList := by
  refine clear_argument hargument ?_
  cases op <;> decide

theorem clear_of_isName {s : List Char} (h : isName s = true) : Clear lang.format.argument s := by
  simp only [isName, Bool.and_eq_true] at h
  refine clear_argument hargument fun c hc => ?_
  have hlower := List.all_eq_true.1 h.2 c hc
  refine ⟨not_isBracket_of_isLowercase hlower, fun hplain => ?_⟩
  have hletter := hplain.not_letter
  rw [isAlpha_of_isLowercase hlower] at hletter
  cases hletter

theorem clear_function_name (f : UnaryOp) : Clear lang.format.argument f.name.toList := by
  refine clear_argument hargument ?_
  cases f <;> decide

theorem clear_builtin_name {f : Builtin} (hf : f ∈ Builtin.all) :
    Clear lang.format.argument f.name.toList := by
  refine clear_argument hargument ?_
  revert f
  decide

/-- If the parts of a split hold no separator, the whole text holds none. -/
theorem clear_of_split (level : Level) {s : Segment} {parts : Split BinaryOp}
    (h : s.split level.delimiters level.lone = .ok parts)
    (hparts : ∀ part ∈ parts.parts, Clear lang.format.argument part.text) :
    Clear lang.format.argument s.text := by
  obtain ⟨htext, -, hrest, -⟩ :=
    Segment.split_sound (cuts_nil _ _) (fun d hd => spelling_ne_nil hd) h
  obtain ⟨hfirst, hclear⟩ := List.forall_mem_cons.1 hparts
  have hclear := List.forall_mem_map.1 hclear
  rw [htext]
  refine hfirst.append ?_
  generalize parts.rest = rest at hrest hclear
  induction rest with
  | nil => exact .nil
  | cons x rest ih =>
    obtain ⟨d, part⟩ := x
    obtain ⟨hpart, hclear⟩ := List.forall_mem_cons.1 hclear
    obtain ⟨⟨hd, -⟩, hrest⟩ := List.forall_mem_cons.1 hrest
    rw [texts_cons, spelled_cons, (Level.mem_delimiters hd).1]
    exact ((clear_symbol hargument d.tag).append hpart).append (ih hrest hclear)

/-- A pass reads all of its parts. -/
theorem shields_readSplit (level : Level) (hread : Shields lang read) :
    Shields lang (readSplit level.delimiters level.lone read) := by
  intro s t _ h
  obtain ⟨parts, hsplit, h⟩ := bind_eq_ok.1 h
  obtain ⟨first, hfirst, h⟩ := bind_eq_ok.1 h
  have hbalanced := Segment.balanced_of_mem_parts (fun d hd => spelling_ne_nil hd) hsplit
  obtain ⟨hfirstBalanced, hbalanced⟩ := List.forall_mem_cons.1 hbalanced
  refine clear_of_split hargument level hsplit (List.forall_mem_cons.2 ⟨?_, List.forall_mem_map.2 ?_⟩)
  · exact hread _ _ hfirstBalanced hfirst
  · intro x hx
    obtain ⟨v, hv⟩ := exists_read_of_foldLeft h x hx
    exact hread _ _ (List.forall_mem_map.1 hbalanced x hx) hv

/-! ## Atoms -/

/-- The separator is no character of a number. -/
theorem clear_of_read {s : List Char} {x : Float} (hs : Balanced s)
    (h : lang.format.read s = .ok x) : Clear lang.format.argument s := by
  obtain ⟨mark, hmark, hplain⟩ := hargument
  have hdigit : Text.isDecimalDigit mark = false := by
    have hmarkDigit := hplain.not_digit
    rw [Text.isDigit, Bool.or_eq_false_iff] at hmarkDigit
    exact hmarkDigit.1
  have hunsigned {s : List Char} (hs : lang.format.isUnsigned s = true) : mark ∉ s := by
    intro hmem
    rcases NumberFormat.mem_of_isUnsigned hs hmem with h | rfl | ⟨hused, rfl⟩
    · rw [hdigit] at h
      cases h
    · exact lang.format.argument_ne_decimal hmark
    · exact lang.format.argument_ne_grouping hused hmark
  have hnot : mark ∉ s := by
    have hnumber := NumberFormat.isNumber_of_read h
    unfold NumberFormat.isNumber at hnumber
    rw [Bool.or_eq_true] at hnumber
    rcases hnumber with hnumber | hnumber
    · exact hunsigned hnumber
    · cases s with
      | nil => cases hnumber
      | cons c rest =>
        rw [Bool.and_eq_true, Bool.or_eq_true, beq_iff_eq, beq_iff_eq] at hnumber
        intro hmem
        rcases List.mem_cons.1 hmem with rfl | hmem
        · rcases hnumber.1 with rfl | rfl <;> exact hplain.not_operator (by decide)
        · exact hunsigned hnumber.2 hmem
  refine hs.of_notMem fun c hc hmem => hnot ?_
  rw [hmark, List.mem_singleton] at hmem
  exact hmem ▸ hc

omit hargument in
/-- A call is a name in front of brackets. -/
theorem clear_of_arguments {inner : Segment → Parsed} {name : String} {s : Segment}
    {args : List (Expr Float)} (hname : Clear lang.format.argument name.toList)
    (hstarts : name.toList <+: s.text)
    (hs : Balanced s.text) (h : arguments lang inner name s = .ok args) :
    Clear lang.format.argument s.text := by
  obtain ⟨list, hlist⟩ := hstarts
  obtain ⟨hlead, -⟩ := arguments_eq_ok_iff.1 h
  rw [Segment.text_drop_name hlist] at hlead
  rw [← hlist] at hs ⊢
  obtain ⟨stack, hclose⟩ := hs.suffix
  obtain ⟨body, hbody, rfl⟩ := exists_inner_of_isWrapped hclose hlead.1 hlead.2
  exact hname.append (hbody.bracketed .round)

variable (hnames : ∀ d ∈ lang.registry.definitions, isName d.name.toList = true)
  {inner : Nat → Segment → Parsed} (hinner : ∀ pending, Shields lang (inner pending))

include hnames hinner

/-- An atom that is read is a name, a number, or something between brackets. -/
theorem shields_atom (pending : Nat) : Shields lang (atom lang inner pending) := by
  intro s t hs h
  rw [atom_eq_ok_iff] at h
  obtain ⟨-, h⟩ := h
  cases h with
  | wrapped h _ =>
    obtain ⟨b, body, hbody, htext⟩ := (isWrapped_iff hs).1 h
    rw [htext]
    exact hbody.bracketed b
  | @function f rest v _ h _ hv =>
    obtain ⟨list, hlist⟩ := (UnaryOp.longestName_of_match? h).1.starts
    have hdrop := Segment.text_drop_name hlist
    rw [← hlist] at hs ⊢
    have hbehind := hinner _ _ v (hdrop ▸ hs.behind function_name_plain) hv
    rw [hdrop] at hbehind
    exact (clear_function_name hargument f).append hbehind
  | builtin _ _ h ht =>
    obtain ⟨hmem, hstarts⟩ := Builtin.match?_eq_some.1 h
    obtain ⟨args, hargs, -⟩ := builtinCall_eq_ok_iff.1 ht
    exact clear_of_arguments (clear_builtin_name hargument hmem)
      ((List.prefix_append _ _).trans hstarts) hs hargs
  | @apply d _ _ _ _ h ht =>
    obtain ⟨args, hargs, -⟩ := userCall_eq_ok_iff.1 ht
    have hname := hnames d (List.mem_of_find?_eq_some h)
    have hstarts : d.name.toList <+: s.text := by simpa using List.find?_some h
    exact clear_of_arguments (clear_of_isName hargument hname) hstarts hs hargs
  | constant _ _ _ _ h => exact clear_of_isName hargument (isName_of_constant? h)
  | «variable» _ _ _ _ _ h => exact clear_of_isName hargument h
  | number _ _ _ _ _ _ ht =>
    rcases number_eq_ok ht with ⟨text, x, htext, hx, -⟩ | ⟨x, hx, -⟩
    · rw [htext] at hs ⊢
      have hi : Clear lang.format.argument ['i'] := clear_of_isName hargument (by decide)
      exact (clear_of_read hargument (hs.init (by decide)) hx).append hi
    · exact clear_of_read hargument hs hx

/-! ## Formulas -/

/-- A product holds no separator outside brackets, as its atoms hold none. -/
theorem shields_product (pending : Nat) : Shields lang (product lang inner pending) :=
  shields_readSplit hargument .product
    (shields_readSplit hargument .power (shields_atom hargument hnames hinner _))

/-- A sum holds no separator outside brackets, as its terms hold none. -/
theorem shields_sum (pending : Nat) : Shields lang (sum lang inner pending) := by
  have hproduct := shields_product hargument hnames hinner
  intro s t _ h
  obtain ⟨parts, hsplit, h⟩ := sum_eq_ok_iff.1 h
  have hspelling (d : Delimiter BinaryOp) (hd : d ∈ Level.sum.delimiters) : d.spelling ≠ [] :=
    spelling_ne_nil hd
  have hbalanced := Segment.balanced_of_mem_parts hspelling hsplit
  -- all parts are read but an empty one in front of a minus sign
  have hread : ∀ part ∈ parts.parts,
      part.text = [] ∨ ∃ pending v, product lang inner pending part = .ok v := by
    rcases h with ⟨hnil, d, part, rest, v, hcons, hv, h⟩ | ⟨-, v, hv, h⟩
    · have hrest : ∀ x ∈ parts.rest, ∃ pending v, product lang inner pending x.2 = .ok v := by
        rw [hcons]
        exact List.forall_mem_cons.2 ⟨⟨_, v, hv⟩, fun x hx => ⟨_, exists_read_of_foldLeft h x hx⟩⟩
      exact List.forall_mem_cons.2 ⟨.inl hnil, List.forall_mem_map.2 fun x hx => .inr (hrest x hx)⟩
    · have hrest := exists_read_of_foldLeft h
      exact List.forall_mem_cons.2
        ⟨.inr ⟨_, v, hv⟩, List.forall_mem_map.2 fun x hx => .inr ⟨_, hrest x hx⟩⟩
  refine clear_of_split hargument .sum hsplit fun part hpart => ?_
  rcases hread part hpart with hnil | ⟨pending, v, hv⟩
  · rw [hnil]
    exact .nil
  · exact hproduct pending part v (hbalanced part hpart) hv

/-- A part of a logic formula holds no separator outside brackets. -/
theorem shields_operand {text : List Char} {pending offset : Nat}
    {t : Expr Float} (hs : Balanced text) (h : operand lang inner pending offset text = .ok t) :
    Clear lang.format.argument text := by
  induction text generalizing pending offset t with
  | nil => exact .nil
  | cons c cs ih =>
    unfold operand at h
    split at h
    · next hc =>
      subst hc
      split at h
      · cases h
      · obtain ⟨v, hv, -⟩ := bind_eq_ok.1 h
        have hbang : Clear lang.format.argument ['!'] := clear_argument hargument (by decide)
        exact hbang.append (ih (hs.tail (by decide)) hv)
    · exact shields_sum hargument hnames hinner _ ⟨c :: cs, offset⟩ t hs h

omit hinner in
/-- A formula that is read holds no separator of arguments outside brackets. -/
theorem shields_formula (levels pending : Nat) : Shields lang (formula lang levels pending) := by
  induction levels generalizing pending with
  | zero =>
    rintro s t - ⟨⟩
  | succ levels ih =>
    intro s t hs h
    unfold formula at h
    split at h
    · cases h
    · refine shields_readSplit hargument .logic (fun part v hpart hv => ?_) s t hs h
      exact shields_operand hargument hnames ih hpart hv

end Syntax

end Formulary
