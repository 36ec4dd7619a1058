import Formulary.Proofs.Syntax.Position
import Formulary.Proofs.Syntax.Readings

/-!
# The same text in another place

A text that is read as a tree is read as the same tree wherever it stands in a formula, with any
limit of nesting that its length does not reach, and with no bound on pending calls
(`rereads_formula`).

The two readings cut their texts in the same places, so only the offsets of the parts differ, and no
tree depends on an offset. The induction is on the levels of the first reading; a level uses up at
least one character, so the length of the text bounds the levels that the second one needs.
-/

namespace Formulary

/-- The language with another limit of nesting, and with no bound on pending calls. -/
abbrev Language.allowing (lang : Language) (depth : Int) : Language :=
  { lang with maxDepth := depth, maxPending := none }

/-! ## Splits -/

open Split

section Splits

variable {κ : Type} {delimiters : List (Delimiter κ)} {lone text : List Char} {offset : Nat}
  {parts : Split κ}

/-- A text is split into the same texts elsewhere. -/
theorem Segment.split_moved (hspelling : ∀ d ∈ delimiters, d.spelling ≠ [])
    (h : Segment.split delimiters lone ⟨text, offset⟩ = .ok parts) (offset' : Nat) :
    ∃ parts', Segment.split delimiters lone ⟨text, offset'⟩ = .ok parts' ∧
      parts'.first.text = parts.first.text ∧ texts parts'.rest = texts parts.rest := by
  obtain ⟨hcut, hclear, -, -, hmissing⟩ := (Segment.split_eq_ok_iff hspelling).1 h
  refine ⟨_, Segment.split_of_isCut (s := ⟨text, offset'⟩) hcut ?_ ?_, rfl, texts_placed _ _⟩
  · rw [← map_text_parts]
    exact List.forall_mem_map.2 hclear
  · obtain ⟨hfirst, hrest⟩ := Split.missing?_eq_none.1 hmissing
    refine Split.missing?_eq_none.2 ⟨fun hempty => ?_, by simpa using hrest⟩
    rw [allowsEmptyFirst_iff, texts_placed, ← allowsEmptyFirst_iff]
    exact hfirst hempty

/-- No part is longer than the text. -/
theorem Segment.length_le_of_split (hspelling : ∀ d ∈ delimiters, d.spelling ≠ [])
    (h : Segment.split delimiters lone ⟨text, offset⟩ = .ok parts) :
    ∀ part ∈ parts.parts, part.text.length ≤ text.length := by
  intro part hpart
  obtain ⟨k, -, -, hprefix⟩ := Segment.split_within hspelling h part hpart
  exact hprefix.length_le.trans (List.drop_suffix k text).length_le

end Splits

/-! ## Passes -/

namespace Syntax

open Grammar

/-- What the first reading makes of a text of at most `n` characters, the second one makes of it
wherever it stands. -/
def Rereads (n : Nat) (read read' : Segment → Parsed) : Prop :=
  ∀ text offset offset' t, text.length ≤ n → read ⟨text, offset⟩ = .ok t →
    read' ⟨text, offset'⟩ = .ok t

variable {lang : Language} {n : Nat} {read read' inner inner' : Segment → Parsed}

theorem Rereads.of_text {s s' : Segment} {t : Expr Float} (h : Rereads n read read')
    (htext : s'.text = s.text) (hlength : s.text.length ≤ n) (hs : read s = .ok t) :
    read' s' = .ok t := by
  have hmoved := h s.text s.offset s'.offset t hlength hs
  rwa [← htext] at hmoved

theorem foldLeft_moved {first t : Expr Float} {rest rest' : List (Delimiter BinaryOp × Segment)}
    (hread : Rereads n read read') (htexts : texts rest' = texts rest)
    (hlength : ∀ x ∈ rest, x.2.text.length ≤ n) (h : foldLeft read first rest = .ok t) :
    foldLeft read' first rest' = .ok t := by
  induction rest generalizing first rest' with
  | nil =>
    obtain rfl : rest' = [] := by simpa [texts] using htexts
    exact h
  | cons x rest ih =>
    obtain ⟨d, part⟩ := x
    obtain ⟨⟨d', part'⟩, rest', rfl, hd, hbehind⟩ := List.map_eq_cons_iff.1 htexts
    obtain ⟨rfl, htext⟩ : d' = d ∧ part'.text = part.text := Prod.mk.inj hd
    obtain ⟨hpart, hrest⟩ := List.forall_mem_cons.1 hlength
    obtain ⟨joined, hjoined, h⟩ := bind_eq_ok.1 h
    obtain ⟨v, hv, hjoined⟩ := bind_eq_ok.1 hjoined
    have hv' : read' part' = .ok v := hread.of_text htext hpart hv
    exact bind_eq_ok.2 ⟨joined, bind_eq_ok.2 ⟨v, hv', hjoined⟩, ih hbehind hrest h⟩

theorem mapM_moved {parts parts' : List Segment} {ts : List (Expr Float)}
    (hread : Rereads n read read') (htexts : parts'.map (·.text) = parts.map (·.text))
    (hlength : ∀ part ∈ parts, part.text.length ≤ n) (h : parts.mapM read = .ok ts) :
    parts'.mapM read' = .ok ts := by
  rw [mapM_eq_ok] at h ⊢
  induction h generalizing parts' with
  | nil =>
    rw [List.map_eq_nil_iff.1 htexts]
    exact .nil
  | cons hfirst _ ih =>
    obtain ⟨part', rest', rfl, htext, hrest⟩ := List.map_eq_cons_iff.1 htexts
    obtain ⟨hpart, hparts⟩ := List.forall_mem_cons.1 hlength
    exact .cons (hread.of_text htext hpart hfirst) (ih hrest hparts)

/-- The parts of a split are read, and then joined. -/
theorem rereads_readSplit (level : Level) (hread : Rereads n read read') :
    Rereads n (readSplit level.delimiters level.lone read)
      (readSplit level.delimiters level.lone read') := by
  intro text offset offset' t hlength h
  obtain ⟨parts, hsplit, h⟩ := bind_eq_ok.1 h
  obtain ⟨first, hfirst, h⟩ := bind_eq_ok.1 h
  obtain ⟨parts', hsplit', htext, htexts⟩ :=
    Segment.split_moved (fun d hd => spelling_ne_nil hd) hsplit offset'
  have hparts (part : Segment) (hpart : part ∈ parts.parts) : part.text.length ≤ n :=
    (Segment.length_le_of_split (fun d hd => spelling_ne_nil hd) hsplit part hpart).trans hlength
  obtain ⟨hfirstLength, hrest⟩ := List.forall_mem_cons.1 hparts
  have hfirst' := hread.of_text htext hfirstLength hfirst
  exact bind_eq_ok.2 ⟨parts', hsplit', bind_eq_ok.2 ⟨first, hfirst',
    foldLeft_moved hread htexts (List.forall_mem_map.1 hrest) h⟩⟩

/-! ## Atoms -/

section Calls

variable {depth : Int} {inner inner' : Segment → Parsed} (hinner : Rereads n inner inner')

include hinner

/-- The arguments of a call are read as the same trees wherever the call stands. -/
theorem arguments_moved {name : String} {text : List Char} {offset : Nat} (offset' : Nat)
    {args : List (Expr Float)} (hlength : text.length ≤ n + 1)
    (h : arguments lang inner name ⟨text, offset⟩ = .ok args) :
    arguments (lang.allowing depth) inner' name ⟨text, offset'⟩ = .ok args := by
  obtain ⟨hlist, h⟩ := arguments_eq_ok_iff.1 h
  refine arguments_eq_ok_iff.2 ⟨hlist, h.imp_right ?_⟩
  rintro ⟨hne, parts, hsplit, hread⟩
  obtain ⟨parts', hsplit', hfirst, hrest⟩ :=
    Segment.split_moved (argument_spelling_ne_nil lang) hsplit (offset' + name.length + 1)
  have htexts : parts'.parts.map (·.text) = parts.parts.map (·.text) := by
    rw [map_text_parts, map_text_parts, hfirst, hrest]
  have hinside : ((text.drop name.length).tail.dropLast).length ≤ n := by
    rw [List.length_dropLast, List.length_tail, List.length_drop]
    omega
  have hparts (part : Segment) (hpart : part ∈ parts.parts) : part.text.length ≤ n :=
    (Segment.length_le_of_split (argument_spelling_ne_nil lang) hsplit part hpart).trans hinside
  exact ⟨hne, parts', hsplit', mapM_moved hinner htexts hparts hread⟩

/-- A call of a builtin function is read as the same tree wherever it stands. -/
theorem rereads_builtinCall (f : Builtin) :
    Rereads (n + 1) (builtinCall lang inner f) (builtinCall (lang.allowing depth) inner' f) := by
  intro text offset offset' t hlength h
  obtain ⟨args, hargs, hchecks⟩ := builtinCall_eq_ok_iff.1 h
  exact builtinCall_eq_ok_iff.2 ⟨args, arguments_moved hinner offset' hlength hargs, hchecks⟩

/-- A call of a user-defined function is read as the same tree wherever it stands. -/
theorem rereads_userCall (d : Definition (Expr Float)) :
    Rereads (n + 1) (userCall lang inner d) (userCall (lang.allowing depth) inner' d) := by
  intro text offset offset' t hlength h
  obtain ⟨args, hargs, hcheck⟩ := userCall_eq_ok_iff.1 h
  exact userCall_eq_ok_iff.2 ⟨args, arguments_moved hinner offset' hlength hargs, hcheck⟩

omit hinner in
/-- A number literal is the same number wherever it stands. -/
theorem number_moved {text : List Char} {offset : Nat} (offset' : Nat) {t : Expr Float}
    (h : number lang ⟨text, offset⟩ = .ok t) :
    number (lang.allowing depth) ⟨text, offset'⟩ = .ok t := by
  unfold number at h ⊢
  dsimp only at h ⊢
  split at h
  · next v hread =>
    rw [hread]
    exact h
  · cases h
  · cases h

end Calls

section Passes

variable {depth : Int} {inner inner' : Nat → Segment → Parsed} {pending : Nat} (pending' : Nat)
  (hinner : ∀ pending pending', Rereads n (inner pending) (inner' pending'))
include hinner

/-- What stands inside an atom is shorter than the atom. -/
theorem rereads_atom :
    Rereads (n + 1) (atom lang inner pending) (atom (lang.allowing depth) inner' pending') := by
  intro text offset offset' t hlength h
  rw [atom_eq_ok_iff] at h ⊢
  obtain ⟨hne, h⟩ := h
  refine ⟨hne, ?_⟩
  cases h with
  | wrapped h ht =>
    have hinside : text.tail.dropLast.length ≤ n := by
      rw [List.length_dropLast, List.length_tail]
      omega
    exact .wrapped h (hinner _ _ _ _ _ t hinside ht)
  | @function f rest v hwrapped h hrest hv =>
    have hname := function_name_length_pos f
    rw [String.length_toList] at hname
    have hbehind : (text.drop f.name.length).length ≤ n := by
      rw [List.length_drop]
      omega
    exact .function hwrapped h hrest (hinner _ _ _ _ _ v hbehind hv)
  | @builtin f t hwrapped hfunction h ht =>
    exact .builtin hwrapped hfunction h (rereads_builtinCall (hinner _ _) f _ _ _ t hlength ht)
  | @apply d t hwrapped hfunction hbuiltin h ht =>
    exact .apply hwrapped hfunction hbuiltin h (rereads_userCall (hinner _ _) d _ _ _ t hlength ht)
  | constant hwrapped hfunction hbuiltin hregistered h =>
    exact .constant hwrapped hfunction hbuiltin hregistered h
  | «variable» hwrapped hfunction hbuiltin hregistered hconstant h =>
    exact .variable hwrapped hfunction hbuiltin hregistered hconstant h
  | number hwrapped hfunction hbuiltin hregistered hconstant hname ht =>
    exact .number hwrapped hfunction hbuiltin hregistered hconstant hname (number_moved offset' ht)

/-! ## Formulas -/

/-- A product is read as the same tree wherever it stands. -/
theorem rereads_product :
    Rereads (n + 1) (product lang inner pending) (product (lang.allowing depth) inner' pending') :=
  rereads_readSplit .product (rereads_readSplit .power (rereads_atom _ hinner))

/-- A sum is read as the same tree wherever it stands. -/
theorem rereads_sum :
    Rereads (n + 1) (sum lang inner pending) (sum (lang.allowing depth) inner' pending') := by
  intro text offset offset' t hlength h
  obtain ⟨parts, hsplit, h⟩ := sum_eq_ok_iff.1 h
  have hspelling (d : Delimiter BinaryOp) (hd : d ∈ Level.sum.delimiters) : d.spelling ≠ [] :=
    spelling_ne_nil hd
  obtain ⟨parts', hsplit', htext, htexts⟩ := Segment.split_moved hspelling hsplit offset'
  have hproduct (pending pending' : Nat) :
      Rereads (n + 1) (product lang inner pending) (product (lang.allowing depth) inner' pending') :=
    rereads_product pending' hinner
  have hparts (part : Segment) (hpart : part ∈ parts.parts) : part.text.length ≤ n + 1 :=
    (Segment.length_le_of_split hspelling hsplit part hpart).trans hlength
  obtain ⟨hfirstLength, hrestLength⟩ := List.forall_mem_cons.1 hparts
  have hrestLength := List.forall_mem_map.1 hrestLength
  refine sum_eq_ok_iff.2 ⟨parts', hsplit', ?_⟩
  rcases h with ⟨hnil, d, part, rest, v, hcons, hv, h⟩ | ⟨hfirst, v, hv, h⟩
  · -- the minus sign in front of the first term
    rw [hcons] at htexts hrestLength
    obtain ⟨⟨d', part'⟩, rest', hcons', hd, hbehind⟩ := List.map_eq_cons_iff.1 htexts
    obtain ⟨rfl, hpart⟩ : d' = d ∧ part'.text = part.text := Prod.mk.inj hd
    obtain ⟨hpartLength, hrestLength⟩ := List.forall_mem_cons.1 hrestLength
    exact .inl ⟨htext.trans hnil, d', part', rest', v, hcons',
      (hproduct _ _).of_text hpart hpartLength hv, foldLeft_moved (hproduct _ _) hbehind hrestLength h⟩
  · have hfirst' : parts'.first.text = [] → parts'.rest = [] := by
      intro hnil
      rw [hfirst (htext ▸ hnil)] at htexts
      exact List.map_eq_nil_iff.1 htexts
    exact .inr ⟨hfirst', v, (hproduct _ _).of_text htext hfirstLength hv,
      foldLeft_moved (hproduct _ _) htexts hrestLength h⟩

/-- Without a bound on pending calls, the second reading need not know how many there are. -/
theorem operand_moved {text : List Char} {offset : Nat} (offset' : Nat) {t : Expr Float}
    (hlength : text.length ≤ n + 1) (h : operand lang inner pending offset text = .ok t) :
    operand (lang.allowing depth) inner' pending' offset' text = .ok t := by
  induction text generalizing pending offset pending' offset' t with
  | nil => exact rereads_sum _ hinner [] offset offset' t hlength h
  | cons c cs ih =>
    unfold operand at h ⊢
    split at h
    · next hc =>
      split at h
      · cases h
      · obtain ⟨v, hv, h⟩ := bind_eq_ok.1 h
        have hroom : ¬ isExhausted (lang.allowing depth) pending' = true := Bool.false_ne_true
        have hbehind : cs.length ≤ n + 1 := by
          rw [List.length_cons] at hlength
          omega
        rw [if_pos hc, if_neg hroom]
        exact bind_eq_ok.2 ⟨v, ih _ _ hbehind hv, h⟩
    · next hc =>
      rw [if_neg hc]
      exact rereads_sum _ hinner (c :: cs) offset offset' t hlength h

end Passes

/-- A formula is read as the same tree wherever it stands, with at least as many levels as it has
characters. -/
theorem rereads_formula (lang : Language) (depth : Int) (levels levels' pending pending' : Nat) :
    Rereads levels' (formula lang levels pending)
      (formula (lang.allowing depth) levels' pending') := by
  induction levels generalizing levels' pending pending' with
  | zero =>
    intro text offset offset' t _ h
    cases h
  | succ levels ih =>
    intro text offset offset' t hlength h
    unfold formula at h
    split at h
    · cases h
    · cases levels' with
      | zero =>
        -- without a character there is no operand
        obtain rfl : text = [] := List.length_eq_zero_iff.1 (Nat.le_zero.1 hlength)
        cases h
      | succ levels' =>
        have hroom : ¬ isExhausted (lang.allowing depth) pending' = true := Bool.false_ne_true
        rw [formula, if_neg hroom]
        refine rereads_readSplit .logic ?_ text offset offset' t hlength h
        exact fun text offset offset' t hlength h =>
          operand_moved _ (fun pending pending' => ih levels' pending pending') offset' hlength h

end Syntax

end Formulary
