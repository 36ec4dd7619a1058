import Formulary.Proofs.Syntax.Nesting
import Formulary.Proofs.Syntax.Readings

/-!
# What is read derives

Every text that the parser reads derives the tree that it returns, with no more levels of nesting
than the parser allows. The passes are taken one after the other: each hands on the fact that its
parts hold no mark of it, so that an atom arrives without any operator outside brackets. The
formulas inside brackets and argument lists are read with fewer levels, which is what the induction
is on.
-/

namespace Formulary

open Split Grammar

namespace Grammar

variable {lang : Language} {level : Level} {A Part : List Char → Expr Float → Prop}

/-! ## One pass -/

/-- The parts of a text that avoids some marks avoid them, and those that they avoid themselves. -/
theorem clear_parts {marks marks' first : List Char}
    {rest : List (Delimiter BinaryOp × List Char)}
    (h : Clear marks (first ++ spelled rest)) (hfirst : Clear marks' first)
    (hrest : ∀ x ∈ rest, x.1 ∈ level.delimiters ∧ Clear marks' x.2) :
    Clear (marks ++ marks') first ∧ ∀ x ∈ rest, Clear (marks ++ marks') x.2 := by
  obtain ⟨hf, hs⟩ := h.split hfirst
  refine ⟨hf, ?_⟩
  clear h hf hfirst
  induction rest with
  | nil => simp
  | cons x rest ih =>
    obtain ⟨d, part⟩ := x
    obtain ⟨hd, hpart⟩ := hrest (d, part) (by simp)
    have hspelling := Level.balanced_spelling hd
    rw [spelled_cons, List.append_assoc] at hs
    obtain ⟨hp, hrest'⟩ := (hs.split hspelling).2.split hpart
    exact List.forall_mem_cons.2 ⟨hp, ih (fun x hx => hrest x (by simp [hx])) hrest'⟩

/-- A text is balanced if its parts are. -/
theorem balanced_of_parts {marks first : List Char} {rest : List (Delimiter BinaryOp × List Char)}
    (hfirst : Clear marks first)
    (hrest : ∀ x ∈ rest, x.1 ∈ level.delimiters ∧ Clear marks x.2) :
    Balanced (first ++ spelled rest) := by
  refine hfirst.balanced.append ?_
  clear hfirst
  induction rest with
  | nil => exact .nil
  | cons x rest ih =>
    obtain ⟨d, part⟩ := x
    obtain ⟨hd, hpart⟩ := hrest (d, part) (by simp)
    have hspelling := Level.balanced_spelling hd
    rw [spelled_cons]
    exact (hspelling.append hpart.balanced).append (ih fun x hx => hrest x (by simp [hx]))

/-- Parts read one after the other are joined to what is in front of them. -/
theorem foldLeft_sound {read : Segment → Parsed} {s : List Char} {first t : Expr Float}
    {rest : List (Delimiter BinaryOp × Segment)} (hfirst : Joined level Part s first)
    (hrest : ∀ x ∈ rest, x.1 ∈ level.delimiters ∧
      ∀ v, read x.2 = .ok v → Part x.2.text v)
    (h : Syntax.foldLeft read first rest = .ok t) :
    Joined level Part (s ++ spelled (texts rest)) t := by
  induction rest generalizing s first with
  | nil =>
    cases h
    simpa using hfirst
  | cons x rest ih =>
    obtain ⟨d, part⟩ := x
    obtain ⟨hd, hpart⟩ := hrest (d, part) (by simp)
    obtain ⟨hspelling, hlevel⟩ : d.spelling = d.tag.symbol.toList ∧ d.tag.level = level :=
      Level.mem_delimiters hd
    obtain ⟨joined, hread, h⟩ := bind_eq_ok.1 h
    obtain ⟨v, hv, hjoined⟩ := bind_eq_ok.1 hread
    cases hjoined
    have := ih (.join d.tag hlevel hfirst (hpart v hv)) (fun x hx => hrest x (by simp [hx])) h
    rw [texts_cons, spelled_cons, hspelling]
    simpa using this

/-- No operator is written with nothing. -/
theorem spelling_ne_nil {d : Delimiter BinaryOp} (h : d ∈ level.delimiters) : d.spelling ≠ [] := by
  rw [(Level.mem_delimiters h).1]
  cases d.tag <;> decide

/-- What a pass reads is joined from the parts that the next one reads. -/
theorem readSplit_sound {read : Segment → Parsed} {s : Segment} {t : Expr Float}
    (hs : Clear level.before s.text)
    (hread : ∀ part v, Clear (level.before ++ level.marks) part.text → read part = .ok v →
      Part part.text v)
    (h : Syntax.readSplit level.delimiters level.lone read s = .ok t) :
    Joined level Part s.text t := by
  obtain ⟨parts, hsplit, h⟩ := bind_eq_ok.1 h
  obtain ⟨first, hfirst, h⟩ := bind_eq_ok.1 h
  obtain ⟨htext, hclear, hrest, -⟩ :=
    Segment.split_sound level.cuts (fun d hd => spelling_ne_nil hd) hsplit
  rw [htext] at hs ⊢
  obtain ⟨hf, hr⟩ := clear_parts hs hclear fun x hx => ⟨(hrest x hx).1, (hrest x hx).2.1⟩
  refine foldLeft_sound (.part (hread _ _ hf hfirst)) (fun x hx => ?_) h
  have hmem : (x.1, x.2.text) ∈ texts parts.rest := List.mem_map_of_mem hx
  exact ⟨(hrest _ hmem).1, fun v hv => hread _ _ (hr _ hmem) hv⟩

/-- The pass for sums, where the first part may be empty in front of a minus sign. -/
theorem readSum_sound {inner : Nat → Segment → Parsed} {pending : Nat} {s : Segment} {t : Expr Float}
    (hs : Clear Level.sum.before s.text)
    (hread : ∀ n part v, Clear (Level.sum.before ++ Level.sum.marks) part.text →
      Syntax.product lang inner n part = .ok v → Part part.text v)
    (h : Syntax.sum lang inner pending s = .ok t) : Joined .sum Part s.text t := by
  obtain ⟨parts, hsplit, h⟩ := Syntax.sum_eq_ok_iff.1 h
  obtain ⟨htext, hclear, hrest, hempty⟩ :=
    Segment.split_sound Level.sum.cuts (fun d hd => spelling_ne_nil hd) hsplit
  rw [htext] at hs ⊢
  obtain ⟨hf, hr⟩ := clear_parts hs hclear fun x hx => ⟨(hrest x hx).1, (hrest x hx).2.1⟩
  have hpart (n : Nat) : ∀ x ∈ parts.rest, x.1 ∈ Level.sum.delimiters ∧
      ∀ v, Syntax.product lang inner n x.2 = .ok v → Part x.2.text v := fun x hx => by
    have hmem : (x.1, x.2.text) ∈ texts parts.rest := List.mem_map_of_mem hx
    exact ⟨(hrest _ hmem).1, fun v hv => hread _ _ _ (hr _ hmem) hv⟩
  rcases h with ⟨hnil, d, part, rest, v, hcons, hv, h⟩ | ⟨-, v, hv, h⟩
  · -- an empty first part has passed the split, so a minus sign is behind it
    have hminus : d.spelling = ['-'] := by
      have := hempty hnil
      simpa [allowsEmptyFirst, hcons] using this
    rw [hcons] at hpart ⊢
    have hfirst : Joined .sum Part ('-' :: part.text) (.unary .neg v) :=
      .minus rfl ((hpart _ (d, part) (by simp)).2 v hv)
    have := foldLeft_sound hfirst (fun x hx => hpart _ x (by simp [hx])) h
    simpa [hnil, hminus] using this
  · exact foldLeft_sound (.part (hread _ _ _ hf hv)) (hpart _) h

/-! ## Argument lists -/

/-- The separator of arguments as a delimiter. -/
def argumentDelimiters (lang : Language) : List (Delimiter Unit) := [⟨lang.format.argument, ()⟩]

/-- The argument separator is written with something. -/
theorem argument_spelling_ne_nil (lang : Language) :
    ∀ d ∈ argumentDelimiters lang, d.spelling ≠ [] := by
  simpa [argumentDelimiters] using lang.format.argument_ne_nil

/-- Argument lists are cut at the argument separator. -/
theorem cuts_argument (hmarks : lang.format.HasPlainMarks) :
    Cuts (argumentDelimiters lang) [] lang.format.argument := by
  obtain ⟨c, hc, -⟩ := hmarks.argument
  intro d hd text
  rw [hc, List.mem_singleton] at hd
  subst hd
  exact .inr (by simp [argumentDelimiters, hc, delimiterAt?, List.isPrefixOf])

/-- Parts with separators between them. -/
theorem intercalate_texts (first : List Char) {rest : List (Delimiter Unit × List Char)}
    (hrest : ∀ x ∈ rest, x.1 ∈ argumentDelimiters lang) :
    first ++ spelled rest = lang.format.argument.intercalate (first :: rest.map (·.2)) := by
  induction rest generalizing first with
  | nil => simp
  | cons x rest ih =>
    obtain ⟨d, part⟩ := x
    obtain rfl : d = ⟨lang.format.argument, ()⟩ := by
      simpa [argumentDelimiters] using hrest (d, part) (by simp)
    rw [List.map_cons, List.intercalate_cons_cons, ← ih part fun x hx => hrest x (by simp [hx]),
      spelled_cons]
    simp

/-- A list of arguments that is wrapped on its own, at the end of a balanced text. -/
theorem exists_inner_of_isWrapped {marks text : List Char} {stack : List Bracket}
    (h : Closes marks stack text) (hhead : text.head? = some '(') (hw : isWrapped text = true) :
    ∃ inner, Balanced inner ∧ text = '(' :: inner ++ [')'] := by
  obtain ⟨rest, rfl⟩ := List.head?_eq_some_iff.1 hhead
  obtain ⟨inner, after, rfl, hi, -⟩ := h.partner (b := .round)
  -- being wrapped, the text ends where its first bracket is closed
  have hafter : after.isEmpty = true := (isWrapped_bracketed .round hi).symm.trans hw
  rw [List.isEmpty_iff] at hafter
  exact ⟨inner, hi, by simp [hafter, Bracket.closing]⟩

/-- Arguments that are read are those of an argument list. -/
theorem arguments_sound {inner : Segment → Parsed} {F : List Char → Expr Float → Prop}
    {name : String} {s : Segment} {args : List (Expr Float)}
    (hmarks : lang.format.HasPlainMarks) (hs : Balanced s.text) (hname : name.toList <+: s.text)
    (hinner : ∀ u v, inner u = .ok v → F u.text v)
    (h : Syntax.arguments lang inner name s = .ok args) :
    ∃ texts, s.text = argumentList lang name texts ∧ Separated lang texts ∧
      List.Forall₂ F texts args := by
  obtain ⟨list, hlist⟩ := hname
  have hdrop := Segment.text_drop_name hlist
  obtain ⟨hlead, h⟩ := Syntax.arguments_eq_ok_iff.1 h
  rw [hdrop] at hlead
  rw [← hlist] at hs ⊢
  obtain ⟨stack, hclose⟩ := hs.suffix
  obtain ⟨body, hbody, rfl⟩ := exists_inner_of_isWrapped hclose hlead.1 hlead.2
  have hinnerText : (s.drop name.length).inner.text = body := by
    simp [Segment.inner, hdrop]
  rw [hinnerText] at h
  rcases h with ⟨rfl, rfl⟩ | ⟨-, parts, hsplit, hread⟩
  · exact ⟨[], by simp [argumentList], by simp [Separated], .nil⟩
  · obtain ⟨htext, hclear, hrest, -⟩ := Segment.split_sound (cuts_argument hmarks)
      (argument_spelling_ne_nil lang) hsplit
    rw [hinnerText, intercalate_texts _ fun x hx => (hrest x hx).1] at htext
    rw [← map_text_parts] at htext
    refine ⟨parts.parts.map (·.text), by rw [htext]; simp [argumentList], ?_, ?_⟩
    · intro u hu
      rw [map_text_parts, List.mem_cons, List.mem_map] at hu
      rcases hu with rfl | ⟨x, hx, rfl⟩
      · exact hclear
      · exact (hrest x hx).2.1
    · rw [List.forall₂_map_left_iff]
      exact (mapM_eq_ok.1 hread).imp hinner

/-! ## Atoms -/

/-- A number literal is a number of the format, with or without an `i` behind it. -/
theorem number_eq_ok {s : Segment} {t : Expr Float} (h : Syntax.number lang s = .ok t) :
    (∃ text x, s.text = text ++ ['i'] ∧ lang.format.read text = .ok x ∧
        t = .const (.complex ⟨0.0, x⟩)) ∨
      ∃ x, lang.format.read s.text = .ok x ∧ t = .const (.real x) := by
  unfold Syntax.number at h
  simp only at h
  split at h
  · next v hread =>
    cases h
    split at hread
    · next hlast =>
      obtain ⟨text, htext⟩ := List.getLast?_eq_some_iff.1 hlast
      rw [htext, List.dropLast_concat] at hread
      cases hx : lang.format.read text with
      | error e => simp [hx, Except.map] at hread
      | ok x =>
        obtain rfl : Value.complex ⟨0.0, x⟩ = v := by simpa [hx, Except.map] using hread
        exact .inl ⟨text, x, htext, hx, rfl⟩
    · cases hx : lang.format.read s.text with
      | error e => simp [hx, Except.map] at hread
      | ok x =>
        obtain rfl : Value.real x = v := by simpa [hx, Except.map] using hread
        exact .inr ⟨x, rfl, rfl⟩
  · cases h
  · cases h

/-- A number that is read is an atom of the grammar. -/
theorem number_sound {s : Segment} {t : Expr Float} (hs : Unprefixed lang s.text)
    (hbare : Bare s.text) (h : Syntax.number lang s = .ok t) : AtomOver lang A s.text t := by
  rcases number_eq_ok h with ⟨text, x, htext, hx, rfl⟩ | ⟨x, hx, rfl⟩
  · rw [htext] at hs hbare ⊢
    exact .imaginary hs (hbare.init (by decide)) hx
  · exact .number hs hbare hx

/-- A list that begins with a variable. -/
theorem exists_var_of_any {args : List (Expr Float)} (h : args.head?.any Syntax.isVar = true) :
    ∃ k rest, args = .var k :: rest := by
  cases args with
  | nil => cases h
  | cons arg rest =>
    cases arg with
    | var k => exact ⟨k, rest, rfl⟩
    | _ => cases h

/-- A call of a builtin function that is read is an atom of the grammar. -/
theorem builtinCall_sound {inner : Segment → Parsed} {f : Builtin} {s : Segment} {t : Expr Float}
    (hmarks : lang.format.HasPlainMarks) (hs : Balanced s.text)
    (hinner : ∀ u v, inner u = .ok v → Logic A u.text v)
    (hf : Builtin.match? s.text = some f) (h : Syntax.builtinCall lang inner f s = .ok t) :
    AtomOver lang A s.text t := by
  obtain ⟨hmem, hstarts⟩ := Builtin.match?_eq_some.1 hf
  obtain ⟨args, hargs, harity, hloop, rfl⟩ := Syntax.builtinCall_eq_ok_iff.1 h
  obtain ⟨texts, htext, hseparated, hread⟩ :=
    arguments_sound hmarks hs ((List.prefix_append _ _).trans hstarts) hinner hargs
  rw [htext]
  exact .builtin f hmem hseparated hread harity fun hseries => exists_var_of_any (hloop hseries)

/-- A call of a registered function that is read is an atom of the grammar. -/
theorem userCall_sound {inner : Segment → Parsed} {d : Definition (Expr Float)} {s : Segment}
    {t : Expr Float} (hmarks : lang.format.HasPlainMarks) (hbare : Bare s.text)
    (hwrapped : ¬ Wrapped s.text) (hfunction : NoFunction s.text) (hbuiltin : NoBuiltin s.text)
    (hinner : ∀ u v, inner u = .ok v → Logic A u.text v)
    (hd : lang.registry.lookup? s.text = some d) (h : Syntax.userCall lang inner d s = .ok t) :
    AtomOver lang A s.text t := by
  obtain ⟨args, hargs, harity, rfl⟩ := Syntax.userCall_eq_ok_iff.1 h
  have hstarts : d.name.toList <+: s.text := by simpa using List.find?_some hd
  obtain ⟨texts, htext, hseparated, hread⟩ :=
    arguments_sound hmarks hbare.balanced hstarts hinner hargs
  rw [htext] at hwrapped hfunction hbuiltin hd hbare ⊢
  exact .apply d hwrapped hfunction hbuiltin hd hbare hseparated hread harity

/-- What is read as an atom derives as one. -/
theorem atom_sound {inner : Nat → Segment → Parsed} {pending : Nat} {s : Segment} {t : Expr Float}
    (hmarks : lang.format.HasPlainMarks) (hA : ∀ u v, A u v → IsToken Level.atom.before u)
    (hbare : Bare s.text)
    (hinner : ∀ n u v, inner n u = .ok v → Logic A u.text v)
    (h : Syntax.atom lang inner pending s = .ok t) : AtomOver lang A s.text t := by
  have hbalanced := hbare.balanced
  have hnot (hwrapped : isWrapped s.text = false) : ¬ Wrapped s.text := fun hs => by
    rw [(isWrapped_iff hbalanced).2 hs] at hwrapped
    cases hwrapped
  have hplain (hwrapped : isWrapped s.text = false) (hfunction : UnaryOp.match? s.text = none)
      (hbuiltin : Builtin.match? s.text = none)
      (hregistered : lang.registry.lookup? s.text = none) : Unprefixed lang s.text :=
    ⟨hnot hwrapped, UnaryOp.match?_eq_none.1 hfunction, Builtin.match?_eq_none.1 hbuiltin, hregistered⟩
  rw [Syntax.atom_eq_ok_iff] at h
  obtain ⟨-, h⟩ := h
  cases h with
  | wrapped h ht =>
    obtain ⟨b, text, -, htext⟩ := (isWrapped_iff hbalanced).1 h
    have hread := hinner _ _ _ ht
    rw [Segment.inner, htext] at hread
    rw [htext]
    exact .wrapped b (by simpa using hread)
  | @function f rest v _ h _ hv =>
    obtain ⟨hname, -⟩ := UnaryOp.longestName_of_match? h
    obtain ⟨rest', htext⟩ := hname.starts
    have hv := hinner _ _ _ hv
    rw [Segment.text_drop_name htext] at hv
    rw [← htext] at hbare hname ⊢
    have hclear := (hbare.split (function_name_clear hname.ne_not).balanced).2
    exact .function f hname (hv.negated_of_bare hA hclear)
  | builtin _ _ h ht => exact builtinCall_sound hmarks hbalanced (hinner _) h ht
  | apply hwrapped hfunction hbuiltin h ht =>
    exact userCall_sound hmarks hbare (hnot hwrapped) (UnaryOp.match?_eq_none.1 hfunction)
      (Builtin.match?_eq_none.1 hbuiltin) (hinner _) h ht
  | constant hwrapped hfunction hbuiltin hregistered h =>
    exact .constant (hplain hwrapped hfunction hbuiltin hregistered) h
  | «variable» hwrapped hfunction hbuiltin hregistered hconstant h =>
    exact .variable (hplain hwrapped hfunction hbuiltin hregistered) hconstant h
  | number hwrapped hfunction hbuiltin hregistered _ _ ht =>
    exact number_sound (hplain hwrapped hfunction hbuiltin hregistered) hbare ht

/-! ## Formulas -/

section Passes

variable {inner : Nat → Segment → Parsed} {pending : Nat} {s : Segment} {t : Expr Float}
  (hmarks : lang.format.HasPlainMarks) (hA : ∀ u v, A u v → IsToken Level.atom.before u)
  (hinner : ∀ n u v, inner n u = .ok v → Logic A u.text v)

include hmarks hA hinner

/-- A power that is read is one of the grammar. -/
theorem power_sound (hs : Clear Level.power.before s.text)
    (h : Syntax.power lang inner pending s = .ok t) : Power (AtomOver lang A) s.text t :=
  readSplit_sound hs (fun _ _ hclear hread => atom_sound hmarks hA hclear hinner hread) h

/-- A product that is read is one of the grammar. -/
theorem product_sound (hs : Clear Level.product.before s.text)
    (h : Syntax.product lang inner pending s = .ok t) : Product (AtomOver lang A) s.text t :=
  readSplit_sound hs (fun _ _ hclear hread => power_sound hmarks hA hinner hclear hread) h

/-- A sum that is read is one of the grammar. -/
theorem sum_sound (hs : Clear Level.sum.before s.text)
    (h : Syntax.sum lang inner pending s = .ok t) : Sum (AtomOver lang A) s.text t :=
  readSum_sound hs (fun _ _ _ hclear hread => product_sound hmarks hA hinner hclear hread) h

end Passes

/-- What is read as an operand derives as one. -/
theorem operand_sound {inner : Nat → Segment → Parsed} {pending offset : Nat} {s : List Char}
    {t : Expr Float} (hmarks : lang.format.HasPlainMarks)
    (hA : ∀ u v, A u v → IsToken Level.atom.before u)
    (hinner : ∀ n u v, inner n u = .ok v → Logic A u.text v)
    (hs : Clear Level.sum.before s)
    (h : Syntax.operand lang inner pending offset s = .ok t) : Operand (AtomOver lang A) s t := by
  induction s generalizing pending offset t with
  | nil => exact .part (by simp) (sum_sound hmarks hA hinner hs h)
  | cons c s ih =>
    unfold Syntax.operand at h
    split at h
    · next hc =>
      subst hc
      split at h
      · cases h
      · obtain ⟨v, hv, h⟩ := bind_eq_ok.1 h
        cases h
        exact .not (ih (hs.tail (by decide)) hv)
    · next hc =>
      exact .part (by simpa using hc) (sum_sound hmarks hA hinner hs h)

/-- A formula that is read derives its tree, with as many levels as it may have. -/
theorem formula_sound (hmarks : lang.format.HasPlainMarks) {levels pending : Nat} {s : Segment}
    {t : Expr Float} (h : Syntax.formula lang levels pending s = .ok t) :
    Logic (AtomWithin lang levels) s.text t := by
  induction levels generalizing pending s t with
  | zero => cases h
  | succ levels ih =>
    have hA : ∀ u v, AtomWithin lang levels u v → IsToken Level.atom.before u :=
      fun u v hA => hA.atom.isToken hmarks
    unfold Syntax.formula at h
    split at h
    · cases h
    · have hbalanced : Balanced s.text := by
        obtain ⟨parts, hsplit, -⟩ := bind_eq_ok.1 h
        obtain ⟨htext, hclear, hrest, -⟩ :=
          Segment.split_sound Level.logic.cuts (fun d hd => spelling_ne_nil hd) hsplit
        rw [htext]
        exact balanced_of_parts hclear fun x hx => ⟨(hrest x hx).1, (hrest x hx).2.1⟩
      exact readSplit_sound hbalanced (fun part v hclear hread =>
        operand_sound hmarks hA (fun n u v hu => ih hu) hclear hread) h

end Grammar

namespace Language

variable {lang : Language} {text : String} {t : Expr Float}

/-- Every text that is read derives the tree that it is read as, within the limit of nesting. -/
theorem within_of_parse (hmarks : lang.format.HasPlainMarks) (h : lang.parse text = .ok t) :
    Logic (AtomWithin lang lang.levels) (Text.compact text.toList) t := by
  unfold Language.parse at h
  split at h
  · cases h
  · exact formula_sound hmarks h

/-- Every text that is read derives the tree that it is read as. -/
theorem formula_of_parse (hmarks : lang.format.HasPlainMarks) (h : lang.parse text = .ok t) :
    Formula lang (Text.compact text.toList) t :=
  formula_iff.2 ((within_of_parse hmarks h).imp fun _ _ _ hA => hA.atom)

end Language

end Formulary
