import Formulary.Proofs.Number.Signed
import Formulary.Proofs.Syntax.Readings
import Formulary.Proofs.Syntax.Registry
import Formulary.Proofs.Syntax.WellBracketed

/-!
# The style of brackets

A text that is read as a tree is read as the same tree with round brackets in place of all others
(`Language.parse_rounded`).

Splits and searches for the partner of a bracket go the same way, as no bracket is part of a
delimiter or of a name. But an atom could become another one: only a round bracket behind a name
makes a call of it. So it matters what the atoms hold that are read. Constants, variables and
numbers hold no brackets at all (a number is balanced, and the one bracket that it could hold is its
grouping mark), and behind the name of a registered function there is a round bracket already.
-/

namespace Formulary

open Formulary.Bracket Formulary.Grammar

/-! ## Characters -/

namespace Bracket

/-- The character, with a round bracket for a square or a curly one. -/
def rounded : Char → Char
  | '[' | '{' => '('
  | ']' | '}' => ')'
  | c => c

variable {c d : Char}

/-- An opening bracket becomes a round one. -/
theorem rounded_opening (b : Bracket) : rounded b.opening = '(' := by
  cases b <;> rfl

/-- A closing bracket becomes a round one. -/
theorem rounded_closing (b : Bracket) : rounded b.closing = ')' := by
  cases b <;> rfl

/-- Any other character stays as it is. -/
theorem rounded_of_plain (h : isBracket c = false) : rounded c = c := by
  unfold rounded
  split
  case h_5 => rfl
  all_goals exact absurd h (by decide)

/-- What opens a bracket opens a round one. -/
theorem opened?_rounded (c : Char) : opened? (rounded c) = (opened? c).map fun _ => .round := by
  cases ho : opened? c with
  | some b =>
    rw [← opening_of_opened? ho, rounded_opening]
    rfl
  | none =>
    cases hc : closed? c with
    | some b =>
      rw [← closing_of_closed? hc, rounded_closing]
      rfl
    | none => rw [rounded_of_plain (isBracket_eq_false_iff.2 ⟨ho, hc⟩), ho, Option.map_none]

/-- What closes a bracket closes a round one. -/
theorem closed?_rounded (c : Char) : closed? (rounded c) = (closed? c).map fun _ => .round := by
  cases hc : closed? c with
  | some b =>
    rw [← closing_of_closed? hc, rounded_closing]
    rfl
  | none =>
    cases ho : opened? c with
    | some b =>
      rw [← opening_of_opened? ho, rounded_opening]
      rfl
    | none => rw [rounded_of_plain (isBracket_eq_false_iff.2 ⟨ho, hc⟩), hc, Option.map_none]

/-- Brackets stay brackets. -/
theorem isBracket_rounded (c : Char) : isBracket (rounded c) = isBracket c := by
  rw [isBracket, opened?_rounded, closed?_rounded, Option.isSome_map, Option.isSome_map, isBracket]

/-- What is no bracket stays, and nothing else becomes it. -/
theorem eq_rounded_iff (hc : isBracket c = false) : c = rounded d ↔ c = d := by
  constructor
  · rintro rfl
    exact rounded_of_plain (isBracket_rounded d ▸ hc)
  · rintro rfl
    exact (rounded_of_plain hc).symm

/-- A character is a bracket if it opens or closes one. -/
theorem exists_of_isBracket (h : isBracket c = true) :
    ∃ b : Bracket, c = b.opening ∨ c = b.closing := by
  rw [isBracket, Bool.or_eq_true, Option.isSome_iff_exists, Option.isSome_iff_exists] at h
  rcases h with ⟨b, hb⟩ | ⟨b, hb⟩
  · exact ⟨b, .inl (opening_of_opened? hb).symm⟩
  · exact ⟨b, .inr (closing_of_closed? hb).symm⟩

/-- No digit is a bracket. -/
theorem isBracket_of_isDecimalDigit (h : Text.isDecimalDigit c = true) : isBracket c = false := by
  refine Bool.eq_false_iff.2 fun hbracket => ?_
  obtain ⟨b, rfl | rfl⟩ := exists_of_isBracket hbracket <;> revert h <;> cases b <;> decide

end Bracket

/-- A text without brackets. -/
def Plain (text : List Char) : Prop := ∀ c ∈ text, isBracket c = false

variable {text word : List Char}

/-- A text without brackets stays as it is. -/
theorem map_rounded_of_plain (h : Plain text) : text.map rounded = text :=
  (List.map_congr_left fun c hc => rounded_of_plain (h c hc)).trans (List.map_id text)

/-- The same words begin the text. -/
theorem prefix_map_rounded (hword : Plain word) : word <+: text.map rounded ↔ word <+: text := by
  induction word generalizing text with
  | nil => simp
  | cons c word ih =>
    obtain ⟨hc, hword⟩ := List.forall_mem_cons.1 hword
    cases text with
    | nil => rfl
    | cons d text =>
      rw [List.map_cons, List.cons_prefix_cons, List.cons_prefix_cons, eq_rounded_iff hc, ih hword]

/-- So a search for words at the beginning finds the same one. -/
theorem find?_isPrefixOf_map_rounded {α : Type} {xs : List α} {word : α → List Char}
    (h : ∀ x ∈ xs, Plain (word x)) (text : List Char) :
    xs.find? (fun x => (word x).isPrefixOf (text.map rounded)) =
      xs.find? (fun x => (word x).isPrefixOf text) := by
  induction xs with
  | nil => rfl
  | cons x xs ih =>
    obtain ⟨hx, hxs⟩ := List.forall_mem_cons.1 h
    have hprefix : (word x).isPrefixOf (text.map rounded) = (word x).isPrefixOf text := by
      rw [Bool.eq_iff_iff, List.isPrefixOf_iff_prefix, List.isPrefixOf_iff_prefix,
        prefix_map_rounded hx]
    rw [List.find?_cons, List.find?_cons, hprefix, ih hxs]

/-- Brackets may be replaced before blanks are dropped, or after. -/
theorem compact_map_rounded (text : List Char) :
    Text.compact (text.map rounded) = (Text.compact text).map rounded := by
  have hblank (c : Char) : Text.isBlank (rounded c) = Text.isBlank c := by
    cases hc : isBracket c with
    | false => rw [rounded_of_plain hc]
    | true =>
      obtain ⟨b, rfl | rfl⟩ := exists_of_isBracket hc <;> cases b <;> decide
  rw [Text.compact, Text.compact, List.filter_map]
  congr 2
  funext c
  exact congrArg (!·) (hblank c)

/-! ## Brackets of one kind of character -/

/-- A balanced text whose brackets are all the same character has none: it would be opened and never
closed, or closed and never opened. -/
theorem plain_of_balanced {g : Char} (h : Balanced text)
    (hg : ∀ c ∈ text, isBracket c = true → c = g) : Plain text := by
  induction text with
  | nil => exact fun c hc => absurd hc List.not_mem_nil
  | cons c text ih =>
    obtain ⟨hc, hrest⟩ := List.forall_mem_cons.1 hg
    cases hbracket : isBracket c with
    | false => exact List.forall_mem_cons.2 ⟨hbracket, ih (h.tail hbracket) hrest⟩
    | true =>
      exfalso
      obtain ⟨b, rfl | rfl⟩ := exists_of_isBracket hbracket
      · obtain ⟨inner, after, rfl, -⟩ := h.partner
        have hsame : b.closing = b.opening := by
          rw [hc hbracket]
          exact hrest b.closing (by simp) (by cases b <;> rfl)
        revert hsame
        cases b <;> decide
      · obtain ⟨outer, hstack, -⟩ := h.closed (closed?_closing b)
        cases hstack

/-- The only bracket that could stand in a number is its grouping mark. -/
theorem NumberFormat.plain_of_read {f : NumberFormat} {x : Float}
    (hdecimal : isBracket f.decimal = false) (h : Balanced text) (hread : f.read text = .ok x) :
    Plain text := by
  have hunsigned {s : List Char} (hs : f.isUnsigned s = true) :
      ∀ c ∈ s, isBracket c = true → c = f.grouping := by
    intro c hc hbracket
    rcases mem_of_isUnsigned hs hc with hdigit | rfl | ⟨-, hgrouping⟩
    · rw [isBracket_of_isDecimalDigit hdigit] at hbracket
      cases hbracket
    · rw [hdecimal] at hbracket
      cases hbracket
    · exact hgrouping
  refine plain_of_balanced (g := f.grouping) h ?_
  have hnumber := isNumber_of_read hread
  unfold isNumber at hnumber
  rw [Bool.or_eq_true] at hnumber
  rcases hnumber with hs | hs
  · exact hunsigned hs
  · cases text with
    | nil => cases hs
    | cons c rest =>
      rw [Bool.and_eq_true, Bool.or_eq_true, beq_iff_eq, beq_iff_eq] at hs
      refine List.forall_mem_cons.2 ⟨fun hbracket => ?_, hunsigned hs.2⟩
      rcases hs.1 with rfl | rfl <;> exact absurd hbracket (by decide)

/-! ## Splits -/

/-- The segment with round brackets. -/
def Segment.rounded (s : Segment) : Segment := ⟨s.text.map Bracket.rounded, s.offset⟩

theorem Segment.rounded_offset (s : Segment) : s.rounded.offset = s.offset := rfl

theorem Segment.rounded_mk (text : List Char) (offset : Nat) :
    Segment.rounded ⟨text, offset⟩ = ⟨text.map Bracket.rounded, offset⟩ := rfl

/-- The parts with round brackets. -/
def Split.rounded {κ : Type} (s : Split κ) : Split κ :=
  ⟨s.first.rounded, s.rest.map fun x => (x.1, x.2.rounded)⟩

section Splits

variable {κ : Type} {delimiters : List (Delimiter κ)} {lone : List Char} {s : Segment}
  (hplain : ∀ d ∈ delimiters, Plain d.spelling)
include hplain

/-- A scan finds the same parts, with round brackets on its stack. -/
theorem Split.scan_rounded {whole : Segment} {index : Nat} {stack : List (Bracket × Nat)}
    {skip : Nat} {text part : List Char} {rest : List (Delimiter κ × Segment)}
    (h : scan delimiters lone whole index stack skip text = .ok (part, rest)) :
    scan delimiters lone whole.rounded index (stack.map fun x => (.round, x.2)) skip
        (text.map Bracket.rounded) =
      .ok (part.map Bracket.rounded, rest.map fun x => (x.1, x.2.rounded)) := by
  fun_induction scan delimiters lone whole index stack skip text generalizing part rest with
  | case1 =>
    obtain ⟨rfl, rfl⟩ : [] = part ∧ [] = rest := by simpa using h
    rfl
  | case2 | case5 | case7 | case10 => cases h
  | case3 index stack skip c cs ih =>
    rw [List.map_cons, scan]
    exact ih h
  | case4 index stack c cs bracket ho ih =>
    obtain ⟨part, rfl, h'⟩ := consPart_eq_ok h
    have hscan := ih h'
    rw [List.map_cons] at hscan
    simp [scan, opened?_rounded, ho, hscan, bind, Except.bind, pure, Except.pure]
  | case6 index c cs bracket openedAt stack ho hc ih =>
    obtain ⟨part, rfl, h'⟩ := consPart_eq_ok h
    simp [scan, opened?_rounded, closed?_rounded, ho, hc, ih h', bind, Except.bind, pure, Except.pure]
  | case8 index c cs head tail hc ho ih =>
    obtain ⟨part, rfl, h'⟩ := consPart_eq_ok h
    have hscan := ih h'
    rw [List.map_cons] at hscan
    simp [scan, opened?_rounded, closed?_rounded, ho, hc, hscan, bind, Except.bind, pure, Except.pure]
  | case9 index c cs hc ho d hd length =>
    rename_i ih
    obtain ⟨⟨part', rest'⟩, h', h⟩ := bind_eq_ok.1 h
    cases h
    have hd' : delimiterAt? delimiters ((c :: cs).map Bracket.rounded) = some d :=
      (find?_isPrefixOf_map_rounded hplain (c :: cs)).trans hd
    rw [List.map_cons] at hd'
    have hscan := ih h'
    rw [List.map_nil] at hscan
    simp [scan, opened?_rounded, closed?_rounded, ho, hc, hd', hscan, length, Segment.rounded_mk,
      Segment.rounded_offset, bind, Except.bind, pure, Except.pure]
  | case11 index c cs hc ho hd hl ih =>
    obtain ⟨part, rfl, h'⟩ := consPart_eq_ok h
    have hd' : delimiterAt? delimiters ((c :: cs).map Bracket.rounded) = none :=
      (find?_isPrefixOf_map_rounded hplain (c :: cs)).trans hd
    rw [List.map_cons] at hd'
    have hscan := ih h'
    rw [List.map_nil] at hscan
    have hl' : Bracket.rounded c ∉ lone := by
      rwa [rounded_of_plain (isBracket_eq_false_iff.2 ⟨ho, hc⟩)]
    simp [scan, opened?_rounded, closed?_rounded, ho, hc, hd', hl', hscan, bind, Except.bind, pure,
      Except.pure]

/-- A text is cut at the same places with round brackets. -/
theorem Segment.split_rounded {parts : Split κ} (h : s.split delimiters lone = .ok parts) :
    s.rounded.split delimiters lone = .ok parts.rounded := by
  obtain ⟨⟨part, rest⟩, hscan, h⟩ := bind_eq_ok.1 h
  have hscan' := Split.scan_rounded hplain hscan
  dsimp only at h
  split at h
  · cases h
  · next hmissing =>
    cases h
    have hmissing' : Split.missing? (Split.rounded ⟨⟨part, s.offset⟩, rest⟩) = none := by
      obtain ⟨hfirst, hrest⟩ := Split.missing?_eq_none.1 hmissing
      refine Split.missing?_eq_none.2 ⟨fun hempty => ?_, ?_⟩
      · have hallowed := hfirst (List.map_eq_nil_iff.1 hempty)
        cases rest with
        | nil => cases hallowed
        | cons x rest => exact hallowed
      · rw [Split.texts, List.forall_mem_map] at hrest ⊢
        refine List.forall_mem_map.2 fun x hx hempty => hrest x hx (List.map_eq_nil_iff.1 hempty)
    refine bind_eq_ok.2 ⟨_, hscan', ?_⟩
    dsimp only
    split
    · next hsome => exact absurd (hsome.symm.trans hmissing') (by rintro ⟨⟩)
    · rfl

end Splits

/-! ## Passes -/

/-- What is read as a tree is read as the same tree with round brackets. -/
def Unstyled (read : Segment → Parsed) : Prop := ∀ s t, read s = .ok t → read s.rounded = .ok t

namespace Syntax

variable {lang : Language} {read : Segment → Parsed} {s : Segment} {t : Expr Float}

/-- Parts that are read as the same trees are joined to the same tree. -/
theorem foldLeft_rounded {first : Expr Float} {rest : List (Delimiter BinaryOp × Segment)}
    (hread : ∀ x ∈ rest, ∀ v, read x.2 = .ok v → read x.2.rounded = .ok v)
    (h : foldLeft read first rest = .ok t) :
    foldLeft read first (rest.map fun x => (x.1, x.2.rounded)) = .ok t := by
  induction rest generalizing first with
  | nil => exact h
  | cons x rest ih =>
    obtain ⟨hpart, hrest⟩ := List.forall_mem_cons.1 hread
    obtain ⟨joined, hjoined, h⟩ := bind_eq_ok.1 h
    obtain ⟨v, hv, hjoined⟩ := bind_eq_ok.1 hjoined
    exact bind_eq_ok.2 ⟨joined, bind_eq_ok.2 ⟨v, hpart v hv, hjoined⟩, ih hrest h⟩

/-- No operator contains a bracket. -/
theorem delimiters_plain (level : Level) : ∀ d ∈ level.delimiters, Plain d.spelling := by
  intro d hd c hc
  rw [(Level.mem_delimiters hd).1] at hc
  exact Level.isBracket_of_mem_symbol hc

/-- The parts of a split are balanced, whatever is split. -/
theorem unstyled_readSplit (level : Level)
    (hread : ∀ s, Balanced s.text → ∀ t, read s = .ok t → read s.rounded = .ok t) :
    Unstyled (readSplit level.delimiters level.lone read) := by
  intro s t h
  obtain ⟨parts, hsplit, h⟩ := bind_eq_ok.1 h
  obtain ⟨first, hfirst, h⟩ := bind_eq_ok.1 h
  obtain ⟨hbalanced, hrest⟩ :=
    List.forall_mem_cons.1 (Segment.balanced_of_mem_parts (fun d hd => spelling_ne_nil hd) hsplit)
  rw [List.forall_mem_map] at hrest
  exact bind_eq_ok.2 ⟨_, Segment.split_rounded (delimiters_plain level) hsplit,
    bind_eq_ok.2 ⟨first, hread _ hbalanced first hfirst,
      foldLeft_rounded (fun x hx => hread x.2 (hrest x hx)) h⟩⟩

/-! ## Atoms -/

/-- A text in brackets is one in round brackets. -/
theorem isWrapped_map_rounded (text : List Char) :
    isWrapped (text.map rounded) = isWrapped text := by
  have hclosing (depth : Nat) (text : List Char) :
      closingIndex? depth (text.map rounded) = closingIndex? depth text := by
    induction text generalizing depth with
    | nil => rfl
    | cons c text ih =>
      simp only [List.map_cons, closingIndex?, opened?_rounded, closed?_rounded, Option.isSome_map, ih]
  cases text with
  | nil => rfl
  | cons c text =>
    have hindex := hclosing 0 (c :: text)
    rw [List.map_cons] at hindex ⊢
    simp only [isWrapped, opened?_rounded, Option.isSome_map, hindex, List.length_cons, List.length_map]

/-- What is inside of brackets, with round brackets. -/
theorem inner_rounded (s : Segment) : s.rounded.inner = s.inner.rounded := by
  simp [Segment.inner, Segment.rounded, List.map_dropLast, List.map_tail]

/-- A text without its beginning, with round brackets. -/
theorem drop_rounded (n : Nat) (s : Segment) : s.rounded.drop n = (s.drop n).rounded := by
  simp [Segment.drop, Segment.rounded, List.map_drop]

/-- A function of one argument is found by its name alone. -/
theorem match?_rounded_of_some {f : UnaryOp} {rest : List Char}
    (h : UnaryOp.match? text = some (f, rest)) :
    UnaryOp.match? (text.map rounded) = some (f, rest.map rounded) := by
  obtain ⟨⟨hne, hstarts, hlongest⟩, rfl⟩ := UnaryOp.longestName_of_match? h
  have hname : LongestName f (text.map rounded) :=
    ⟨hne, (prefix_map_rounded function_name_plain).2 hstarts,
      fun g hg hstart => hlongest g hg ((prefix_map_rounded function_name_plain).1 hstart)⟩
  rw [UnaryOp.match?_of_longestName hname, List.map_drop]

/-- With round brackets, a text begins with the name of a function no more than without. -/
theorem match?_rounded_of_none (h : UnaryOp.match? text = none) :
    UnaryOp.match? (text.map rounded) = none := by
  rw [UnaryOp.match?_eq_none] at h ⊢
  exact fun f hf hstart => h f hf ((prefix_map_rounded function_name_plain).1 hstart)

/-- A text has one name in front of its first bracket. -/
theorem eq_of_called {u v : List Char} (hu : Plain u) (hv : Plain v) (hut : u ++ ['('] <+: text)
    (hvt : v ++ ['('] <+: text) : u = v := by
  have hname {w : List Char} (hw : Plain w) (hwt : w ++ ['('] <+: text) :
      text.takeWhile (!isBracket ·) = w := by
    obtain ⟨rest, rfl⟩ := hwt
    rw [List.append_assoc, List.takeWhile_append_of_pos fun c hc => by simp [hw c hc]]
    exact List.append_nil w
  exact (hname hu hut).symm.trans (hname hv hvt)

/-- Where a name is called already, no builtin function is called only with round brackets. -/
theorem noBuiltin_rounded (hword : Plain word) (hcalled : word ++ ['('] <+: text)
    (h : NoBuiltin text) : NoBuiltin (text.map rounded) := by
  intro f hf hstarts
  have hcalled' : word ++ ['('] <+: text.map rounded := by
    have hmap := hcalled.map rounded
    rwa [List.map_append, map_rounded_of_plain hword] at hmap
  have hname : f.name.toList = word := eq_of_called (builtin_name_plain hf).2 hword hstarts hcalled'
  rw [← hname] at hcalled
  exact h f hf hcalled

/-- A segment without brackets stays as it is. -/
theorem rounded_of_plain_text (h : Plain s.text) : s.rounded = s := by
  rw [Segment.rounded, map_rounded_of_plain h]

/-- A name contains no bracket. -/
theorem plain_of_isName (h : isName text = true) : Plain text := by
  rw [isName, Bool.and_eq_true, List.all_eq_true] at h
  exact fun c hc => not_isBracket_of_isLowercase (h.2 c hc)

section Atoms

variable (hmarks : lang.format.HasPlainMarks)

include hmarks in
/-- The text of a number contains no bracket. -/
theorem plain_of_number (hs : Balanced s.text) (h : number lang s = .ok t) : Plain s.text := by
  have hdecimal := hmarks.decimal.not_bracket
  rcases number_eq_ok h with ⟨text, x, htext, hx, -⟩ | ⟨x, hx, -⟩
  · rw [htext] at hs ⊢
    exact List.forall_mem_append.2
      ⟨NumberFormat.plain_of_read hdecimal (hs.init (by decide)) hx, by simpa using by decide⟩
  · exact NumberFormat.plain_of_read hdecimal hs hx

section Calls

variable {inner : Segment → Parsed} (hinner : Unstyled inner)
include hmarks hinner

/-- The arguments of a call are read as the same trees with round brackets. -/
theorem arguments_rounded {name : String} {args : List (Expr Float)}
    (h : arguments lang inner name s = .ok args) :
    arguments lang inner name s.rounded = .ok args := by
  obtain ⟨mark, hmark, hplain⟩ := hmarks.argument
  obtain ⟨⟨hopen, hwrapped⟩, h⟩ := arguments_eq_ok_iff.1 h
  rw [arguments_eq_ok_iff, drop_rounded, inner_rounded]
  refine ⟨⟨?_, (isWrapped_map_rounded _).trans hwrapped⟩, ?_⟩
  · rw [Segment.rounded, List.head?_map, hopen]
    rfl
  rcases h with ⟨hempty, rfl⟩ | ⟨hne, parts, hsplit, hread⟩
  · exact .inl ⟨List.map_eq_nil_iff.2 hempty, rfl⟩
  · have hdelimiter : ∀ d ∈ argumentDelimiters lang, Plain d.spelling := by
      simpa [argumentDelimiters, Plain, hmark] using hplain.not_bracket
    refine .inr ⟨fun hempty => hne (List.map_eq_nil_iff.1 hempty), parts.rounded,
      Segment.split_rounded hdelimiter hsplit, ?_⟩
    have hparts : parts.rounded.parts = parts.parts.map Segment.rounded := by
      simp [Split.parts, Split.rounded]
    rw [hparts, mapM_eq_ok, List.forall₂_map_left_iff]
    exact (mapM_eq_ok.1 hread).imp fun part v hv => hinner part v hv

/-- A call of a builtin function is read as the same tree with round brackets. -/
theorem unstyled_builtinCall (f : Builtin) : Unstyled (builtinCall lang inner f) := by
  intro s t h
  obtain ⟨args, hargs, hchecks⟩ := builtinCall_eq_ok_iff.1 h
  exact builtinCall_eq_ok_iff.2 ⟨args, arguments_rounded hmarks hinner hargs, hchecks⟩

/-- A call of a user-defined function is read as the same tree with round brackets. -/
theorem unstyled_userCall (d : Definition (Expr Float)) : Unstyled (userCall lang inner d) := by
  intro s t h
  obtain ⟨args, hargs, hcheck⟩ := userCall_eq_ok_iff.1 h
  exact userCall_eq_ok_iff.2 ⟨args, arguments_rounded hmarks hinner hargs, hcheck⟩

end Calls

variable (hnames : ∀ d ∈ lang.registry.definitions, isName d.name.toList = true)
  {inner : Nat → Segment → Parsed} (hinner : ∀ pending, Unstyled (inner pending)) {pending : Nat}
include hmarks hnames hinner

/-- An atom keeps its form. -/
theorem atom_rounded (hs : Balanced s.text) (h : atom lang inner pending s = .ok t) :
    atom lang inner pending s.rounded = .ok t := by
  rw [atom_eq_ok_iff] at h ⊢
  obtain ⟨hne, h⟩ := h
  refine ⟨fun hempty => hne (List.map_eq_nil_iff.1 hempty), ?_⟩
  have hlookup : lang.registry.lookup? s.rounded.text = lang.registry.lookup? s.text :=
    find?_isPrefixOf_map_rounded (fun d hd => plain_of_isName (hnames d hd)) s.text
  have hunwrapped (hwrapped : isWrapped s.text = false) : isWrapped s.rounded.text = false :=
    (isWrapped_map_rounded _).trans hwrapped
  cases h with
  | wrapped h ht =>
    refine .wrapped ((isWrapped_map_rounded _).trans h) ?_
    rw [inner_rounded]
    exact hinner _ _ _ ht
  | function hwrapped h hrest hv =>
    refine .function (hunwrapped hwrapped) (match?_rounded_of_some h)
      (fun hempty => hrest (List.map_eq_nil_iff.1 hempty)) ?_
    rw [drop_rounded]
    exact hinner _ _ _ hv
  | builtin hwrapped hfunction h ht =>
    obtain ⟨hf, hstarts⟩ := Builtin.match?_eq_some.1 h
    have hstarts' := hstarts.map rounded
    rw [List.map_append, map_rounded_of_plain (builtin_name_plain hf).2] at hstarts'
    exact .builtin (hunwrapped hwrapped) (match?_rounded_of_none hfunction)
      (Builtin.match?_eq_some.2 ⟨hf, hstarts'⟩) (unstyled_builtinCall hmarks (hinner _) _ _ _ ht)
  | @apply d t hwrapped hfunction hbuiltin h ht =>
    -- behind the name stands a round bracket, as the call was read
    have hname : Plain d.name.toList := plain_of_isName (hnames d (List.mem_of_find?_eq_some h))
    obtain ⟨rest, hrest⟩ : d.name.toList <+: s.text := by simpa using List.find?_some h
    obtain ⟨args, hargs, -⟩ := userCall_eq_ok_iff.1 ht
    obtain ⟨⟨hopen, -⟩, -⟩ := arguments_eq_ok_iff.1 hargs
    rw [Segment.text_drop_name hrest] at hopen
    obtain ⟨behind, rfl⟩ := List.head?_eq_some_iff.1 hopen
    have hcalled : d.name.toList ++ ['('] <+: s.text := ⟨behind, by rw [← hrest]; simp⟩
    have hbuiltin' := noBuiltin_rounded hname hcalled (Builtin.match?_eq_none.1 hbuiltin)
    exact .apply (hunwrapped hwrapped) (match?_rounded_of_none hfunction)
      (Builtin.match?_eq_none.2 hbuiltin') (hlookup.trans h)
      (unstyled_userCall hmarks (hinner _) d _ _ ht)
  | constant hwrapped hfunction hbuiltin hregistered h =>
    rw [rounded_of_plain_text (plain_of_isName (isName_of_constant? h))]
    exact .constant hwrapped hfunction hbuiltin hregistered h
  | «variable» hwrapped hfunction hbuiltin hregistered hconstant h =>
    rw [rounded_of_plain_text (plain_of_isName h)]
    exact .variable hwrapped hfunction hbuiltin hregistered hconstant h
  | number hwrapped hfunction hbuiltin hregistered hconstant hname ht =>
    rw [rounded_of_plain_text (plain_of_number hmarks hs ht)]
    exact .number hwrapped hfunction hbuiltin hregistered hconstant hname ht

/-! ## Formulas -/

/-- A product is read as the same tree with round brackets. -/
theorem unstyled_product : Unstyled (product lang inner pending) := by
  have hpower : Unstyled (power lang inner (pending + 3)) :=
    unstyled_readSplit .power fun s hs t h => atom_rounded hmarks hnames hinner hs h
  exact unstyled_readSplit .product fun s _ => hpower s

/-- A sum is read as the same tree with round brackets. -/
theorem unstyled_sum : Unstyled (sum lang inner pending) := by
  have hproduct (pending : Nat) : Unstyled (product lang inner pending) :=
    unstyled_product hmarks hnames hinner
  intro s t h
  obtain ⟨parts, hsplit, h⟩ := sum_eq_ok_iff.1 h
  refine sum_eq_ok_iff.2
    ⟨parts.rounded, Segment.split_rounded (delimiters_plain .sum) hsplit, ?_⟩
  rcases h with ⟨hnil, d, part, rest, v, hcons, hv, h⟩ | ⟨hfirst, v, hv, h⟩
  · have hcons' : parts.rounded.rest = (d, part.rounded) :: rest.map fun x => (x.1, x.2.rounded) := by
      rw [Split.rounded, hcons]
      rfl
    exact .inl ⟨List.map_eq_nil_iff.2 hnil, d, part.rounded, _, v, hcons', hproduct _ _ _ hv,
      foldLeft_rounded (fun x _ => hproduct _ x.2) h⟩
  · refine .inr ⟨fun hempty => ?_, v, hproduct _ _ _ hv,
      foldLeft_rounded (fun x _ => hproduct _ x.2) h⟩
    exact List.map_eq_nil_iff.2 (hfirst (List.map_eq_nil_iff.1 hempty))

/-- A part of a logic formula is read as the same tree with round brackets. -/
theorem operand_rounded {offset : Nat} (h : operand lang inner pending offset text = .ok t) :
    operand lang inner pending offset (text.map rounded) = .ok t := by
  induction text generalizing pending offset t with
  | nil => exact h
  | cons c cs ih =>
    have hbang : rounded c = '!' ↔ c = '!' := by
      rw [eq_comm, eq_rounded_iff (by decide), eq_comm]
    rw [List.map_cons]
    unfold operand at h ⊢
    simp only [hbang]
    split at h
    · next hc =>
      rw [if_pos hc]
      split at h
      · cases h
      · next hroom =>
        obtain ⟨v, hv, h⟩ := bind_eq_ok.1 h
        rw [if_neg hroom]
        exact bind_eq_ok.2 ⟨v, ih hv, h⟩
    · next hc =>
      rw [if_neg hc]
      exact unstyled_sum hmarks hnames hinner ⟨c :: cs, offset⟩ t h

end Atoms

/-- A formula is read as the same tree with round brackets, and with no more pending calls. -/
theorem unstyled_formula (hmarks : lang.format.HasPlainMarks)
    (hnames : ∀ d ∈ lang.registry.definitions, isName d.name.toList = true) (levels pending : Nat) :
    Unstyled (formula lang levels pending) := by
  induction levels generalizing pending with
  | zero =>
    intro s t h
    cases h
  | succ levels ih =>
    intro s t h
    unfold formula at h ⊢
    split at h
    · cases h
    · next hroom =>
      rw [if_neg hroom]
      refine unstyled_readSplit .logic ?_ s t h
      exact fun part _ t h => operand_rounded hmarks hnames ih h

end Syntax

/-- The style of brackets does not matter: a text that is read as a tree is read as the same tree
with round brackets in place of the square and curly ones. -/
theorem Language.parse_rounded {lang : Language} {text : String} {t : Expr Float}
    (hmarks : lang.format.HasPlainMarks) (hregistry : lang.registry.Defined)
    (h : lang.parse text = .ok t) : lang.parse (text.map Bracket.rounded) = .ok t := by
  unfold parse at h ⊢
  rw [String.toList_map, compact_map_rounded]
  cases hcompact : Text.compact text.toList with
  | nil =>
    rw [hcompact] at h
    cases h
  | cons c cs =>
    rw [hcompact] at h
    exact Syntax.unstyled_formula hmarks hregistry.isName _ 0 ⟨c :: cs, 0⟩ t h

/-- Brackets of two styles around a variable. -/
theorem Language.parse_rounded_nested :
    let lang : Language := { maxPending := none }
    lang.parse "{[x]}" = .ok (.var "x") ∧
      lang.parse ("{[x]}".map Bracket.rounded) = .ok (.var "x") := by
  intro lang
  have hx : Atom lang ['x'] (.var "x") :=
    .variable ⟨not_wrapped_of_head (by decide), by decide, by decide, rfl⟩ rfl (by decide)
  have hsquare : Atom lang "[x]".toList (.var "x") := .wrapped .square (.of_atom (by decide) hx)
  have hcurly : Atom lang "{[x]}".toList (.var "x") :=
    .wrapped .curly (.of_atom (by decide) hsquare)
  have hparse : lang.parse "{[x]}" = .ok (.var "x") :=
    Language.parse_of_formula NumberFormat.hasPlainMarks_standard rfl (by decide)
      (.of_atom (by decide) hcurly)
  exact ⟨hparse, parse_rounded NumberFormat.hasPlainMarks_standard .empty hparse⟩

example : "{[x]}".toList.map Bracket.rounded = "((x))".toList := by decide

end Formulary
