import Formulary.Proofs.Syntax.WellBracketed

/-!
# Which texts are split

At delimiters that are not written with brackets, a text has a cut if and only if its brackets
match, and it has one cut at most (`exists_isCut`, `IsCut.balanced`, `IsCut.unique`). So what a
split returns and which texts it refuses are both up to the cut: a text is refused if it has none,
if a character stands alone in a part of it, or if a part is missing (`Segment.split_eq_error_iff`).

This goes for the operators of every pass, and for any separator of arguments that is one character
and no bracket (`Syntax.splits_exactly`).
-/

namespace Formulary

open Formulary.Bracket

namespace Split

variable {κ : Type} {delimiters : List (Delimiter κ)} {lone : List Char}
  {stack : List Bracket} {text first first' : List Char} {rest rest' : List (Delimiter κ × List Char)}

/-! ## Cuts -/

/-- No delimiter is empty or is written with brackets. -/
def Words (delimiters : List (Delimiter κ)) : Prop :=
  ∀ d ∈ delimiters, d.spelling ≠ [] ∧ ∀ c ∈ d.spelling, isBracket c = false

namespace IsCut

/-- A part of a cut is the first part of a cut. -/
theorem of_mem {part : List Char} (h : IsCut delimiters [] text first rest)
    (hpart : part ∈ first :: rest.map (·.2)) :
    ∃ text' rest', IsCut delimiters [] text' part rest' := by
  rcases List.mem_cons.1 hpart with rfl | hpart
  · exact ⟨_, _, h⟩
  · obtain ⟨x, hx, rfl⟩ := List.mem_map.1 hpart
    exact (h.behind hx).2

/-- A text that is cut has matching brackets. -/
theorem balanced (hwords : Words delimiters) (h : IsCut delimiters stack text first rest) :
    Closes [] stack text := by
  induction h with
  | last hpart => exact hpart
  | @cut _ _ _ _ d _ hfirst _ _ hd _ ih =>
    have hspelling : Balanced d.spelling :=
      Closes.of_forall fun c hc => ⟨(hwords d (delimiterAt?_eq_some hd).1).2 c hc, by simp⟩
    exact hfirst.append (hspelling.append ih)

/-- A text is cut in one way at most. -/
theorem unique (h : IsCut delimiters [] text first rest)
    (h' : IsCut delimiters [] text first' rest') : first = first' ∧ rest = rest' := by
  have hscan {first : List Char} {rest : List (Delimiter κ × List Char)}
      (h : IsCut delimiters [] text first rest) :
      scan delimiters [] ⟨text, 0⟩ 0 [] 0 text = _ :=
    h.scan_eq rfl h.closes (fun x hx => (h.behind hx).2.elim fun _ ⟨_, h⟩ => h.closes) 0
  obtain ⟨hfirst, hrest⟩ := Prod.mk.inj (Except.ok.inj ((hscan h).symm.trans (hscan h')))
  refine ⟨hfirst, ?_⟩
  rw [← texts_placed _ rest, hrest, texts_placed]

end IsCut

/-- A text whose brackets match has a cut. -/
theorem exists_isCut (hwords : Words delimiters) (h : Balanced text) :
    ∃ first rest, IsCut delimiters [] text first rest := by
  -- without characters that may not stand alone, nothing stops a scan
  cases hscan : scan delimiters [] ⟨text, 0⟩ 0 [] 0 text with
  | ok found => exact ⟨_, _, (isCut_of_scan (fun d hd => (hwords d hd).1) hscan).1⟩
  | error e =>
    have hfails : FailsOnly _ (scan delimiters [] ⟨text, 0⟩ 0 [] 0 text) :=
      failsOnly_scan_of_closes (fun d hd => (hwords d hd).2) h
    exact absurd rfl (hfails e hscan).2

/-! ## Splits -/

/-- Is a part of the text missing? The first one is needed unless a minus sign follows, the others
are needed in any case. -/
def LacksPart (first : List Char) (rest : List (Delimiter κ × List Char)) : Prop :=
  (first = [] ∧ rest.head?.map (·.1.spelling) ≠ some ['-']) ∨ ∃ x ∈ rest, x.2 = []

theorem missing?_eq_none_iff_not_lacksPart {parts : Split κ} :
    parts.missing? = none ↔ ¬ LacksPart parts.first.text (texts parts.rest) := by
  rw [missing?_eq_none, allowsEmptyFirst_iff]
  simp only [LacksPart, not_or, not_and, not_not, not_exists, ne_eq]

end Split

open Split

variable {κ : Type} {delimiters : List (Delimiter κ)} {lone : List Char} {s : Segment}
  {parts : Split κ}

/-- The parts of a split, with the delimiters between them, are the text, each in its place. They
are cut wherever they have to be, and have text unless the first one stands in front of a minus
sign. -/
structure Segment.IsSplit (delimiters : List (Delimiter κ)) (lone : List Char) (s : Segment)
    (parts : Split κ) : Prop where
  isCut : IsCut delimiters [] s.text parts.first.text (texts parts.rest)
  text_eq : s.text = parts.first.text ++ spelled (texts parts.rest)
  offset_first : parts.first.offset = s.offset
  offset_rest : ∀ before d part after, parts.rest = before ++ (d, part) :: after →
    part.offset =
      s.offset + (parts.first.text ++ spelled (texts before) ++ d.spelling).length
  mem_delimiters : ∀ d ∈ parts.delimiters, d ∈ delimiters
  balanced : ∀ part ∈ parts.parts, Balanced part.text
  uncut : ∀ part ∈ parts.parts, ∀ before c after, Outside [] part.text before c after →
    delimiterAt? delimiters (c :: after) = none ∧ c ∉ lone
  nonempty_rest : ∀ part ∈ parts.parts.tail, part.text ≠ []
  nonempty_first : parts.first.text = [] → parts.delimiters.head?.map (·.spelling) = some ['-']

/-- What a split refuses: a text whose brackets do not match, or whose cut has a character that
stands alone, outside all brackets of a part, or lacks a part. -/
inductive Refused (delimiters : List (Delimiter κ)) (lone text : List Char) : Prop where
  | unbalanced (h : ¬ Balanced text)
  | alone {first part before after : List Char} {c : Char} {rest : List (Delimiter κ × List Char)}
      (h : IsCut delimiters [] text first rest) (hpart : part ∈ first :: rest.map (·.2))
      (hc : Outside [] part before c after) (hlone : c ∈ lone)
  | lacking {first : List Char} {rest : List (Delimiter κ × List Char)}
      (h : IsCut delimiters [] text first rest) (hlacks : LacksPart first rest)

/-- A text begins with no delimiter if it does not with more text behind it. -/
theorem Split.delimiterAt?_eq_none_of_append {text behind : List Char}
    (h : delimiterAt? delimiters (text ++ behind) = none) : delimiterAt? delimiters text = none :=
  delimiterAt?_eq_none.2 fun d hd hbegins =>
    delimiterAt?_eq_none.1 h d hd (hbegins.trans (List.prefix_append text behind))

theorem Segment.isSplit_of_split (hspelling : ∀ d ∈ delimiters, d.spelling ≠ [])
    (h : s.split delimiters lone = .ok parts) : s.IsSplit delimiters lone parts := by
  obtain ⟨hcut, hclear, hoffset, hplaced, hmissing⟩ := (Segment.split_eq_ok_iff hspelling).1 h
  rw [missing?_eq_none_iff_not_lacksPart] at hmissing
  simp only [LacksPart, not_or, not_and, not_not, not_exists, ne_eq] at hmissing
  have hcuts (part : Segment) (hpart : part ∈ parts.parts) :
      ∃ text rest, IsCut delimiters [] text part.text rest :=
    hcut.of_mem (map_text_parts parts ▸ List.mem_map_of_mem hpart)
  constructor
  case isCut => exact hcut
  case text_eq => exact hcut.text_eq
  case offset_first => exact hoffset
  case offset_rest =>
    intro before d part after hrest
    rw [offset_of_placed (hplaced.symm.trans hrest)]
    simp only [List.length_append]
    omega
  case mem_delimiters =>
    refine List.forall_mem_map.2 fun x hx => ?_
    exact (hcut.behind (List.mem_map_of_mem hx)).1
  case balanced =>
    intro part hpart
    obtain ⟨text, rest, h⟩ := hcuts part hpart
    exact h.closes
  case uncut =>
    intro part hpart before c after hc
    obtain ⟨text, rest, h⟩ := hcuts part hpart
    have hnone : delimiterAt? delimiters (c :: after ++ spelled rest) = none :=
      h.uncut before c after hc
    exact ⟨delimiterAt?_eq_none_of_append hnone,
      (closes_iff_outside.1 (hclear part hpart)).2 before c after hc⟩
  case nonempty_rest =>
    exact List.forall_mem_map.2 fun x hx => hmissing.2 _ (List.mem_map_of_mem hx)
  case nonempty_first =>
    intro hempty
    simpa [Split.delimiters, texts] using hmissing.1 hempty

/-- A split fails for the texts that it refuses, and for no others. -/
theorem Segment.split_eq_error_iff (hwords : Words delimiters) :
    (∃ e, s.split delimiters lone = .error e) ↔ Refused delimiters lone s.text := by
  constructor
  · rintro ⟨e, he⟩
    by_contra haccepted
    have hbalanced : Balanced s.text := by
      by_contra h
      exact haccepted (.unbalanced h)
    obtain ⟨first, rest, hcut⟩ := exists_isCut hwords hbalanced
    have hclear (part : List Char) (hpart : part ∈ first :: rest.map (·.2)) : Clear lone part := by
      obtain ⟨text, rest, h⟩ := hcut.of_mem hpart
      exact closes_iff_outside.2 ⟨h.closes, fun before c after hc hlone =>
        haccepted (.alone hcut hpart hc hlone)⟩
    have hsplit := Segment.split_of_isCut hcut hclear
      (missing?_eq_none_iff_not_lacksPart.2 fun h => haccepted (.lacking hcut (by simpa using h)))
    rw [hsplit] at he
    cases he
  · intro hrefused
    cases hsplit : s.split delimiters lone with
    | error e => exact ⟨e, rfl⟩
    | ok parts =>
      obtain ⟨hcut, hclear, -, -, hmissing⟩ :=
        (Segment.split_eq_ok_iff fun d hd => (hwords d hd).1).1 hsplit
      cases hrefused with
      | unbalanced h => exact absurd (hcut.balanced hwords) h
      | @alone _ part _ _ _ _ h hpart hc hlone =>
        obtain ⟨rfl, rfl⟩ := h.unique hcut
        rw [← map_text_parts] at hpart
        obtain ⟨segment, hsegment, rfl⟩ := List.mem_map.1 hpart
        exact absurd hlone ((closes_iff_outside.1 (hclear segment hsegment)).2 _ _ _ hc)
      | lacking h hlacks =>
        obtain ⟨rfl, rfl⟩ := h.unique hcut
        exact absurd hlacks (missing?_eq_none_iff_not_lacksPart.1 hmissing)

/-! ## The splits of the parser -/

/-- With these delimiters, the text of every segment is cut wherever it has to be and nothing of it
is lost, or it is refused. -/
structure SplitsExactly (delimiters : List (Delimiter κ)) (lone : List Char) : Prop where
  isSplit : ∀ s parts, Segment.split delimiters lone s = .ok parts →
    s.IsSplit delimiters lone parts
  error_iff : ∀ s, (∃ e, Segment.split delimiters lone s = .error e) ↔
    Refused delimiters lone s.text
  kind : ∀ s e, Segment.split delimiters lone s = .error e → e.kind = .parse

theorem splitsExactly_of_words (hwords : Words delimiters) (lone : List Char) :
    SplitsExactly delimiters lone :=
  ⟨fun _ _ h => Segment.isSplit_of_split (fun d hd => (hwords d hd).1) h,
    fun _ => Segment.split_eq_error_iff hwords, Segment.failsOnly_split delimiters lone⟩

theorem Level.words (level : Level) : Words level.delimiters := by
  intro d hd
  refine ⟨Grammar.spelling_ne_nil hd, fun c hc => ?_⟩
  rw [(Level.mem_delimiters hd).1] at hc
  exact Level.isBracket_of_mem_symbol hc

/-- Formulas are split exactly at the operators of each pass, and argument lists at any separator
that is one character and no bracket. -/
theorem Syntax.splits_exactly :
    (∀ level : Level, SplitsExactly level.delimiters level.lone) ∧
      ∀ c, isBracket c = false → SplitsExactly [(⟨[c], ()⟩ : Delimiter Unit)] [] :=
  ⟨fun level => splitsExactly_of_words level.words level.lone,
    fun c hc => splitsExactly_of_words (by simp [Words, hc]) []⟩

/-- An argument list, which stands behind three characters, is split at its outer semicolon only. -/
theorem Syntax.splits_exactly_semicolon :
    isBracket ';' = false ∧
      Segment.split [(⟨[';'], ()⟩ : Delimiter Unit)] [] ⟨"f(a;b);c".toList, 3⟩ =
        .ok ⟨⟨"f(a;b)".toList, 3⟩, [(⟨[';'], ()⟩, ⟨['c'], 10⟩)]⟩ ∧
      Segment.IsSplit [(⟨[';'], ()⟩ : Delimiter Unit)] [] ⟨"f(a;b);c".toList, 3⟩
        ⟨⟨"f(a;b)".toList, 3⟩, [(⟨[';'], ()⟩, ⟨['c'], 10⟩)]⟩ :=
  ⟨by decide, by rfl, (Syntax.splits_exactly.2 ';' (by decide)).isSplit _ _ (by rfl)⟩

end Formulary
