import Formulary.Proofs.Syntax.Scanning

/-!
# What a split finds

A split is the cut of its text, with the places of the parts (`Segment.split_eq_ok_iff`), and so it
is characterised from both sides. `Segment.split_sound`: the parts of a successful split, with the
delimiters between them, are the text, and no mark is left in them outside brackets.
`Segment.split_complete`: a text that is put together from such parts is split into just these.

The marks of a pass are the characters that its delimiters begin with or consist of. Both directions
rest on one fact each about them, which is checked once for the delimiters of a pass: `Cuts` and
`PassesOver`. The only character that a delimiter may share with what is no delimiter is `!`, and
there the next character decides.
-/

namespace Formulary

/-- What is left of a text behind a name. -/
theorem Segment.text_drop_name {s : Segment} {name : String} {rest : List Char}
    (h : name.toList ++ rest = s.text) : (s.drop name.length).text = rest := by
  rw [Segment.drop, ← h, ← String.length_toList, List.drop_left]

namespace Split

open Formulary.Bracket

variable {κ : Type} {delimiters : List (Delimiter κ)} {lone marks : List Char}

/-! ## Marks -/

/-- No mark outside brackets is passed over. -/
def Cuts (delimiters : List (Delimiter κ)) (lone marks : List Char) : Prop :=
  ∀ c ∈ marks, ∀ text, c ∈ lone ∨ (delimiterAt? delimiters (c :: text)).isSome

/-- Everything but the marks is passed over; where `=` is a mark, an exclamation mark only if it
begins no `!=`. -/
def PassesOver (delimiters : List (Delimiter κ)) (lone marks : List Char) : Prop :=
  ∀ c text, c ∉ marks → (c = '!' → '=' ∈ marks → text.head? ≠ some '=') →
    delimiterAt? delimiters (c :: text) = none ∧ c ∉ lone

/-- Without marks there is nothing to cut at. -/
theorem cuts_nil (delimiters : List (Delimiter κ)) (lone : List Char) : Cuts delimiters lone [] := by
  intro c hc
  cases hc

/-- No mark is left in a part of a cut in which no character stands alone. -/
theorem IsCut.clear {stack : List Bracket} {text first : List Char}
    {rest : List (Delimiter κ × List Char)} (h : IsCut delimiters stack text first rest)
    (hlone : Closes lone stack first) (hcuts : Cuts delimiters lone marks) :
    Closes marks stack first := by
  refine closes_iff_outside.2 ⟨h.closes, fun before c after hc hm => ?_⟩
  -- a mark would have been a delimiter or a failure
  rcases hcuts c hm (after ++ spelled rest) with hl | hd
  · exact (closes_iff_outside.1 hlone).2 before c after hc hl
  · simp [h.uncut before c after hc] at hd

/-- A clear text is passed over. -/
theorem PassesOver.uncut (hpass : PassesOver delimiters lone marks) {stack : List Bracket}
    {text behind : List Char} (htext : Closes marks stack text)
    (hbang : text.getLast? = some '!' → '=' ∈ marks → behind.head? ≠ some '=') :
    Uncut delimiters stack text behind ∧ Closes lone stack text := by
  have hplaces (before : List Char) (c : Char) (after : List Char)
      (hc : Outside stack text before c after) :
      delimiterAt? delimiters (c :: (after ++ behind)) = none ∧ c ∉ lone := by
    have hclear := hc.clear htext
    refine hpass c _ (hclear.head_notMem hc.plain) ?_
    rintro rfl heq
    -- at the end of the text the next character is the first one behind it
    cases after with
    | nil => exact hbang (by rw [hc.text_eq, List.getLast?_concat]) heq
    | cons d after => exact (hclear.tail hc.plain).head?_ne (c := '=') (by decide) heq
  exact ⟨fun before c after hc => (hplaces before c after hc).1, closes_iff_outside.2
    ⟨htext.mono (by simp), fun before c after hc => (hplaces before c after hc).2⟩⟩

/-- A part that a scan finds whole: it is clear, and no `!` at its end runs into what follows. -/
structure IsPart (marks part : List Char) : Prop where
  clear : Clear marks part
  bang : '=' ∈ marks → part.getLast? ≠ some '!'

/-- A delimiter that a scan recognises in front of a part. -/
structure Recognised (delimiters : List (Delimiter κ)) (d : Delimiter κ) (part : List Char) :
    Prop where
  spelling : ∃ c cs, d.spelling = c :: cs ∧ isBracket c = false
  found : ∀ after, delimiterAt? delimiters (d.spelling ++ (part ++ after)) = some d

theorem IsPart.uncut {part : List Char} (h : IsPart marks part)
    (hpass : PassesOver delimiters lone marks) (behind : List Char) :
    Uncut delimiters [] part behind ∧ Clear lone part :=
  hpass.uncut h.clear fun hlast heq => absurd hlast (h.bang heq)

/-- A text put together from parts and delimiters is cut into these. -/
theorem isCut_of_parts (hpass : PassesOver delimiters lone marks) {first : List Char}
    {rest : List (Delimiter κ × List Char)} (hfirst : IsPart marks first)
    (hrest : ∀ x ∈ rest, IsPart marks x.2 ∧ Recognised delimiters x.1 x.2) :
    IsCut delimiters [] (first ++ spelled rest) first rest := by
  induction rest generalizing first with
  | nil => simpa using IsCut.last hfirst.clear.balanced (hfirst.uncut hpass []).1
  | cons x rest ih =>
    obtain ⟨d, part⟩ := x
    obtain ⟨⟨hpart, hd⟩, hrest⟩ := List.forall_mem_cons.1 hrest
    have := IsCut.cut hfirst.clear.balanced (hfirst.uncut hpass _).1 hd.spelling (hd.found _)
      (ih hpart hrest)
    simpa using this

end Split

open Split

variable {κ : Type} {delimiters : List (Delimiter κ)} {lone marks : List Char}

/-! ## Splits -/

/-- The first part may be empty if the first delimiter is a minus sign. -/
theorem Split.allowsEmptyFirst_iff {parts : Split κ} :
    parts.allowsEmptyFirst = true ↔
      (texts parts.rest).head?.map (·.1.spelling) = some ['-'] := by
  obtain ⟨_, _ | ⟨⟨d, _⟩, _⟩⟩ := parts <;> simp [allowsEmptyFirst]

/-- Nothing is missing in a split whose parts have text, apart from a first one in front of a minus
sign. -/
theorem Split.missing?_eq_none {parts : Split κ} :
    parts.missing? = none ↔ (parts.first.text = [] → parts.allowsEmptyFirst = true) ∧
      ∀ x ∈ texts parts.rest, x.2 ≠ [] := by
  by_cases h : parts.first.text = [] ∧ parts.allowsEmptyFirst = false
  · simp [missing?, h]
  · have hallowed : parts.first.text = [] → parts.allowsEmptyFirst = true := by simpa using h
    have hfirst : (parts.first.text.isEmpty && !parts.allowsEmptyFirst) = false := by
      simpa using h
    rw [missing?, hfirst, if_neg Bool.false_ne_true, List.find?_eq_none, texts,
      List.forall_mem_map, List.forall_mem_map]
    simp only [List.isEmpty_iff]
    exact (and_iff_right hallowed).symm

/-- A split finds the cut of its text if no character stands alone in a part and no part is missing.
-/
theorem Segment.split_of_isCut {s : Segment} {first : List Char}
    {rest : List (Delimiter κ × List Char)} (hcut : IsCut delimiters [] s.text first rest)
    (hclear : ∀ part ∈ first :: rest.map (·.2), Clear lone part)
    (hmissing : Split.missing? ⟨⟨first, s.offset⟩, placed (s.offset + first.length) rest⟩ = none) :
    s.split delimiters lone = .ok ⟨⟨first, s.offset⟩, placed (s.offset + first.length) rest⟩ := by
  obtain ⟨hfirst, hrest⟩ := List.forall_mem_cons.1 hclear
  have hscan : scan delimiters lone s 0 [] 0 s.text = _ :=
    hcut.scan_eq rfl hfirst (List.forall_mem_map.1 hrest) 0
  rw [Nat.add_zero] at hscan
  simp [Segment.split, hscan, hmissing, bind, Except.bind, pure, Except.pure]

/-- A split is the cut of its text, with the places of the parts. No character stands alone in a
part, and no part is missing. -/
theorem Segment.split_eq_ok_iff {s : Segment} {parts : Split κ}
    (hspelling : ∀ d ∈ delimiters, d.spelling ≠ []) :
    s.split delimiters lone = .ok parts ↔
      IsCut delimiters [] s.text parts.first.text (texts parts.rest) ∧
        (∀ part ∈ parts.parts, Clear lone part.text) ∧ parts.first.offset = s.offset ∧
        parts.rest = placed (s.offset + parts.first.text.length) (texts parts.rest) ∧
        parts.missing? = none := by
  constructor
  · intro h
    obtain ⟨⟨part, rest⟩, hscan, h⟩ := bind_eq_ok.1 h
    obtain ⟨hcut, hfirst, hrest, hplaced⟩ := isCut_of_scan hspelling hscan
    dsimp only at h
    split at h
    · cases h
    · next hmissing =>
      cases h
      refine ⟨hcut, List.forall_mem_cons.2 ⟨hfirst, ?_⟩, rfl, hplaced, hmissing⟩
      exact List.forall_mem_map.2 fun x hx => hrest _ (List.mem_map_of_mem hx)
  · rintro ⟨hcut, hclear, hoffset, hplaced, hmissing⟩
    obtain ⟨⟨first, offset⟩, rest⟩ := parts
    dsimp only at hcut hoffset hplaced
    subst hoffset
    rw [hplaced] at hmissing ⊢
    refine Segment.split_of_isCut hcut ?_ hmissing
    rw [← map_text_parts ⟨⟨first, s.offset⟩, rest⟩]
    exact List.forall_mem_map.2 hclear

/-- The parts of a successful split make up the text, and no mark is left in them. Only the first
one may be empty, in front of a minus sign. -/
theorem Segment.split_sound {s : Segment} {parts : Split κ}
    (hcuts : Cuts delimiters lone marks) (hspelling : ∀ d ∈ delimiters, d.spelling ≠ [])
    (h : s.split delimiters lone = .ok parts) :
    s.text = parts.first.text ++ spelled (texts parts.rest) ∧ Clear marks parts.first.text ∧
      (∀ x ∈ texts parts.rest, x.1 ∈ delimiters ∧ Clear marks x.2 ∧ x.2 ≠ []) ∧
      (parts.first.text = [] → parts.allowsEmptyFirst = true) := by
  obtain ⟨hcut, hclear, -, -, hmissing⟩ := (split_eq_ok_iff hspelling).1 h
  obtain ⟨hfirst, hrest⟩ := List.forall_mem_cons.1 hclear
  obtain ⟨hallowed, hne⟩ := Split.missing?_eq_none.1 hmissing
  refine ⟨hcut.text_eq, hcut.clear hfirst hcuts, fun x hx => ?_, hallowed⟩
  obtain ⟨hmem, text', rest', hcut'⟩ := hcut.behind hx
  obtain ⟨y, hy, rfl⟩ := List.mem_map.1 hx
  exact ⟨hmem, hcut'.clear (hrest _ (List.mem_map_of_mem hy)) hcuts, hne _ hx⟩

/-- A split fails if the scan does or if a part lacks its text. -/
theorem Segment.failsOnly_split (delimiters : List (Delimiter κ)) (lone : List Char) (s : Segment) :
    FailsOnly (·.kind = .parse) (s.split delimiters lone) := by
  refine FailsOnly.bind (failsOnly_scan delimiters lone s 0 [] 0 s.text) fun ⟨part, rest⟩ => ?_
  dsimp only
  split
  · exact .error rfl
  · exact .ok _

/-- A text put together from parts and delimiters is split into these. -/
theorem Segment.split_complete {s : Segment} {first : List Char}
    {rest : List (Delimiter κ × List Char)} (hpass : PassesOver delimiters lone marks)
    (hs : s.text = first ++ spelled rest) (hfirst : IsPart marks first)
    (hrest : ∀ x ∈ rest, IsPart marks x.2 ∧ Recognised delimiters x.1 x.2 ∧ x.2 ≠ [])
    (hempty : first = [] → ∃ d part rest', rest = (d, part) :: rest' ∧ d.spelling = ['-']) :
    ∃ parts, s.split delimiters lone = .ok parts ∧ parts.first.text = first ∧
      texts parts.rest = rest := by
  have hcut := isCut_of_parts hpass hfirst fun x hx => ⟨(hrest x hx).1, (hrest x hx).2.1⟩
  refine ⟨_, Segment.split_of_isCut (hs ▸ hcut) ?_ ?_, rfl, texts_placed _ rest⟩
  · refine List.forall_mem_cons.2 ⟨(hfirst.uncut hpass []).2, List.forall_mem_map.2 fun x hx => ?_⟩
    exact ((hrest x hx).1.uncut hpass []).2
  · refine Split.missing?_eq_none.2 ⟨fun h => ?_, fun x hx => ?_⟩
    · obtain ⟨d, part, rest', rfl, hminus⟩ := hempty h
      simp [allowsEmptyFirst, placed, hminus]
    · rw [texts_placed] at hx
      exact (hrest x hx).2.2

end Formulary
