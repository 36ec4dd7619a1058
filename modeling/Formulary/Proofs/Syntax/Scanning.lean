import Formulary.Proofs.Outcome
import Formulary.Proofs.Syntax.Brackets

/-!
# What a scan finds

`IsCut` says where a text is cut at delimiters, whatever stands alone in it: a part goes up to the
first place outside all brackets where a delimiter begins, the first delimiter of the list that fits
there is taken, and the text behind it is cut in the same way.

`scan_eq_ok_iff`: a scan returns this cut, with the places of the parts, if no character stands
alone in a part. What the parts of a split are like follows from the cut, with no more scanning.
-/

namespace Formulary

namespace Split

open Formulary.Bracket

variable {κ : Type} {delimiters : List (Delimiter κ)} {lone : List Char}

/-- The text of delimiters and of the parts behind them. -/
def spelled (rest : List (Delimiter κ × List Char)) : List Char :=
  rest.flatMap fun (d, part) => d.spelling ++ part

/-- The parts without their offsets. -/
def texts (rest : List (Delimiter κ × Segment)) : List (Delimiter κ × List Char) :=
  rest.map fun (d, part) => (d, part.text)

/-- The parts with their offsets, if the first delimiter is at `offset`. -/
def placed : (offset : Nat) → List (Delimiter κ × List Char) → List (Delimiter κ × Segment)
  | _, [] => []
  | offset, (d, part) :: rest =>
    (d, ⟨part, offset + d.spelling.length⟩) ::
      placed (offset + d.spelling.length + part.length) rest

@[simp] theorem spelled_nil : spelled ([] : List (Delimiter κ × List Char)) = [] := rfl

@[simp] theorem spelled_cons (d : Delimiter κ) (part : List Char)
    (rest : List (Delimiter κ × List Char)) :
    spelled ((d, part) :: rest) = d.spelling ++ part ++ spelled rest := by
  simp [spelled]

@[simp] theorem spelled_append (rest rest' : List (Delimiter κ × List Char)) :
    spelled (rest ++ rest') = spelled rest ++ spelled rest' := by
  simp [spelled]

@[simp] theorem texts_nil : texts ([] : List (Delimiter κ × Segment)) = [] := rfl

@[simp] theorem texts_cons (d : Delimiter κ) (part : Segment)
    (rest : List (Delimiter κ × Segment)) :
    texts ((d, part) :: rest) = (d, part.text) :: texts rest := rfl

@[simp] theorem texts_append (rest rest' : List (Delimiter κ × Segment)) :
    texts (rest ++ rest') = texts rest ++ texts rest' := by
  simp [texts]

@[simp] theorem texts_placed (offset : Nat) (rest : List (Delimiter κ × List Char)) :
    texts (placed offset rest) = rest := by
  induction rest generalizing offset with
  | nil => rfl
  | cons x rest ih => rw [placed, texts_cons, ih]

/-- The texts of all parts, the first one included. -/
theorem map_text_parts (s : Split κ) :
    s.parts.map (·.text) = s.first.text :: (texts s.rest).map (·.2) := by
  simp [parts, texts]

/-- A part is placed behind its delimiter, and this one behind all that stands in front of it. -/
theorem offset_of_placed {offset : Nat} {rest : List (Delimiter κ × List Char)}
    {before after : List (Delimiter κ × Segment)} {d : Delimiter κ} {part : Segment}
    (h : placed offset rest = before ++ (d, part) :: after) :
    part.offset = offset + (spelled (texts before) ++ d.spelling).length := by
  induction before generalizing offset rest with
  | nil =>
    cases rest with
    | nil => cases h
    | cons x rest =>
      cases h
      rfl
  | cons y before ih =>
    cases rest with
    | nil => cases h
    | cons x rest =>
      obtain ⟨rfl, hbehind⟩ := List.cons.inj h
      rw [ih hbehind]
      simp only [texts_cons, spelled_cons, List.length_append]
      omega

/-- What is found at the front of a text is there. -/
theorem delimiterAt?_eq_some {text : List Char} {d : Delimiter κ}
    (h : delimiterAt? delimiters text = some d) : d ∈ delimiters ∧ d.spelling <+: text :=
  ⟨List.mem_of_find?_eq_some h, List.isPrefixOf_iff_prefix.1 (by simpa using List.find?_some h)⟩

/-- Nothing is found where no delimiter is at the front. -/
theorem delimiterAt?_eq_none {text : List Char} :
    delimiterAt? delimiters text = none ↔ ∀ d ∈ delimiters, ¬ d.spelling <+: text := by
  simp [delimiterAt?]

/-! ## Parts without delimiters -/

/-- At no place of the part that is outside all brackets does a delimiter begin, where the part is
followed by `behind` and the brackets `stack` are open in front of it. -/
def Uncut (delimiters : List (Delimiter κ)) (stack : List Bracket) (part behind : List Char) : Prop :=
  ∀ before c after, Outside stack part before c after →
    delimiterAt? delimiters (c :: (after ++ behind)) = none

section Uncut

variable {stack stack' : List Bracket} {part behind : List Char} {c : Char}

/-- There is no delimiter in nothing. -/
theorem uncut_nil : Uncut delimiters stack [] behind := by
  intro before c after hc
  simpa using hc.text_eq

/-- A character in front, at which no delimiter begins. -/
theorem Uncut.cons (h : Uncut delimiters stack' part behind) (hstep : Steps c stack stack')
    (hhead : stack = [] → isBracket c = false →
      delimiterAt? delimiters (c :: (part ++ behind)) = none) :
    Uncut delimiters stack (c :: part) behind := by
  intro before d after hd
  rcases hd.cons_cases hstep with ⟨hstack, -, rfl, rfl⟩ | ⟨before, -, hd⟩
  · exact hhead hstack hd.plain
  · exact h before d after hd

/-- There is no delimiter behind the first character either. -/
theorem Uncut.tail (h : Uncut delimiters stack (c :: part) behind) (hstep : Steps c stack stack') :
    Uncut delimiters stack' part behind :=
  fun _ _ _ hd => h _ _ _ (hd.cons hstep)

end Uncut

/-! ## Cuts -/

/-- The text, in front of which the brackets `stack` are open, is cut into its first part and the
delimiters with the parts behind them. -/
inductive IsCut (delimiters : List (Delimiter κ)) :
    List Bracket → List Char → List Char → List (Delimiter κ × List Char) → Prop where
  | last {stack : List Bracket} {part : List Char} (hpart : Closes [] stack part)
      (huncut : Uncut delimiters stack part []) : IsCut delimiters stack part part []
  | cut {stack : List Bracket} {first text part : List Char} {d : Delimiter κ}
      {rest : List (Delimiter κ × List Char)} (hfirst : Closes [] stack first)
      (huncut : Uncut delimiters stack first (d.spelling ++ text))
      (hspelling : ∃ c cs, d.spelling = c :: cs ∧ isBracket c = false)
      (hd : delimiterAt? delimiters (d.spelling ++ text) = some d)
      (h : IsCut delimiters [] text part rest) :
      IsCut delimiters stack (first ++ (d.spelling ++ text)) first ((d, part) :: rest)

namespace IsCut

variable {stack : List Bracket} {text first : List Char} {rest : List (Delimiter κ × List Char)}

/-- The parts of a cut, with the delimiters between them, are the text. -/
theorem text_eq (h : IsCut delimiters stack text first rest) : text = first ++ spelled rest := by
  induction h with
  | last => simp
  | cut _ _ _ _ _ ih => rw [spelled_cons, List.append_assoc, ← ih]

/-- The brackets in a part are closed in it. -/
theorem closes (h : IsCut delimiters stack text first rest) : Closes [] stack first := by
  cases h with
  | last hpart => exact hpart
  | cut hfirst => exact hfirst

/-- There is no delimiter left in the first part. -/
theorem uncut (h : IsCut delimiters stack text first rest) :
    Uncut delimiters stack first (spelled rest) := by
  cases h with
  | last _ huncut => exact huncut
  | cut _ huncut _ _ h => rwa [spelled_cons, List.append_assoc, ← h.text_eq]

/-- Behind each delimiter, the text is cut again. -/
theorem behind {x : Delimiter κ × List Char} (h : IsCut delimiters stack text first rest)
    (hx : x ∈ rest) :
    x.1 ∈ delimiters ∧ ∃ text' rest', IsCut delimiters [] text' x.2 rest' := by
  induction h with
  | last => cases hx
  | cut _ _ _ hd h ih =>
    rcases List.mem_cons.1 hx with rfl | hx
    · exact ⟨(delimiterAt?_eq_some hd).1, _, _, h⟩
    · exact ih hx

/-- A character in front of a text at which it is not cut belongs to its first part. -/
theorem cons {c : Char} {stack' : List Bracket} (h : IsCut delimiters stack' text first rest)
    (hstep : Steps c stack stack')
    (hhead : stack = [] → isBracket c = false → delimiterAt? delimiters (c :: text) = none) :
    IsCut delimiters stack (c :: text) (c :: first) rest := by
  cases h with
  | last hpart huncut =>
    exact .last (hstep.closes_iff.2 hpart) (huncut.cons hstep (by simpa using hhead))
  | cut hfirst huncut hspelling hd h =>
    exact .cut (hstep.closes_iff.2 hfirst) (huncut.cons hstep hhead) hspelling hd h

end IsCut

/-! ## Scans -/

/-- A scan fails if brackets do not match or if a character stands alone. -/
theorem failsOnly_scan (delimiters : List (Delimiter κ)) (lone : List Char) (whole : Segment)
    (index : Nat) (stack : List (Bracket × Nat)) (skip : Nat) (text : List Char) :
    FailsOnly (·.kind = .parse) (scan delimiters lone whole index stack skip text) := by
  fun_induction scan delimiters lone whole index stack skip text with
  | case1 => exact .ok _
  | case2 | case5 | case7 | case10 => exact .error rfl
  | case3 _ _ _ _ _ ih => exact ih
  | case4 _ _ _ _ _ _ ih | case6 _ _ _ _ _ _ _ _ ih | case8 _ _ _ _ _ _ _ ih
  | case9 _ _ _ _ _ _ _ _ ih | case11 _ _ _ _ _ _ _ ih => exact ih.bind fun _ => .ok _

/-- A scan that passes over a character adds it to the first part. -/
theorem consPart_eq_ok {ε β : Type} {c : Char} {x : Except ε (List Char × β)} {part : List Char}
    {rest : β} (h : (do let (p, r) ← x; return (c :: p, r)) = Except.ok (part, rest)) :
    ∃ p, part = c :: p ∧ x = .ok (p, rest) := by
  obtain ⟨⟨p, r⟩, hx, h⟩ := bind_eq_ok.1 h
  cases h
  exact ⟨p, rfl, hx⟩

/-- What a scan returns is the cut of its text, with the places of the parts. No character stands
alone in a part. -/
theorem isCut_of_scan {whole : Segment} (hspelling : ∀ d ∈ delimiters, d.spelling ≠ [])
    {index : Nat} {places : List (Bracket × Nat)} {skip : Nat} {text part : List Char}
    {rest : List (Delimiter κ × Segment)}
    (h : scan delimiters lone whole index places skip text = .ok (part, rest)) :
    IsCut delimiters (places.map (·.1)) (text.drop skip) part (texts rest) ∧
      Closes lone (places.map (·.1)) part ∧ (∀ x ∈ texts rest, Clear lone x.2) ∧
      rest = placed (whole.offset + index + skip + part.length) (texts rest) := by
  have hplace (index n : Nat) :
      whole.offset + index + 0 + (n + 1) = whole.offset + (index + 1) + 0 + n := by omega
  fun_induction scan delimiters lone whole index places skip text generalizing part rest with
  | case1 =>
    obtain ⟨rfl, rfl⟩ : [] = part ∧ [] = rest := by simpa using h
    exact ⟨by simpa using IsCut.last .nil uncut_nil, .nil, by simp, rfl⟩
  | case2 | case5 | case7 | case10 => cases h
  | case3 index places skip c cs ih =>
    obtain ⟨hcut, hpart, hrest, hplaced⟩ := ih h
    refine ⟨hcut, hpart, hrest, hplaced.trans ?_⟩
    congr 1
    omega
  | case4 index places c cs bracket ho ih =>
    obtain ⟨part, rfl, h'⟩ := consPart_eq_ok h
    obtain ⟨hcut, hpart, hrest, hplaced⟩ := ih h'
    refine ⟨hcut.cons (.opening ho) fun _ hc => ?_, .opening ho hpart, hrest,
      by rwa [List.length_cons, hplace]⟩
    simp [(isBracket_eq_false_iff.1 hc).1] at ho
  | case6 index c cs bracket openedAt places ho hc ih =>
    obtain ⟨part, rfl, h'⟩ := consPart_eq_ok h
    obtain ⟨hcut, hpart, hrest, hplaced⟩ := ih h'
    exact ⟨hcut.cons (.closing hc) (by simp), .closing hc hpart, hrest,
      by rwa [List.length_cons, hplace]⟩
  | case8 index c cs head tail hc ho ih =>
    obtain ⟨part, rfl, h'⟩ := consPart_eq_ok h
    obtain ⟨hcut, hpart, hrest, hplaced⟩ := ih h'
    have hc := isBracket_eq_false_iff.2 ⟨ho, hc⟩
    exact ⟨hcut.cons (.plain hc) (by simp), .inside hc hpart, hrest,
      by rwa [List.length_cons, hplace]⟩
  | case9 index c cs hc ho d hd length =>
    -- the part ends in front of a delimiter, and the scan goes on behind it
    rename_i ih
    obtain ⟨⟨part', rest'⟩, h', h⟩ := bind_eq_ok.1 h
    cases h
    obtain ⟨hcut, hpart, hrest, hplaced⟩ := ih h'
    obtain ⟨hmem, after, hafter⟩ := delimiterAt?_eq_some hd
    obtain ⟨c', spelling, hs⟩ := List.exists_cons_of_ne_nil (hspelling d hmem)
    obtain ⟨rfl, rfl⟩ : c' = c ∧ spelling ++ after = cs := by simpa [hs] using hafter
    have hlength : length = spelling.length + 1 := by simp [length, hs]
    have hc' := isBracket_eq_false_iff.2 ⟨ho, hc⟩
    rw [hlength, Nat.add_sub_cancel, List.drop_left] at hcut
    rw [← hafter] at hd
    have hcons : IsCut delimiters [] (d.spelling ++ after) [] _ :=
      .cut .nil uncut_nil ⟨c', spelling, hs, hc'⟩ hd hcut
    have hoffset : whole.offset + (index + 1) + (length - 1) = whole.offset + index + length := by
      omega
    rw [hoffset] at hplaced
    exact ⟨hafter ▸ hcons, .nil, List.forall_mem_cons.2 ⟨hpart, hrest⟩,
      congrArg (List.cons _) hplaced⟩
  | case11 index c cs hc ho hd hl ih =>
    obtain ⟨part, rfl, h'⟩ := consPart_eq_ok h
    obtain ⟨hcut, hpart, hrest, hplaced⟩ := ih h'
    have hc := isBracket_eq_false_iff.2 ⟨ho, hc⟩
    exact ⟨hcut.cons (.plain hc) fun _ _ => hd, .outside hc hl hpart, hrest,
      by rwa [List.length_cons, hplace]⟩

/-- The characters that belong to the last delimiter are left out. -/
theorem scan_skip (whole : Segment) (index : Nat) (stack : List (Bracket × Nat))
    (skipped text : List Char) :
    scan delimiters lone whole index stack skipped.length (skipped ++ text) =
      scan delimiters lone whole (index + skipped.length) stack 0 text := by
  induction skipped generalizing index with
  | nil => rfl
  | cons c skipped ih =>
    rw [List.cons_append, List.length_cons, scan, ih]
    congr 1
    omega

/-- A scan passes over a text without delimiters in which no character stands alone. -/
theorem scan_uncut {whole : Segment} {index : Nat} {stack : List (Bracket × Nat)}
    {text after part : List Char} {rest : List (Delimiter κ × Segment)}
    (htext : Closes lone (stack.map (·.1)) text)
    (huncut : Uncut delimiters (stack.map (·.1)) text after)
    (hafter : scan delimiters lone whole (index + text.length) [] 0 after = .ok (part, rest)) :
    scan delimiters lone whole index stack 0 (text ++ after) = .ok (text ++ part, rest) := by
  -- the open brackets are what the induction is about; the scan keeps their places as well
  generalize hstack : stack.map (·.1) = brackets at htext huncut
  induction htext generalizing index stack with
  | nil =>
    obtain rfl : stack = [] := by simpa using hstack
    simpa using hafter
  | @opening c b brackets text hc _ ih =>
    have := @ih (index + 1) ((b, index) :: stack)
      (by rwa [Nat.add_assoc, Nat.add_comm 1]) (by simp [hstack]) (huncut.tail (.opening hc))
    simp [scan, hc, this, bind, Except.bind, pure, Except.pure]
  | @closing c b brackets text hc _ ih =>
    obtain ⟨⟨_, openedAt⟩, stack, rfl, rfl, hrest⟩ := List.map_eq_cons_iff.1 hstack
    have := @ih (index + 1) stack
      (by rwa [Nat.add_assoc, Nat.add_comm 1]) hrest (huncut.tail (.closing hc))
    simp [scan, hc, opened?_of_closed? hc, this, bind, Except.bind, pure, Except.pure]
  | @inside c b brackets text hc _ ih =>
    obtain ⟨x, stack, rfl, -, -⟩ := List.map_eq_cons_iff.1 hstack
    have := @ih (index + 1) (x :: stack)
      (by rwa [Nat.add_assoc, Nat.add_comm 1]) hstack (huncut.tail (.plain hc))
    rw [isBracket_eq_false_iff] at hc
    simp [scan, hc, this, bind, Except.bind, pure, Except.pure]
  | @outside c text hc hl _ ih =>
    obtain rfl : stack = [] := by simpa using hstack
    have hd : delimiterAt? delimiters (c :: (text ++ after)) = none := huncut _ _ _ (.head hc)
    have := @ih (index + 1) []
      (by rwa [Nat.add_assoc, Nat.add_comm 1]) rfl (huncut.tail (.plain hc))
    rw [isBracket_eq_false_iff] at hc
    simp [scan, hc, hd, hl, this, bind, Except.bind, pure, Except.pure]

/-- A scan cuts at a delimiter that it recognises. -/
theorem scan_delimiter {whole : Segment} {d : Delimiter κ} {index : Nat}
    {after part : List Char} {rest : List (Delimiter κ × Segment)}
    (hd : delimiterAt? delimiters (d.spelling ++ after) = some d)
    (hspelling : ∃ c cs, d.spelling = c :: cs ∧ isBracket c = false)
    (hafter : scan delimiters lone whole (index + d.spelling.length) [] 0 after =
      .ok (part, rest)) :
    scan delimiters lone whole index [] 0 (d.spelling ++ after) =
      .ok ([], (d, ⟨part, whole.offset + index + d.spelling.length⟩) :: rest) := by
  obtain ⟨c, cs, hs, hc⟩ := hspelling
  rw [isBracket_eq_false_iff] at hc
  have hskip : scan delimiters lone whole (index + 1) [] cs.length (cs ++ after) = _ :=
    scan_skip whole (index + 1) [] cs after
  rw [hs, List.length_cons, Nat.add_comm cs.length, ← Nat.add_assoc] at hafter
  rw [hafter] at hskip
  rw [hs, List.cons_append] at hd ⊢
  simp [scan, hc, hd, hs, hskip, bind, Except.bind, pure, Except.pure]

/-- A scan finds a cut in whose parts no character stands alone. -/
theorem IsCut.scan_eq {whole : Segment} {stack : List Bracket} {places : List (Bracket × Nat)}
    {text first : List Char} {rest : List (Delimiter κ × List Char)}
    (h : IsCut delimiters stack text first rest) (hplaces : places.map (·.1) = stack)
    (hfirst : Closes lone stack first) (hrest : ∀ x ∈ rest, Clear lone x.2) (index : Nat) :
    scan delimiters lone whole index places 0 text =
      .ok (first, placed (whole.offset + index + first.length) rest) := by
  induction h generalizing places index with
  | @last stack part _ huncut =>
    subst hplaces
    have : scan delimiters lone whole index places 0 (part ++ []) = _ :=
      scan_uncut hfirst huncut rfl
    simpa [placed] using this
  | @cut stack first text part d rest _ huncut hspelling hd _ ih =>
    subst hplaces
    obtain ⟨hpart, hrest⟩ := List.forall_mem_cons.1 hrest
    have hbehind := @ih [] rfl hpart hrest (index + first.length + d.spelling.length)
    have hcut : scan delimiters lone whole (index + first.length) [] 0 (d.spelling ++ text) = _ :=
      scan_delimiter hd hspelling hbehind
    rw [scan_uncut hfirst huncut hcut]
    simp [placed, Nat.add_assoc]

end Split

end Formulary
