import Formulary.Proofs.Syntax.Completeness
import Formulary.Proofs.Syntax.Recording

/-!
# Brackets are checked once

A text whose brackets do not match is refused by the first split. If they match, no later split
finds anything wrong with them: what a pass is given is `Balanced` again, at any depth
(`Hands.balanced`). So the search for the partner of a bracket, which ignores the kinds of the
brackets, always finds it (`Language.brackets_of_parse`).

The separator of arguments must not contain brackets itself, as cutting at it would open or close
them.
-/

namespace Formulary

open Formulary.Bracket Grammar

namespace ParseError

/-- Is the error about a bracket that is not open, not closed, or closed with one of another kind?
-/
def isBracketError : ParseError → Bool
  | notOpen .. | mismatch .. | notClosed .. => true
  | _ => false

end ParseError

/-! ## Blanks -/

namespace Closes

variable {marks text text' : List Char} {stack : List Bracket} {c : Char}

/-- A character in front changes nothing about what the texts behind it close. -/
theorem cons_imp (h : ∀ stack, Closes marks stack text → Closes marks stack text')
    (hc : Closes marks stack (c :: text)) : Closes marks stack (c :: text') := by
  cases hc with
  | opening hc hrest => exact .opening hc (h _ hrest)
  | closing hc hrest => exact .closing hc (h _ hrest)
  | inside hc hrest => exact .inside hc (h _ hrest)
  | outside hc hm hrest => exact .outside hc hm (h _ hrest)

end Closes

theorem isBracket_of_isBlank {c : Char} (h : Text.isBlank c = true) : isBracket c = false := by
  have hbracket (b : Bracket) : Text.isBlank b.opening = false ∧ Text.isBlank b.closing = false := by
    cases b <;> decide
  refine isBracket_eq_false_iff.2 ⟨?_, ?_⟩
  · refine Option.eq_none_iff_forall_ne_some.2 fun b hb => ?_
    rw [← opening_of_opened? hb, (hbracket b).1] at h
    cases h
  · refine Option.eq_none_iff_forall_ne_some.2 fun b hb => ?_
    rw [← closing_of_closed? hb, (hbracket b).2] at h
    cases h

/-- Blanks do not matter to brackets. -/
theorem closes_compact_iff {text : List Char} (stack : List Bracket) :
    Closes [] stack (Text.compact text) ↔ Closes [] stack text := by
  induction text generalizing stack with
  | nil => exact Iff.rfl
  | cons c text ih =>
    cases hblank : Text.isBlank c with
    | true =>
      have hc := isBracket_of_isBlank hblank
      have hcompact : Text.compact (c :: text) = Text.compact text :=
        List.filter_cons_of_neg (by simp [hblank])
      rw [hcompact, ih]
      exact ⟨fun h => h.cons hc, fun h => h.tail hc⟩
    | false =>
      have hcompact : Text.compact (c :: text) = c :: Text.compact text :=
        List.filter_cons_of_pos (by simp [hblank])
      rw [hcompact]
      exact ⟨Closes.cons_imp fun _ => (ih _).1, Closes.cons_imp fun _ => (ih _).2⟩

theorem balanced_compact_iff {text : List Char} : Balanced (Text.compact text) ↔ Balanced text :=
  closes_compact_iff []

/-! ## Splits -/

section Splits

variable {κ : Type} {delimiters : List (Delimiter κ)} {lone : List Char} {s : Segment}
  (hplain : ∀ d ∈ delimiters, ∀ c ∈ d.spelling, isBracket c = false)
include hplain

/-- A scan finds nothing wrong with the brackets of a text that closes those that are open, so that
it fails only where a character stands alone. -/
theorem Split.failsOnly_scan_of_closes {whole : Segment} {index : Nat}
    {stack : List (Bracket × Nat)} {skip : Nat} {text : List Char}
    (h : Closes [] (stack.map (·.1)) (text.drop skip)) :
    FailsOnly (fun e => e.isBracketError = false ∧ lone ≠ [])
      (Split.scan delimiters lone whole index stack skip text) := by
  fun_induction Split.scan delimiters lone whole index stack skip text with
  | case1 => exact .ok _
  | case2 index _ bracket openedAt stack =>
    rw [List.drop_nil] at h
    cases h
  | case3 index stack skip c cs ih => exact ih h
  | case4 index stack c cs bracket ho ih => exact (ih (h.opened ho)).bind fun _ => .ok _
  | case5 index c cs closing hc ho =>
    obtain ⟨outer, hstack, -⟩ := h.closed hc
    cases hstack
  | case6 index c cs bracket openedAt stack ho hc ih =>
    obtain ⟨outer, hstack, h⟩ := h.closed hc
    cases hstack
    exact (ih h).bind fun _ => .ok _
  | case7 index c cs closing bracket openedAt stack hc ho hne =>
    obtain ⟨outer, hstack, -⟩ := h.closed hc
    cases hstack
    exact absurd rfl hne
  | case8 index c cs head tail hc ho ih =>
    exact (ih (h.tail (isBracket_eq_false_iff.2 ⟨ho, hc⟩))).bind fun _ => .ok _
  | case9 index c cs hc ho d hd length =>
    rename_i ih
    obtain ⟨hmem, after, hafter⟩ := Split.delimiterAt?_eq_some hd
    have hbehind : Closes [] [] (cs.drop (length - 1)) := by
      cases hspelling : d.spelling with
      | nil =>
        simpa [length, hspelling] using h.tail (isBracket_eq_false_iff.2 ⟨ho, hc⟩)
      | cons c' word =>
        rw [List.drop_zero, ← hafter] at h
        obtain ⟨-, rfl⟩ : c' = c ∧ word ++ after = cs := by simpa [hspelling] using hafter
        simpa [length, hspelling] using h.behind (hplain d hmem)
    exact (ih hbehind).bind fun _ => .ok _
  | case10 index c cs hc ho hd hl => exact .error ⟨rfl, List.ne_nil_of_mem hl⟩
  | case11 index c cs hc ho hd hl ih =>
    exact (ih (h.tail (isBracket_eq_false_iff.2 ⟨ho, hc⟩))).bind fun _ => .ok _

/-- A split finds nothing wrong with the brackets of a balanced text. -/
theorem Segment.failsOnly_split_of_balanced (h : Balanced s.text) :
    FailsOnly (·.isBracketError = false) (s.split delimiters lone) := by
  have hscan : FailsOnly _ (Split.scan delimiters lone s 0 [] 0 s.text) :=
    Split.failsOnly_scan_of_closes hplain h
  refine FailsOnly.bind (fun e he => (hscan e he).1) fun ⟨part, rest⟩ => ?_
  dsimp only
  split
  · exact .error rfl
  · exact .ok _

omit hplain in
/-- The parts of a split are balanced, as it passes over brackets in pairs only. -/
theorem Segment.balanced_of_mem_parts (hspelling : ∀ d ∈ delimiters, d.spelling ≠ [])
    {parts : Split κ} (h : s.split delimiters lone = .ok parts) :
    ∀ part ∈ parts.parts, Balanced part.text := by
  obtain ⟨-, hfirst, hrest, -⟩ := Segment.split_sound (Split.cuts_nil delimiters lone) hspelling h
  refine List.forall_mem_cons.2 ⟨hfirst, List.forall_mem_map.2 fun x hx => ?_⟩
  exact (hrest _ (List.mem_map_of_mem hx)).2.1

end Splits

/-- A text can be split at operators only if it is balanced. -/
theorem balanced_of_split {level : Level} {s : Segment} {parts : Split BinaryOp}
    (h : s.split level.delimiters level.lone = .ok parts) : Balanced s.text := by
  obtain ⟨htext, hfirst, hrest, -⟩ :=
    Segment.split_sound (Split.cuts_nil _ _) (fun d hd => spelling_ne_nil hd) h
  rw [htext]
  exact balanced_of_parts hfirst fun x hx => ⟨(hrest x hx).1, (hrest x hx).2.1⟩

/-! ## Readings -/

variable {lang : Language} {root s s' : Segment} {e : ParseError}

/-- One step from a balanced segment leads to a balanced one. -/
theorem Hands.balanced (h : Hands lang s s') (hs : Balanced s.text) : Balanced s'.text := by
  cases h with
  | part hsplit h => exact Segment.balanced_of_mem_parts (fun d hd => spelling_ne_nil hd) hsplit _ h
  | negated cs offset => exact hs.tail (by decide)
  | inner h =>
    obtain ⟨b, inner, hinner, htext⟩ := (isWrapped_iff hs).1 h
    simpa [Segment.inner, htext] using hinner
  | @operand _ f h =>
    obtain ⟨rest, hrest⟩ := h
    rw [Segment.text_drop_name hrest]
    rw [← hrest] at hs
    exact hs.behind function_name_plain
  | @arguments _ name hname hopen h =>
    -- behind the name, the text closes whatever brackets the name may open
    rw [← List.take_append_drop name.length s.text] at hs
    obtain ⟨stack, hstack⟩ := hs.suffix
    obtain ⟨inner, hinner, htext⟩ := exists_inner_of_isWrapped hstack hopen h
    simpa [Segment.inner, Segment.drop, htext] using hinner
  | argument hsplit h =>
    exact Segment.balanced_of_mem_parts (argument_spelling_ne_nil lang) hsplit _ h

/-- So do several steps. -/
theorem Reaches.balanced (h : Reaches lang root s) (hroot : Balanced root.text) :
    Balanced s.text := by
  induction h with
  | refl => exact hroot
  | tail _ hstep ih => exact hstep.balanced ih

/-- Nothing is wrong with the brackets of a balanced segment. -/
theorem Raises.isBracketError (h : Raises lang s e) (hs : Balanced s.text)
    (hargument : ∀ c ∈ lang.format.argument, isBracket c = false) : e.isBracketError = false := by
  cases h with
  | split h =>
    refine Segment.failsOnly_split_of_balanced (fun d hd c hc => ?_) hs e h
    rw [(Level.mem_delimiters hd).1] at hc
    exact Level.isBracket_of_mem_symbol hc
  | arguments h => exact Segment.failsOnly_split_of_balanced (by simpa using hargument) hs e h
  | _ => rfl

/-- A pass is given a balanced text, and a search from an opening bracket finds the closing bracket
of its kind behind a balanced text. -/
def Event.Sound : Event → Prop
  | .given _ s => Balanced s.text
  | .searched text index =>
    ∃ (b : Bracket) (inner after : List Char), text = b.opening :: inner ++ b.closing :: after ∧
      Balanced inner ∧ index = some (inner.length + 1)

theorem Event.Reached.sound {event : Event} (h : event.Reached lang root)
    (hroot : Balanced root.text) : event.Sound := by
  cases h with
  | given pass h => exact h.balanced hroot
  | @searched s h n b hopen =>
    have hs := h.balanced hroot
    rw [← List.take_append_drop n s.text] at hs
    obtain ⟨stack, hstack⟩ := hs.suffix
    obtain ⟨text, htext⟩ := List.head?_eq_some_iff.1 hopen
    change s.text.drop n = _ at htext
    rw [htext] at hstack
    obtain ⟨inner, after, rfl, hinner, -⟩ := hstack.partner
    refine ⟨b, inner, after, htext, hinner, ?_⟩
    change closingIndex? 0 (s.text.drop n) = _
    rw [htext]
    exact closingIndex?_bracketed b hinner after

/-- A text that is not balanced is refused, however deeply formulas may be nested. -/
theorem formula_unbalanced (levels : Nat) (h : ¬ Balanced s.text) :
    ∃ e, Syntax.formula lang levels 0 s = .error e ∧ e.kind = .parse := by
  cases levels with
  | zero => exact ⟨_, rfl, rfl⟩
  | succ levels =>
    rw [Syntax.formula, if_neg (by simp [Syntax.isExhausted])]
    cases hsplit : s.split Level.logic.delimiters Level.logic.lone with
    | ok parts => exact absurd (balanced_of_split hsplit) h
    | error e =>
      refine ⟨e, ?_, Segment.failsOnly_split _ _ s e hsplit⟩
      change (s.split Level.logic.delimiters Level.logic.lone >>= _) = _
      rw [hsplit]
      rfl

/-- A text whose brackets do not match is refused. If they match, no pass ever finds anything wrong
with them: every pass is given balanced text, and every search for the partner of a bracket finds
it. -/
theorem Language.brackets_of_parse (lang : Language) (text : String)
    (hargument : ∀ c ∈ lang.format.argument, isBracket c = false) :
    (Recorded.parse lang text).run.run [] = (lang.parse text, lang.trace text) ∧
      (¬ Balanced text.toList → ∃ e, lang.parse text = .error e ∧ e.kind = .parse) ∧
      (Balanced text.toList →
        (∀ e, lang.parse text = .error e → e.isBracketError = false) ∧
          ∀ event ∈ lang.trace text, event.Sound) := by
  obtain ⟨hrun, htrace⟩ := lang.run_parse text
  rw [← balanced_compact_iff]
  refine ⟨hrun, fun hunbalanced => ?_, fun hbalanced => ⟨fun e he => ?_, fun event hevent => ?_⟩⟩
  · unfold Language.parse
    cases hcompact : Text.compact text.toList with
    | nil => exact absurd (hcompact ▸ .nil) hunbalanced
    | cons c cs => exact formula_unbalanced _ (hcompact ▸ hunbalanced)
  · obtain ⟨s, hs, hraises⟩ := (follows_parse lang text).fails e he
    exact hraises.isBracketError (hs.balanced hbalanced) hargument
  · exact (htrace event hevent).sound hbalanced

/-- A bracket of the wrong kind, and the search for the partner of a bracket. -/
theorem Language.brackets_of_parse_nested :
    (∃ e, ({} : Language).parse "(1]" = .error e ∧ e.kind = .parse) ∧
      Event.searched "(3&)".toList (some 3) ∈ ({} : Language).trace "(3&)+2" ∧
      ∀ event ∈ ({} : Language).trace "(3&)+2", event.Sound := by
  have hargument : ∀ c ∈ ({} : Language).format.argument, isBracket c = false := by decide
  have hmismatch : ¬ Balanced "(1]".toList := fun h => by
    have h : Balanced ['(', '1', ']'] := h
    have h := (h.opened (b := .round) (by decide)).tail (by decide)
    obtain ⟨outer, hstack, -⟩ := h.closed (b := .square) (by decide)
    cases hstack
  have hbalanced : Balanced "(3&)+2".toList :=
    .opening (b := .round) (by decide) <| .inside (by decide) <| .inside (by decide) <|
      .closing (by decide) <| .outside (by decide) (by simp) <| .outside (by decide) (by simp) .nil
  exact ⟨(Language.brackets_of_parse {} _ hargument).2.1 hmismatch, by decide +kernel,
    ((Language.brackets_of_parse {} _ hargument).2.2 hbalanced).2⟩

end Formulary
