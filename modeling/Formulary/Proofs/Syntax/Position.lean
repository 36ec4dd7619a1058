import Mathlib.Data.List.Infix
import Formulary.Proofs.Syntax.Recording
import Formulary.Proofs.Syntax.Soundness

/-!
# Positions of errors

The position that an error reports is a place of the text without blanks, and what the error's
message names stands there (`Language.position_of_parse`).

Each segment of a reading is a piece of the whole text, at its offset (`Segment.Within`). One step
of a reading leads from a piece to a piece of it (`Hands.within`), so all its segments are pieces of
the text, and a position in one of them is a position in the text.
-/

namespace Formulary

open Formulary.Bracket Grammar

/-! ## Segments of a segment -/

namespace Segment

variable {s s' whole : Segment}

/-- The segment is a piece of the other one, and its offset says where. -/
def Within (s whole : Segment) : Prop :=
  ∃ k ≤ whole.text.length, s.offset = whole.offset + k ∧ s.text <+: whole.text.drop k

/-- A segment is within itself. -/
theorem within_refl (s : Segment) : s.Within s := ⟨0, by simp⟩

/-- A part of a part is a part. -/
theorem Within.trans (h : s.Within s') (h' : s'.Within whole) : s.Within whole := by
  obtain ⟨k, hk, hoffset, hprefix⟩ := h
  obtain ⟨k', hk', hoffset', hprefix'⟩ := h'
  have hlength := hprefix'.length_le
  rw [List.length_drop] at hlength
  refine ⟨k' + k, by omega, by omega, ?_⟩
  rw [← List.drop_drop]
  exact hprefix.trans (List.IsPrefix.drop hprefix' k)

/-- What is left of a segment is within it. -/
theorem drop_within {n : Nat} (h : n ≤ s.text.length) : (s.drop n).Within s :=
  ⟨n, h, rfl, List.prefix_rfl⟩

/-- What is inside of brackets is within them. -/
theorem inner_within (h : s.text ≠ []) : s.inner.Within s := by
  refine ⟨1, List.length_pos_iff.2 h, rfl, ?_⟩
  rw [List.drop_one]
  exact List.dropLast_prefix _

end Segment

/-- A text in brackets is not empty. -/
theorem ne_nil_of_isWrapped {text : List Char} (h : isWrapped text = true) : text ≠ [] := by
  rintro rfl
  cases h

namespace ParseError

/-- What the message of an error names, if it is to be found at the error's position. -/
def named? : ParseError → Option String
  | unknownToken text .. => some text
  | loneCharacter c .. => some (String.singleton c)
  | notOpen bracket .. => some (String.singleton bracket.closing)
  | mismatch _ _ closing .. => some (String.singleton closing.closing)
  | notClosed bracket .. => some (String.singleton bracket.opening)
  | missingArgument f .. => some f.name
  | builtinArity f .. => some f.name
  | loopVariable f .. => some f.name
  | arity name .. => some name
  | _ => none

/-- The message names it indeed. -/
theorem message_of_named? {e : ParseError} {word : String} (h : e.named? = some word) :
    ∃ before after, e.report.message = before ++ word ++ after := by
  have hassoc (a b c d e f : String) : a ++ b ++ c ++ d ++ e ++ f = a ++ b ++ (c ++ d ++ e ++ f) := by
    simp only [String.append_assoc]
  cases e
  case unknownToken =>
    cases h
    refine ⟨"Unknown token: ", "", ?_⟩
    rw [String.append_empty]
    rfl
  case loneCharacter =>
    cases h
    exact ⟨"Incomplete operator '", "'", rfl⟩
  case notOpen =>
    cases h
    exact ⟨"Unexpected closing bracket '", "'", rfl⟩
  case mismatch bracket _ _ _ _ =>
    cases h
    exact ⟨"Bracket '" ++ String.singleton bracket.opening ++ "' cannot be closed with '", "'", rfl⟩
  case notClosed =>
    cases h
    exact ⟨"Unterminated bracket '", "'", rfl⟩
  case missingArgument =>
    cases h
    exact ⟨"Function '", "' is missing its argument", rfl⟩
  case builtinArity =>
    cases h
    exact ⟨_, _, hassoc "Function '" _ _ _ _ _⟩
  case loopVariable =>
    cases h
    exact ⟨"First argument of '", "' must be a variable name", rfl⟩
  case arity =>
    cases h
    exact ⟨_, _, hassoc "Function '" _ _ _ _ _⟩
  all_goals cases h

/-- If the error has a position, it lies in the segment, and what the message names begins there. -/
def PointsInto (e : ParseError) (s : Segment) : Prop :=
  ∀ position, e.report.position = some position →
    ∃ k ≤ s.text.length, position = ((s.offset + k : Nat) : Int) ∧
      ∀ word, e.named? = some word → word.toList <+: s.text.drop k

variable {e : ParseError} {s whole : Segment}

/-- What points into a part points into the whole. -/
theorem PointsInto.within (h : e.PointsInto s) (hs : s.Within whole) : e.PointsInto whole := by
  intro position hposition
  obtain ⟨k, hk, rfl, hword⟩ := h position hposition
  obtain ⟨k', hk', hoffset, hprefix⟩ := hs
  have hlength := hprefix.length_le
  rw [List.length_drop] at hlength
  refine ⟨k' + k, by omega, by omega, fun word h => ?_⟩
  rw [← List.drop_drop]
  exact (hword word h).trans (List.IsPrefix.drop hprefix k)

/-- An error that names nothing points into a segment if its position lies there. -/
theorem pointsInto_of_position {k : Nat} (hk : k ≤ s.text.length)
    (hposition : e.report.position = some ((s.offset + k : Nat) : Int))
    (hword : ∀ word, e.named? = some word → word.toList <+: s.text.drop k) : e.PointsInto s := by
  intro position h
  rw [hposition] at h
  exact ⟨k, hk, (Option.some.inj h).symm, hword⟩

/-- An error without a position. -/
theorem pointsInto_of_none (h : e.report.position = none) : e.PointsInto s := by
  intro position hposition
  rw [h] at hposition
  cases hposition

end ParseError

/-! ## Splits -/

namespace Split

variable {κ : Type} {delimiters : List (Delimiter κ)} {lone : List Char} {whole : Segment}

/-- A missing part is one of the parts. -/
theorem mem_parts_of_missing? {s : Split κ} {part : Segment} (h : s.missing? = some part) :
    part ∈ s.parts := by
  unfold missing? at h
  split at h
  · obtain rfl : s.first = part := Option.some.inj h
    exact List.mem_cons_self
  · exact List.mem_cons_of_mem _ (List.mem_of_find?_eq_some h)

/-- The text behind a character of the whole text. -/
theorem drop_succ_of_drop_eq {index : Nat} {text cs : List Char} {c : Char}
    (h : text.drop index = c :: cs) : index + 1 ≤ text.length ∧ text.drop (index + 1) = cs := by
  have hlength := congrArg List.length h
  rw [List.length_drop, List.length_cons] at hlength
  refine ⟨by omega, ?_⟩
  rw [← List.drop_drop, h]
  rfl

/-- A scan fails at a place of the text, where the bracket or the character stands that it fails at.
-/
theorem scan_pointsInto {index : Nat} {stack : List (Bracket × Nat)} {skip : Nat} {text : List Char}
    (hindex : index ≤ whole.text.length) (htext : whole.text.drop index = text)
    (hstack : ∀ x ∈ stack, x.2 ≤ whole.text.length ∧ [x.1.opening] <+: whole.text.drop x.2) :
    FailsOnly (·.PointsInto whole) (scan delimiters lone whole index stack skip text) := by
  have hhere {index : Nat} {c : Char} {cs : List Char} (htext : whole.text.drop index = c :: cs) :
      [c] <+: whole.text.drop index := by
    rw [htext]
    exact List.prefix_append [c] cs
  fun_induction scan delimiters lone whole index stack skip text with
  | case1 => exact .ok _
  | case2 index _ bracket openedAt stack =>
    obtain ⟨hk, hopening⟩ := hstack _ List.mem_cons_self
    refine .error (ParseError.pointsInto_of_position hk rfl ?_)
    rintro word ⟨⟩
    simpa using hopening
  | case3 index stack skip c cs ih =>
    obtain ⟨hindex, htext⟩ := drop_succ_of_drop_eq htext
    exact ih hindex htext hstack
  | case4 index stack c cs bracket ho ih =>
    obtain ⟨hnext, hcs⟩ := drop_succ_of_drop_eq htext
    refine (ih hnext hcs (List.forall_mem_cons.2 ⟨⟨hindex, ?_⟩, hstack⟩)).bind fun _ => .ok _
    rw [opening_of_opened? ho]
    exact hhere htext
  | case5 index c cs closing hc ho =>
    refine .error (ParseError.pointsInto_of_position hindex rfl ?_)
    rintro word ⟨⟩
    simpa [closing_of_closed? hc] using hhere htext
  | case6 index c cs bracket openedAt stack ho hc ih =>
    obtain ⟨hnext, hcs⟩ := drop_succ_of_drop_eq htext
    exact (ih hnext hcs (List.forall_mem_cons.1 hstack).2).bind fun _ => .ok _
  | case7 index c cs closing bracket openedAt stack hc ho hne =>
    refine .error (ParseError.pointsInto_of_position hindex rfl ?_)
    rintro word ⟨⟩
    simpa [closing_of_closed? hc] using hhere htext
  | case8 | case9 | case11 =>
    rename_i ih
    obtain ⟨hnext, hcs⟩ := drop_succ_of_drop_eq htext
    exact (ih hnext hcs hstack).bind fun _ => .ok _
  | case10 index c cs hc ho hd hl =>
    refine .error (ParseError.pointsInto_of_position hindex rfl ?_)
    rintro word ⟨⟩
    simpa using hhere htext

end Split

namespace Segment

variable {κ : Type} {delimiters : List (Delimiter κ)} {lone : List Char} {s : Segment}
  (hspelling : ∀ d ∈ delimiters, d.spelling ≠ [])
include hspelling

/-- The parts of a segment are pieces of it. -/
theorem parts_within {part : List Char} {rest : List (Delimiter κ × Segment)}
    (h : Split.scan delimiters lone s 0 [] 0 s.text = .ok (part, rest)) :
    ∀ p ∈ (Split.mk ⟨part, s.offset⟩ rest).parts, p.Within s := by
  obtain ⟨hcut, -, -, hplaced⟩ := Split.isCut_of_scan hspelling h
  have htext : s.text = _ := hcut.text_eq
  have hfirst : Segment.Within ⟨part, s.offset⟩ s :=
    ⟨0, Nat.zero_le _, rfl, htext ▸ List.prefix_append _ _⟩
  refine List.forall_mem_cons.2 ⟨hfirst, List.forall_mem_map.2 fun (d, p) hp => ?_⟩
  obtain ⟨before, after, hrest⟩ : ∃ before after, rest = before ++ (d, p) :: after :=
    List.append_of_mem hp
  have hoffset := Split.offset_of_placed (hplaced.symm.trans hrest)
  have hs : s.text = (part ++ Split.spelled (Split.texts before) ++ d.spelling) ++
      (p.text ++ Split.spelled (Split.texts after)) := by
    rw [htext, hrest]
    simp
  refine ⟨(part ++ Split.spelled (Split.texts before) ++ d.spelling).length, ?_, ?_, ?_⟩
  · simp only [hs, List.length_append]
    omega
  · simp only [hoffset, List.length_append]
    omega
  · rw [hs, List.drop_left]
    exact List.prefix_append _ _

/-- The parts of a segment are within it. -/
theorem split_within {parts : Split κ} (h : s.split delimiters lone = .ok parts) :
    ∀ p ∈ parts.parts, p.Within s := by
  obtain ⟨⟨part, rest⟩, hscan, h⟩ := bind_eq_ok.1 h
  dsimp only at h
  split at h
  · cases h
  · cases h
    exact parts_within hspelling hscan

/-- A split fails at a place of its segment. -/
theorem split_pointsInto : FailsOnly (·.PointsInto s) (s.split delimiters lone) := by
  intro e he
  unfold split at he
  cases hscan : Split.scan delimiters lone s 0 [] 0 s.text with
  | error e' =>
    rw [hscan] at he
    obtain rfl : e' = e := Except.error.inj he
    exact Split.scan_pointsInto (Nat.zero_le _) rfl (by simp) e' hscan
  | ok found =>
    obtain ⟨part, rest⟩ := found
    rw [hscan] at he
    dsimp only [bind, Except.bind] at he
    split at he
    · next missing hmissing =>
      cases he
      obtain ⟨k, hk, hoffset, -⟩ :=
        parts_within hspelling hscan missing (Split.mem_parts_of_missing? hmissing)
      exact ParseError.pointsInto_of_position hk (congrArg (some ∘ Int.ofNat) hoffset) (by rintro _ ⟨⟩)
    · cases he

end Segment

/-! ## Readings -/

variable {lang : Language} {root s s' : Segment} {e : ParseError}

/-- A text is no shorter than the name that it begins with. -/
theorem length_le_of_name {name : String} (h : name.toList <+: s.text) :
    name.length ≤ s.text.length := by
  have := h.length_le
  rwa [String.length_toList] at this

/-- One step leads to a piece of a segment. -/
theorem Hands.within (h : Hands lang s s') : s'.Within s := by
  cases h with
  | part hsplit h => exact Segment.split_within (fun d hd => spelling_ne_nil hd) hsplit _ h
  | negated cs offset => exact ⟨1, by simp, rfl, List.prefix_rfl⟩
  | inner h => exact Segment.inner_within (ne_nil_of_isWrapped h)
  | operand h => exact Segment.drop_within (length_le_of_name h)
  | arguments hname _ h =>
    exact (Segment.inner_within (ne_nil_of_isWrapped h)).trans
      (Segment.drop_within (length_le_of_name hname))
  | argument hsplit h => exact Segment.split_within (argument_spelling_ne_nil lang) hsplit _ h

/-- So do several steps. -/
theorem Reaches.within (h : Reaches lang root s) : s.Within root := by
  induction h with
  | refl => exact Segment.within_refl root
  | tail _ hstep ih => exact hstep.within.trans ih

/-- An error points into the segment that it arises at. -/
theorem Raises.pointsInto (h : Raises lang s e) : e.PointsInto s := by
  have hstart {e : ParseError} (hposition : e.report.position = some ((s.offset + 0 : Nat) : Int))
      (hword : ∀ word, e.named? = some word → word.toList <+: s.text) : e.PointsInto s :=
    ParseError.pointsInto_of_position (Nat.zero_le _) hposition hword
  cases h with
  | empty | exhausted | emptyAtom => exact ParseError.pointsInto_of_none rfl
  | number e => cases e <;> exact ParseError.pointsInto_of_none rfl
  | split h => exact Segment.split_pointsInto (fun d hd => spelling_ne_nil hd) e h
  | arguments h => exact Segment.split_pointsInto (argument_spelling_ne_nil lang) e h
  | noArgumentList h =>
    exact ParseError.pointsInto_of_position (length_le_of_name h) rfl (by rintro _ ⟨⟩)
  | tooDeep => exact hstart rfl (by rintro _ ⟨⟩)
  | missingArgument h | builtinArity h | loopVariable h | arity h =>
    refine hstart rfl ?_
    rintro word ⟨⟩
    exact h
  | unknownToken =>
    refine hstart rfl ?_
    rintro word ⟨⟩
    rw [Segment.shown, String.toList_ofList]

/-- An error points into the text that it arises from. -/
theorem ParseError.ArisesWithin.pointsInto (h : e.ArisesWithin lang root) : e.PointsInto root := by
  obtain ⟨s, hs, hraises⟩ := h
  exact hraises.pointsInto.within hs.within

/-- The position of an error lies in the text without its blanks, and the token, character, bracket
or function that the message names begins there. -/
theorem Language.position_of_parse {lang : Language} {text : String} {e : ParseError} {p : Int}
    (h : lang.parse text = .error e) (hp : e.report.position = some p) :
    0 ≤ p ∧ p ≤ (Text.compact text.toList).length ∧
      ∀ word, e.named? = some word → word.toList <+: (Text.compact text.toList).drop p.toNat ∧
        ∃ before after, e.report.message = before ++ word ++ after := by
  obtain ⟨k, hk, rfl, hword⟩ := ((follows_parse lang text).fails e h).pointsInto p hp
  rw [Nat.zero_add, Int.toNat_natCast]
  exact ⟨Int.natCast_nonneg k, Int.ofNat_le.2 hk, fun word h =>
    ⟨hword word h, ParseError.message_of_named? h⟩⟩

/-- A lone character inside brackets. -/
theorem Language.position_of_parse_lone :
    let e : ParseError := .loneCharacter '&' 2 "3&"
    ({} : Language).parse "( 3 & ) + 2" = .error e ∧ e.report.position = some 2 ∧
      (0 : Int) ≤ 2 ∧ (2 : Int) ≤ (Text.compact "( 3 & ) + 2".toList).length ∧
      ∀ word, e.named? = some word →
        word.toList <+: (Text.compact "( 3 & ) + 2".toList).drop (Int.toNat 2) ∧
          ∃ before after, e.report.message = before ++ word ++ after := by
  intro e
  have h : ({} : Language).parse "( 3 & ) + 2" = .error e := rfl
  exact ⟨h, rfl, Language.position_of_parse h rfl⟩

end Formulary
