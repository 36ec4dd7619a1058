import Formulary.Syntax.Split

/-!
# Texts with matching brackets

`Closes marks stack text` says that a text closes the brackets that are open before it and its own
ones, in the right order, and that it holds no character of `marks` outside all brackets. The texts
that close nothing but their own brackets are `Clear marks`, and `Balanced` if any character may
stand outside.

The relation follows the stack that a text is scanned with, so each scan of a text is an induction
on it. A text is clear if its brackets match and no place `Outside` all of them holds a mark
(`closes_iff_outside`). `isWrapped_iff` says what the test for an enclosing pair of brackets
decides.
-/

namespace Formulary

/-! ## Characters of a list -/

section Characters

variable (l : List Char) (P : Char → Prop) [DecidablePred P]

-- without these, a fact about the characters of a list would be decided by going through all of
-- Unicode
instance (priority := 2000) decidableForallMemChar : Decidable (∀ c ∈ l, P c) :=
  List.decidableBAll P l

instance (priority := 2000) decidableExistsMemChar : Decidable (∃ c ∈ l, P c) :=
  decidable_of_iff (l.any fun c => P c) (by simp)

end Characters

namespace Bracket

/-- Does the character open or close a bracket? -/
def isBracket (c : Char) : Bool := (opened? c).isSome || (closed? c).isSome

@[simp] theorem opened?_opening (b : Bracket) : opened? b.opening = some b := by
  cases b <;> decide

@[simp] theorem closed?_closing (b : Bracket) : closed? b.closing = some b := by
  cases b <;> decide

/-- What opens a bracket is its opening character. -/
theorem opening_of_opened? {c : Char} {b : Bracket} (h : opened? c = some b) : b.opening = c := by
  simpa using List.find?_some h

/-- What closes a bracket is its closing character. -/
theorem closing_of_closed? {c : Char} {b : Bracket} (h : closed? c = some b) : b.closing = c := by
  simpa using List.find?_some h

/-- No character both opens and closes a bracket. -/
theorem opened?_of_closed? {c : Char} {b : Bracket} (h : closed? c = some b) : opened? c = none := by
  rw [← closing_of_closed? h]
  cases b <;> decide

/-- A character that is no bracket neither opens nor closes one. -/
theorem isBracket_eq_false_iff {c : Char} :
    isBracket c = false ↔ opened? c = none ∧ closed? c = none := by
  simp [isBracket]

/-- Brackets make a text longer. -/
theorem length_lt_bracketed (b : Bracket) (s : List Char) :
    s.length < (b.opening :: s ++ [b.closing]).length := by
  rw [List.length_append, List.length_cons]
  omega

end Bracket

open Formulary.Bracket

/-- The text closes the open brackets `stack` and its own ones, and no character of `marks` stands
outside all of them. -/
inductive Closes (marks : List Char) : List Bracket → List Char → Prop where
  | nil : Closes marks [] []
  | opening {c : Char} {b : Bracket} {stack : List Bracket} {text : List Char}
      (hc : opened? c = some b) (h : Closes marks (b :: stack) text) :
      Closes marks stack (c :: text)
  | closing {c : Char} {b : Bracket} {stack : List Bracket} {text : List Char}
      (hc : closed? c = some b) (h : Closes marks stack text) :
      Closes marks (b :: stack) (c :: text)
  | inside {c : Char} {b : Bracket} {stack : List Bracket} {text : List Char}
      (hc : isBracket c = false) (h : Closes marks (b :: stack) text) :
      Closes marks (b :: stack) (c :: text)
  | outside {c : Char} {text : List Char} (hc : isBracket c = false) (hm : c ∉ marks)
      (h : Closes marks [] text) : Closes marks [] (c :: text)

/-- The brackets of the text match, and no character of `marks` stands outside them. -/
abbrev Clear (marks text : List Char) : Prop := Closes marks [] text

/-- The brackets of the text match. -/
abbrev Balanced (text : List Char) : Prop := Clear [] text

namespace Closes

variable {marks marks' : List Char} {stack : List Bracket} {text text' : List Char} {c : Char}

/-- Fewer marks are easier to avoid. -/
theorem mono (h : Closes marks stack text) (hsub : ∀ c ∈ marks', c ∈ marks) :
    Closes marks' stack text := by
  induction h with
  | nil => exact nil
  | opening hc _ ih => exact opening hc ih
  | closing hc _ ih => exact closing hc ih
  | inside hc _ ih => exact inside hc ih
  | outside hc hm _ ih => exact outside hc (fun h => hm (hsub _ h)) ih

/-- A clear text is balanced. -/
theorem balanced (h : Clear marks text) : Balanced text := h.mono (by simp)

/-- A character that is no bracket may stand anywhere. -/
theorem cons (h : Closes [] stack text) (hc : isBracket c = false) : Closes [] stack (c :: text) := by
  cases stack with
  | nil => exact outside hc List.not_mem_nil h
  | cons b stack => exact inside hc h

/-- A text without any of the marks is clear of them. -/
theorem of_notMem (h : Closes marks' stack text) (hmarks : ∀ c ∈ text, c ∉ marks) :
    Closes marks stack text := by
  induction h with
  | nil => exact nil
  | opening hc _ ih => exact opening hc (ih (List.forall_mem_cons.1 hmarks).2)
  | closing hc _ ih => exact closing hc (ih (List.forall_mem_cons.1 hmarks).2)
  | inside hc _ ih => exact inside hc (ih (List.forall_mem_cons.1 hmarks).2)
  | outside hc _ _ ih =>
    obtain ⟨hm, hrest⟩ := List.forall_mem_cons.1 hmarks
    exact outside hc hm (ih hrest)

/-- A text of harmless characters. -/
theorem of_forall (h : ∀ c ∈ text, isBracket c = false ∧ c ∉ marks) : Clear marks text := by
  induction text with
  | nil => exact nil
  | cons c text ih =>
    obtain ⟨hc, hm⟩ := h c (by simp)
    exact outside hc hm (ih fun d hd => h d (by simp [hd]))

/-- A text goes on after it has closed everything. -/
theorem append (h : Closes marks stack text) (h' : Clear marks text') :
    Closes marks stack (text ++ text') := by
  induction h with
  | nil => exact h'
  | opening hc _ ih => exact opening hc ih
  | closing hc _ ih => exact closing hc ih
  | inside hc _ ih => exact inside hc ih
  | outside hc hm _ ih => exact outside hc hm ih

/-- A balanced text may stand inside the brackets that the text behind it closes. -/
theorem append_inside {b : Bracket} (h : Closes marks' stack text)
    (h' : Closes marks (b :: stack') text') :
    Closes marks (stack ++ b :: stack') (text ++ text') := by
  induction h with
  | nil => exact h'
  | opening hc _ ih => exact opening hc ih
  | closing hc _ ih => exact closing hc ih
  | inside hc _ ih => exact inside hc ih
  | outside hc _ _ ih => exact inside hc ih

/-- A balanced text in brackets is clear of any marks. -/
theorem bracketed (b : Bracket) (h : Balanced text) :
    Clear marks (b.opening :: text ++ [b.closing]) :=
  opening (opened?_opening b) (append_inside h (closing (closed?_closing b) nil))

/-- What stands outside the brackets is no mark. -/
theorem head_notMem (h : Clear marks (c :: text)) (hc : isBracket c = false) : c ∉ marks := by
  rw [isBracket_eq_false_iff] at hc
  cases h with
  | opening ho _ => simp [hc.1] at ho
  | outside _ hm _ => exact hm

/-- A clear text does not begin with a mark. -/
theorem head?_ne (h : Clear marks text) (hc : isBracket c = false) (hm : c ∈ marks) :
    text.head? ≠ some c := by
  cases text with
  | nil => simp
  | cons d text =>
    rintro ⟨⟩
    exact h.head_notMem hc hm

/-- The text behind a character that is no bracket. -/
theorem tail (h : Closes marks stack (c :: text)) (hc : isBracket c = false) :
    Closes marks stack text := by
  rw [isBracket_eq_false_iff] at hc
  cases h with
  | opening ho _ => simp [hc.1] at ho
  | closing hcl _ => simp [hc.2] at hcl
  | inside _ h => exact h
  | outside _ _ h => exact h

/-- The text behind a word without brackets. -/
theorem behind {word : List Char} (h : Closes marks stack (word ++ text))
    (hword : ∀ c ∈ word, isBracket c = false) : Closes marks stack text := by
  induction word with
  | nil => exact h
  | cons c word ih =>
    obtain ⟨hc, hword⟩ := List.forall_mem_cons.1 hword
    exact ih (h.tail hc) hword

/-- The text behind an opening bracket. -/
theorem opened {b : Bracket} (h : Closes marks stack (c :: text)) (hb : opened? c = some b) :
    Closes marks (b :: stack) text := by
  cases h with
  | opening hc h =>
    obtain rfl : b = _ := Option.some.inj (hb.symm.trans hc)
    exact h
  | closing hc _ => simp [opened?_of_closed? hc] at hb
  | inside hc _ => simp [(isBracket_eq_false_iff.1 hc).1] at hb
  | outside hc _ _ => simp [(isBracket_eq_false_iff.1 hc).1] at hb

/-- A closing bracket closes the bracket that was opened last. -/
theorem closed {b : Bracket} (h : Closes marks stack (c :: text)) (hb : closed? c = some b) :
    ∃ outer, stack = b :: outer ∧ Closes marks outer text := by
  cases h with
  | opening hc _ => simp [opened?_of_closed? hb] at hc
  | closing hc h =>
    obtain rfl : b = _ := Option.some.inj (hb.symm.trans hc)
    exact ⟨_, rfl, h⟩
  | inside hc _ => simp [(isBracket_eq_false_iff.1 hc).2] at hb
  | outside hc _ _ => simp [(isBracket_eq_false_iff.1 hc).2] at hb

/-- Without brackets, the text holds no mark at all. -/
theorem notMem (h : Clear marks text) (hplain : ∀ c ∈ text, isBracket c = false) :
    ∀ c ∈ text, c ∉ marks := by
  induction text with
  | nil => simp
  | cons d text ih =>
    have hd := hplain d (by simp)
    have ht := ih (h.tail hd) fun c hc => hplain c (by simp [hc])
    simpa using ⟨h.head_notMem hd, ht⟩

/-- The text in front of a last character that is no bracket. -/
theorem init (h : Closes marks stack (text ++ [c])) (hc : isBracket c = false) :
    Closes marks stack text := by
  induction text generalizing stack with
  | nil =>
    rw [isBracket_eq_false_iff] at hc
    cases h with
    | opening ho h => simp [hc.1] at ho
    | closing hcl h => simp [hc.2] at hcl
    | inside _ h => cases h
    | outside => exact nil
  | cons d text ih =>
    cases h with
    | opening ho h => exact opening ho (ih h)
    | closing hcl h => exact closing hcl (ih h)
    | inside hd h => exact inside hd (ih h)
    | outside hd hm h => exact outside hd hm (ih h)

/-- What is behind any beginning of the text closes the brackets that are open there. -/
theorem suffix (h : Closes marks stack (text ++ text')) : ∃ stack', Closes marks stack' text' := by
  induction text generalizing stack with
  | nil => exact ⟨stack, h⟩
  | cons d text ih =>
    cases h with
    | opening _ h => exact ih h
    | closing _ h => exact ih h
    | inside _ h => exact ih h
    | outside _ _ h => exact ih h

/-- A text that closes an open bracket goes on, behind that bracket, closing the ones around it. -/
theorem unopened (inner : List Bracket) {b : Bracket} {outer : List Bracket}
    (h : Closes marks (inner ++ b :: outer) text) :
    ∃ before after, text = before ++ b.closing :: after ∧ Closes [] inner before ∧
      Closes marks outer after := by
  generalize hstack : inner ++ b :: outer = stack at h
  induction h generalizing inner with
  | nil => simp at hstack
  | @opening c b' stack text hc h ih =>
    obtain ⟨before, after, rfl, hb, ha⟩ := ih (b' :: inner) (by simp [hstack])
    exact ⟨c :: before, after, by simp, opening hc hb, ha⟩
  | @closing c b' stack text hc h ih =>
    cases inner with
    | nil =>
      obtain ⟨rfl, rfl⟩ : b = b' ∧ outer = stack := by simpa using hstack
      exact ⟨[], text, by simp [closing_of_closed? hc], nil, h⟩
    | cons b'' inner =>
      obtain ⟨rfl, hrest⟩ : b'' = b' ∧ inner ++ b :: outer = stack := by simpa using hstack
      obtain ⟨before, after, rfl, hb, ha⟩ := ih inner hrest
      exact ⟨c :: before, after, by simp, closing hc hb, ha⟩
  | @inside c b' stack text hc h ih =>
    obtain ⟨before, after, rfl, hb, ha⟩ := ih inner hstack
    refine ⟨c :: before, after, by simp, ?_, ha⟩
    cases inner with
    | nil => exact outside hc (by simp) hb
    | cons b'' inner => exact inside hc hb
  | outside => simp at hstack

/-- A bracket that is opened at the start of a text has its partner in the text. -/
theorem partner {b : Bracket} (h : Closes marks stack (b.opening :: text)) :
    ∃ inner after, text = inner ++ b.closing :: after ∧ Balanced inner ∧
      Closes marks stack after :=
  (h.opened (opened?_opening b)).unopened []

/-- What is clear of two lists of marks, the second one on its own only at the beginning. -/
theorem split (h : Closes marks stack (text ++ text')) (h' : Closes marks' stack text) :
    Closes (marks ++ marks') stack text ∧ Clear marks text' := by
  induction h' with
  | nil => exact ⟨nil, h⟩
  | @opening c b stack text hc _ ih =>
    cases h with
    | opening hc' h =>
      obtain rfl : b = _ := Option.some.inj (hc.symm.trans hc')
      exact ⟨opening hc (ih h).1, (ih h).2⟩
    | closing hc' => simp [opened?_of_closed? hc'] at hc
    | inside hc' => simp [(isBracket_eq_false_iff.1 hc').1] at hc
    | outside hc' => simp [(isBracket_eq_false_iff.1 hc').1] at hc
  | @closing c b stack text hc _ ih =>
    cases h with
    | opening hc' h => simp [opened?_of_closed? hc] at hc'
    | closing hc' h => exact ⟨closing hc (ih h).1, (ih h).2⟩
    | inside hc' => simp [(isBracket_eq_false_iff.1 hc').2] at hc
  | @inside c b stack text hc _ ih =>
    cases h with
    | opening hc' h => simp [(isBracket_eq_false_iff.1 hc).1] at hc'
    | closing hc' h => simp [(isBracket_eq_false_iff.1 hc).2] at hc'
    | inside _ h => exact ⟨inside hc (ih h).1, (ih h).2⟩
  | @outside c text hc hm _ ih =>
    cases h with
    | opening hc' h => simp [(isBracket_eq_false_iff.1 hc).1] at hc'
    | outside _ hm' h => exact ⟨outside hc (by simp [hm, hm']) (ih h).1, (ih h).2⟩

end Closes

/-! ## Places outside all brackets -/

/-- The open brackets change from the first list to the second one at a character. -/
inductive Bracket.Steps (c : Char) : List Bracket → List Bracket → Prop where
  | opening {b : Bracket} {stack : List Bracket} (hc : opened? c = some b) :
      Steps c stack (b :: stack)
  | closing {b : Bracket} {stack : List Bracket} (hc : closed? c = some b) :
      Steps c (b :: stack) stack
  | plain {stack : List Bracket} (hc : isBracket c = false) : Steps c stack stack

/-- In the text, the character `c` stands between `before` and `after`, where the brackets `stack`
and those of `before` have been closed. It is no bracket itself. -/
structure Outside (stack : List Bracket) (text before : List Char) (c : Char) (after : List Char) :
    Prop where
  text_eq : text = before ++ c :: after
  closes : Closes [] stack before
  plain : isBracket c = false

section Places

variable {marks : List Char} {stack stack' : List Bracket} {text before after : List Char}
  {c d : Char}

/-- A step over a character keeps what is to be closed. -/
theorem Bracket.Steps.closes_iff (hstep : Steps c stack stack') :
    Closes [] stack (c :: text) ↔ Closes [] stack' text := by
  cases hstep with
  | opening hc => exact ⟨fun h => h.opened hc, .opening hc⟩
  | closing hc =>
    refine ⟨fun h => ?_, .closing hc⟩
    obtain ⟨outer, hstack, h⟩ := h.closed hc
    cases hstack
    exact h
  | plain hc => exact ⟨fun h => h.tail hc, fun h => h.cons hc⟩

/-- A character in front of everything is outside all brackets. -/
theorem Outside.head (hc : isBracket c = false) : Outside [] (c :: text) [] c text :=
  ⟨rfl, .nil, hc⟩

/-- A place outside all brackets, seen from one character further to the left. -/
theorem Outside.cons (h : Outside stack' text before c after) (hstep : Steps d stack stack') :
    Outside stack (d :: text) (d :: before) c after :=
  ⟨by rw [h.text_eq, List.cons_append], hstep.closes_iff.2 h.closes, h.plain⟩

/-- A place outside all brackets is the first one or behind the first one. -/
theorem Outside.cons_cases (h : Outside stack (d :: text) before c after)
    (hstep : Steps d stack stack') :
    (stack = [] ∧ before = [] ∧ c = d ∧ after = text) ∨
      ∃ before', before = d :: before' ∧ Outside stack' text before' c after := by
  obtain ⟨htext, hcloses, hplain⟩ := h
  cases before with
  | nil =>
    obtain ⟨rfl, rfl⟩ : d = c ∧ text = after := by simpa using htext
    cases hcloses
    exact .inl ⟨rfl, rfl, rfl, rfl⟩
  | cons e before =>
    obtain ⟨rfl, rfl⟩ : d = e ∧ text = before ++ c :: after := by simpa using htext
    exact .inr ⟨before, rfl, rfl, hstep.closes_iff.1 hcloses, hplain⟩

/-- Behind a place outside all brackets the text is clear of the same marks. -/
theorem Outside.clear (h : Outside stack text before c after) (htext : Closes marks stack text) :
    Clear marks (c :: after) :=
  (Closes.split (h.text_eq ▸ htext) h.closes).2

/-- A text is clear of marks if its brackets match and none of the places outside them holds one. -/
theorem closes_iff_outside :
    Closes marks stack text ↔ Closes [] stack text ∧
      ∀ before c after, Outside stack text before c after → c ∉ marks := by
  constructor
  · intro h
    exact ⟨h.mono (by simp), fun before c after hc => (hc.clear h).head_notMem hc.plain⟩
  · rintro ⟨h, hmarks⟩
    induction h with
    | nil => exact .nil
    | opening hc _ ih =>
      exact .opening hc (ih fun _ _ _ h => hmarks _ _ _ (h.cons (.opening hc)))
    | closing hc _ ih =>
      exact .closing hc (ih fun _ _ _ h => hmarks _ _ _ (h.cons (.closing hc)))
    | inside hc _ ih => exact .inside hc (ih fun _ _ _ h => hmarks _ _ _ (h.cons (.plain hc)))
    | outside hc _ _ ih =>
      exact .outside hc (hmarks _ _ _ (.head hc))
        (ih fun _ _ _ h => hmarks _ _ _ (h.cons (.plain hc)))

end Places

/-! ## Texts in one pair of brackets -/

/-- The search for the closing bracket passes over a balanced text inside it. -/
theorem closingIndex?_append {marks text : List Char} {stack : List Bracket}
    (h : Closes marks stack text) (depth : Nat) (rest : List Char) :
    closingIndex? (depth + 1 + stack.length) (text ++ rest) =
      (closingIndex? (depth + 1) rest).map (· + text.length) := by
  induction h with
  | nil => simp
  | opening hc _ ih =>
    simp only [List.length_cons, ← Nat.add_assoc] at ih ⊢
    simp [closingIndex?, hc, ih, Function.comp_def]
  | @closing _ _ stack _ hc _ ih =>
    have hdeep : ¬ depth + 1 + stack.length + 1 ≤ 1 := by omega
    simp only [List.length_cons, ← Nat.add_assoc] at ih ⊢
    simp [closingIndex?, hc, opened?_of_closed? hc, hdeep, ih, Function.comp_def]
  | inside hc _ ih =>
    rw [isBracket_eq_false_iff] at hc
    simp only [List.length_cons, ← Nat.add_assoc] at ih ⊢
    simp [closingIndex?, hc, ih, Function.comp_def]
  | outside hc _ _ ih =>
    rw [isBracket_eq_false_iff] at hc
    simp only [List.length_cons, List.length_nil, ← Nat.add_assoc] at ih ⊢
    simp [closingIndex?, hc, ih, Function.comp_def]

/-- The search finds the bracket behind a balanced text. -/
theorem closingIndex?_bracketed {text : List Char} (b : Bracket) (h : Balanced text)
    (rest : List Char) :
    closingIndex? 0 (b.opening :: text ++ b.closing :: rest) = some (text.length + 1) := by
  have hclose : closingIndex? 1 (text ++ b.closing :: rest) = some text.length := by
    have := closingIndex?_append h 0 (b.closing :: rest)
    simpa [closingIndex?, opened?_of_closed? (closed?_closing b)] using this
  simp [closingIndex?, hclose]

/-- A balanced text behind an opening bracket, up to its closing one. -/
theorem isWrapped_bracketed {text rest : List Char} (b : Bracket) (h : Balanced text) :
    isWrapped (b.opening :: text ++ b.closing :: rest) = rest.isEmpty := by
  have hclose := closingIndex?_bracketed b h rest
  rw [List.cons_append] at hclose ⊢
  rw [isWrapped, hclose]
  cases rest <;> simp

/-- Of the balanced texts, those are wrapped that are a balanced text in a pair of brackets. -/
theorem isWrapped_iff {text : List Char} (h : Balanced text) :
    isWrapped text = true ↔
      ∃ (b : Bracket) (inner : List Char), Balanced inner ∧
        text = b.opening :: inner ++ [b.closing] := by
  constructor
  · intro hw
    cases h with
    | nil => simp [isWrapped] at hw
    | outside hc => simp [isWrapped, (isBracket_eq_false_iff.1 hc).1] at hw
    | @opening c b _ rest hc h =>
      obtain ⟨inner, after, rfl, hi, -⟩ := h.unopened []
      rw [← opening_of_opened? hc] at hw ⊢
      have hafter : after = [] := by
        rw [← List.cons_append, isWrapped_bracketed b hi] at hw
        simpa using hw
      exact ⟨b, inner, hi, by simp [hafter]⟩
  · rintro ⟨b, inner, hi, rfl⟩
    exact isWrapped_bracketed b hi

end Formulary
