import Formulary.Proofs.Syntax.Soundness

/-!
# What derives is read

A text that derives a tree is read as this tree if there is room enough for its nesting. A joined
text is taken apart into the list of its parts first (`Joined.exists_parts`), and a pass finds just
these parts, since they are tokens. The levels of nesting that the derivation has are the ones that
the parser descends by, and as many levels as the text has characters are always enough.

Together with soundness this is `Language.parse_eq_ok_iff`: without limits in the way, the parser
accepts exactly the grammar. In particular no text derives two trees.
-/

namespace Formulary

open Split Grammar

namespace Grammar

variable {lang : Language} {level : Level} {A Part : List Char → Expr Float → Prop}

/-! ## One pass -/

/-- A delimiter, the text of the part behind it and the tree of that part. -/
structure ReadPart where
  op : BinaryOp
  text : List Char
  tree : Expr Float

/-- The delimiters and texts of parts. -/
def cutParts (parts : List ReadPart) : List (Delimiter BinaryOp × List Char) :=
  parts.map fun p => (Level.delimiter p.op, p.text)

/-- Trees joined from left to right. -/
def joinParts (first : Expr Float) (parts : List ReadPart) : Expr Float :=
  parts.foldl (fun left p => .binary p.op left p.tree) first

/-- A joined text is a first part, possibly behind a minus sign, and parts with operators in front
of them. -/
theorem Joined.exists_parts {s : List Char} {t : Expr Float} (h : Joined level Part s t) :
    ∃ (first : List Char) (a : Expr Float) (parts : List ReadPart),
      s = first ++ spelled (cutParts parts) ∧ t = joinParts a parts ∧
      (∀ p ∈ parts, p.op.level = level ∧ Part p.text p.tree) ∧
      (Part first a ∨ level = .sum ∧ ∃ u v, first = '-' :: u ∧ a = .unary .neg v ∧ Part u v) := by
  induction h with
  | @part s t h => exact ⟨s, t, [], by simp [cutParts], rfl, by simp, .inl h⟩
  | @minus s t hlevel h =>
    exact ⟨'-' :: s, _, [], by simp [cutParts], rfl, by simp, .inr ⟨hlevel, s, t, rfl, rfl, h⟩⟩
  | @join l r a b op hop hl hr ih =>
    obtain ⟨first, a', parts, rfl, rfl, hparts, hfirst⟩ := ih
    refine ⟨first, a', parts ++ [⟨op, r, b⟩], ?_, by simp [joinParts], ?_, hfirst⟩
    · simp [cutParts, spelled, Level.delimiter]
    · intro p hp
      rcases List.mem_append.1 hp with hp | hp
      · exact hparts p hp
      · obtain rfl := List.mem_singleton.1 hp
        exact ⟨hop, hr⟩

/-- Parts that are all read are joined. -/
theorem foldLeft_complete {read : Segment → Parsed} {first : Expr Float} {parts : List ReadPart}
    {rest : List (Delimiter BinaryOp × Segment)} (htexts : texts rest = cutParts parts)
    (hread : ∀ p ∈ parts, ∀ offset, read ⟨p.text, offset⟩ = .ok p.tree) :
    Syntax.foldLeft read first rest = .ok (joinParts first parts) := by
  induction parts generalizing first rest with
  | nil =>
    obtain rfl : rest = [] := by simpa [texts, cutParts] using htexts
    rfl
  | cons p parts ih =>
    obtain ⟨⟨d, part⟩, rest, rfl, hd, hrest⟩ := List.map_eq_cons_iff.1 htexts
    obtain ⟨rfl, htext⟩ : d = Level.delimiter p.op ∧ part.text = p.text := by simpa using hd
    have hp : read part = .ok p.tree := by
      have := hread p (by simp) part.offset
      rwa [← htext] at this
    have : Syntax.foldLeft read (.binary p.op first p.tree) rest = _ :=
      ih hrest fun q hq => hread q (by simp [hq])
    simp only [Syntax.foldLeft, List.foldlM_cons, hp] at this ⊢
    exact this

/-- A text is split into the parts that it is joined from. -/
theorem split_parts {s : Segment} {first : List Char} {parts : List ReadPart}
    (htext : s.text = first ++ spelled (cutParts parts)) (hfirst : IsPart level.marks first)
    (hparts : ∀ p ∈ parts, p.op.level = level ∧ IsToken level.marks p.text)
    (hempty : first = [] → ∃ p rest, parts = p :: rest ∧ p.op = .sub) :
    ∃ found, s.split level.delimiters level.lone = .ok found ∧ found.first.text = first ∧
      texts found.rest = cutParts parts := by
  refine Segment.split_complete level.passesOver htext hfirst ?_ ?_
  · intro x hx
    obtain ⟨p, hp, rfl⟩ := List.mem_map.1 hx
    obtain ⟨rfl, htoken⟩ := hparts p hp
    refine ⟨htoken.toIsPart, Level.recognised p.op htoken.ne_nil fun hlogic => ?_, htoken.ne_nil⟩
    exact htoken.clear.head?_ne (by decide) (by rw [hlogic]; decide)
  · intro h
    obtain ⟨p, rest, rfl, hop⟩ := hempty h
    exact ⟨_, _, _, rfl, by rw [hop]; rfl⟩

/-- A part is no longer than the text that it is cut from. -/
theorem length_le_of_mem_cutParts (first : List Char) {parts : List ReadPart} {p : ReadPart}
    (hp : p ∈ parts) : p.text.length ≤ (first ++ spelled (cutParts parts)).length := by
  induction parts generalizing first with
  | nil => simp at hp
  | cons q parts ih =>
    rw [cutParts, List.map_cons, spelled_cons]
    rcases List.mem_cons.1 hp with rfl | hp
    · simp; omega
    · have := ih [] hp
      rw [cutParts] at this
      simp at this ⊢
      omega

/-- A pass reads a joined text from the parts that the next pass reads. -/
theorem readSplit_complete (level : Level) {read : Segment → Parsed} {s : Segment} {t : Expr Float}
    (hlevel : level ≠ .sum) (h : Joined level Part s.text t)
    (hpart : ∀ u v, u.length ≤ s.text.length → Part u v →
      IsToken (level.before ++ level.marks) u ∧ ∀ offset, read ⟨u, offset⟩ = .ok v) :
    Syntax.readSplit level.delimiters level.lone read s = .ok t := by
  obtain ⟨first, a, parts, htext, rfl, hparts, hfirst | ⟨hsum, -⟩⟩ := h.exists_parts
  · have hmarks : ∀ c ∈ level.marks, c ∈ level.before ++ level.marks := by simp +contextual
    obtain ⟨hf, hreadFirst⟩ := hpart first a (by rw [htext]; simp) hfirst
    have hp : ∀ p ∈ parts, IsToken (level.before ++ level.marks) p.text ∧
        ∀ offset, read ⟨p.text, offset⟩ = .ok p.tree := fun p hp =>
      hpart p.text p.tree (by rw [htext]; exact length_le_of_mem_cutParts first hp) (hparts p hp).2
    obtain ⟨found, hsplit, rfl, hfound⟩ := split_parts htext (hf.mono hmarks).toIsPart
      (fun p hmem => ⟨(hparts p hmem).1, (hp p hmem).1.mono hmarks⟩) fun h => absurd h hf.ne_nil
    refine bind_eq_ok.2 ⟨found, hsplit, bind_eq_ok.2 ⟨a, hreadFirst found.first.offset, ?_⟩⟩
    exact foldLeft_complete hfound fun p hmem => (hp p hmem).2
  · exact absurd hsum hlevel

/-- The same for the pass for sums. A minus sign at the beginning is cut off as the first operator,
with nothing in front of it. -/
theorem readSum_complete {inner : Nat → Segment → Parsed} {pending : Nat} {s : Segment}
    {t : Expr Float} (h : Joined .sum Part s.text t)
    (hpart : ∀ u v, u.length ≤ s.text.length → Part u v →
      IsToken (Level.sum.before ++ Level.sum.marks) u ∧
        ∀ n offset, Syntax.product lang inner n ⟨u, offset⟩ = .ok v) :
    Syntax.sum lang inner pending s = .ok t := by
  have hmarks : ∀ c ∈ Level.sum.marks, c ∈ Level.sum.before ++ Level.sum.marks := by
    simp +contextual
  obtain ⟨first, a, parts, htext, rfl, hparts, hfirst⟩ := h.exists_parts
  have hp : ∀ p ∈ parts, IsToken (Level.sum.before ++ Level.sum.marks) p.text ∧
      ∀ n offset, Syntax.product lang inner n ⟨p.text, offset⟩ = .ok p.tree := fun p hp =>
    hpart p.text p.tree (by rw [htext]; exact length_le_of_mem_cutParts first hp) (hparts p hp).2
  rcases hfirst with hfirst | ⟨-, u, v, rfl, rfl, hu⟩
  · obtain ⟨hf, hreadFirst⟩ := hpart first a (by rw [htext]; simp) hfirst
    obtain ⟨found, hsplit, rfl, hfound⟩ := split_parts htext (hf.mono hmarks).toIsPart
      (fun p hmem => ⟨(hparts p hmem).1, (hp p hmem).1.mono hmarks⟩) fun h => absurd h hf.ne_nil
    refine Syntax.sum_eq_ok_iff.2 ⟨found, hsplit, .inr ⟨fun hnil => absurd hnil hf.ne_nil, a,
      hreadFirst _ found.first.offset, ?_⟩⟩
    exact foldLeft_complete hfound fun p hmem => (hp p hmem).2 _
  · -- the sign is found as an operator, and the empty text in front of it as the first part
    obtain ⟨hf, hreadFirst⟩ := hpart u v (by rw [htext]; simp; omega) hu
    have htext' : s.text = [] ++ spelled (cutParts (⟨.sub, u, v⟩ :: parts)) := by
      rw [htext]
      simp [cutParts, Level.delimiter, BinaryOp.symbol]
    have hparts' : ∀ p ∈ (⟨.sub, u, v⟩ :: parts : List ReadPart),
        p.op.level = .sum ∧ IsToken Level.sum.marks p.text := by
      intro p hmem
      rcases List.mem_cons.1 hmem with rfl | hmem
      · exact ⟨rfl, hf.mono hmarks⟩
      · exact ⟨(hparts p hmem).1, (hp p hmem).1.mono hmarks⟩
    obtain ⟨found, hsplit, hnil, hfound⟩ := split_parts htext' ⟨.nil, by simp⟩ hparts'
      fun _ => ⟨_, _, rfl, rfl⟩
    obtain ⟨⟨d, part⟩, rest, hcons, hd, hrest⟩ := List.map_eq_cons_iff.1 hfound
    obtain ⟨-, rfl⟩ : _ ∧ part.text = u := by simpa using hd
    refine Syntax.sum_eq_ok_iff.2 ⟨found, hsplit, .inl ⟨hnil, d, part, rest, v, hcons,
      hreadFirst _ part.offset, ?_⟩⟩
    exact foldLeft_complete hrest fun p hmem => (hp p hmem).2 _

/-! ## Argument lists -/

/-- The argument separator is none of the characters that a scan stops at. -/
theorem passesOver_argument (hargument : lang.format.HasPlainArgument) :
    PassesOver (argumentDelimiters lang) [] lang.format.argument := by
  obtain ⟨c, hc, -⟩ := hargument
  intro d text hd _
  rw [hc, List.mem_singleton] at hd
  refine ⟨delimiterAt?_eq_none.2 ?_, by simp⟩
  simpa [argumentDelimiters, hc, eq_comm] using hd

/-- An argument separator is recognised whatever is behind it. -/
theorem recognised_argument (hargument : lang.format.HasPlainArgument) (part : List Char) :
    Recognised (argumentDelimiters lang) ⟨lang.format.argument, ()⟩ part := by
  obtain ⟨c, hc, hplain⟩ := hargument
  refine ⟨⟨c, [], hc, hplain.not_bracket⟩, fun after => ?_⟩
  simp [argumentDelimiters, hc, delimiterAt?]

/-- An argument list is read from arguments that are read. -/
theorem arguments_complete {inner : Segment → Parsed} {name : String} {s : Segment}
    {texts : List (List Char)} {args : List (Expr Float)}
    (hargument : lang.format.HasPlainArgument) (htext : s.text = argumentList lang name texts)
    (hseparated : Separated lang texts) (hne : ∀ u ∈ texts, u ≠ [])
    (hread : List.Forall₂ (fun u v => ∀ offset, inner ⟨u, offset⟩ = .ok v) texts args) :
    Syntax.arguments lang inner name s = .ok args := by
  have hdrop : (s.drop name.length).text =
      Bracket.round.opening :: lang.format.argument.intercalate texts ++
        [Bracket.round.closing] :=
    Segment.text_drop_name ((argumentList_eq name texts).symm.trans htext.symm)
  have hwrapped : isWrapped (s.drop name.length).text = true := by
    rw [hdrop]
    exact isWrapped_bracketed .round (hseparated.balanced hargument)
  have hinner : (s.drop name.length).inner.text = lang.format.argument.intercalate texts := by
    simp [Segment.inner, hdrop]
  have hhead : (s.drop name.length).text.head? = some '(' := by
    rw [hdrop]
    rfl
  refine Syntax.arguments_eq_ok_iff.2 ⟨⟨hhead, hwrapped⟩, ?_⟩
  cases hread with
  | nil => exact .inl ⟨hinner, rfl⟩
  | @cons u v texts args hu hread =>
    have hnonempty : lang.format.argument.intercalate (u :: texts) ≠ [] := by
      by_cases htexts : texts = []
      · simpa [htexts] using hne u (by simp)
      · rw [List.intercalate_cons_of_ne_nil htexts]
        simp [hne u (by simp)]
    -- all delimiters are the one separator, so the texts alone make up the split
    let rest : List (Delimiter Unit × List Char) :=
      texts.map fun w => (⟨lang.format.argument, ()⟩, w)
    have hmap : rest.map (·.2) = texts := by simp [rest, Function.comp_def]
    have hrest : (s.drop name.length).inner.text = u ++ spelled rest := by
      have hdelimiters : ∀ x ∈ rest, x.1 ∈ argumentDelimiters lang := by
        simp [rest, argumentDelimiters]
      rw [hinner, intercalate_texts u hdelimiters, hmap]
    have hpart : ∀ w ∈ u :: texts, IsPart lang.format.argument w := fun w hw =>
      ⟨hseparated w hw, fun heq => by
        obtain ⟨c, hc, hplain⟩ := hargument
        rw [hc, List.mem_singleton] at heq
        exact absurd (by decide) (heq ▸ hplain.not_operator)⟩
    obtain ⟨parts, hsplit, hfirst, hparts⟩ := Segment.split_complete
      (passesOver_argument hargument) hrest (hpart u (by simp))
      (fun x hx => by
        obtain ⟨w, hw, rfl⟩ := List.mem_map.1 hx
        exact ⟨hpart w (by simp [hw]), recognised_argument hargument w, hne w (by simp [hw])⟩)
      fun h => absurd h (hne u (by simp))
    refine .inr ⟨hinner ▸ hnonempty, parts, hsplit, mapM_eq_ok.2 ?_⟩
    have hall : List.Forall₂ (fun u v => ∀ offset, inner ⟨u, offset⟩ = .ok v)
        (parts.parts.map (·.text)) (v :: args) := by
      rw [map_text_parts, hfirst, hparts, hmap]
      exact .cons hu hread
    rw [List.forall₂_map_left_iff] at hall
    exact hall.imp fun seg v hv => hv seg.offset

/-! ## Atoms -/

/-- A text that begins with a name is not wrapped. -/
theorem isWrapped_of_name {name rest : List Char} (hne : name ≠ [])
    (hname : ∀ c ∈ name, Bracket.isBracket c = false) : isWrapped (name ++ rest) = false := by
  obtain ⟨c, name, rfl⟩ := List.exists_cons_of_ne_nil hne
  have hc := (Bracket.isBracket_eq_false_iff.1 (hname c (by simp))).1
  simp [isWrapped, hc]

/-- No name of a function contains a bracket. -/
theorem function_name_plain {f : UnaryOp} : ∀ c ∈ f.name.toList, Bracket.isBracket c = false := by
  cases f <;> decide

/-- Names of builtin functions are not empty and contain no bracket. -/
theorem builtin_name_plain {f : Builtin} (hf : f ∈ Builtin.all) :
    f.name.toList ≠ [] ∧ ∀ c ∈ f.name.toList, Bracket.isBracket c = false := by
  revert f
  decide

/-- A balanced text that is not in brackets is found not to be. -/
theorem isWrapped_eq_false {s : List Char} (hs : Balanced s) (h : ¬ Wrapped s) :
    isWrapped s = false := by
  rw [← Bool.not_eq_true, isWrapped_iff hs]
  exact h

/-- A number literal holds a character that is no lowercase letter. -/
theorem exists_not_isLowercase {s : List Char} {x : Float} (hmarks : lang.format.HasPlainMarks)
    (hx : lang.format.read s = .ok x) : ∃ c ∈ s, Syntax.isLowercase c = false := by
  obtain ⟨c, hc, hlast⟩ := NumberFormat.getLast?_of_read hx
  refine ⟨c, List.mem_of_getLast? hc, Bool.eq_false_iff.2 fun hlow => ?_⟩
  rcases hlast with hdigit | rfl
  · simp [Syntax.not_isDecimalDigit_of_isLowercase hlow] at hdigit
  · have := hmarks.decimal.not_letter
    simp [Syntax.isAlpha_of_isLowercase hlow] at this

/-- A text with any other character than lowercase letters is no name. -/
theorem isName_eq_false {s : List Char} (h : ∃ c ∈ s, Syntax.isLowercase c = false) :
    Syntax.isName s = false := by
  obtain ⟨c, hc, hlow⟩ := h
  simp only [Syntax.isName, Bool.and_eq_false_iff, List.all_eq_false]
  exact .inr ⟨c, hc, by simp [hlow]⟩

/-- What is no name names no constant. -/
theorem constant?_eq_none {s : List Char} (h : Syntax.isName s = false) :
    Syntax.constant? s = none := by
  cases hv : Syntax.constant? s with
  | none => rfl
  | some v => simp [Syntax.isName_of_constant? hv] at h

/-- A number literal is read as a real constant. -/
theorem number_real {s : List Char} {offset : Nat} {x : Float}
    (hmarks : lang.format.HasPlainMarks) (hx : lang.format.read s = .ok x) :
    Syntax.number lang ⟨s, offset⟩ = .ok (.const (.real x)) := by
  obtain ⟨c, hc, hlast⟩ := NumberFormat.getLast?_of_read hx
  have hi : s.getLast? ≠ some 'i' := by
    rw [hc]
    rintro ⟨⟩
    rcases hlast with hdigit | hdecimal
    · exact absurd hdigit (by decide)
    · exact absurd hmarks.decimal.not_letter (by rw [← hdecimal]; decide)
  simp only [Syntax.number]
  rw [if_neg hi, hx]
  rfl

/-- With an `i` behind it, it is read as an imaginary one. -/
theorem number_imaginary {s : List Char} {offset : Nat} {x : Float}
    (hx : lang.format.read s = .ok x) :
    Syntax.number lang ⟨s ++ ['i'], offset⟩ = .ok (.const (.complex ⟨0.0, x⟩)) := by
  simp only [Syntax.number]
  rw [if_pos List.getLast?_concat, List.dropLast_concat, hx]
  rfl

/-- What is made of atoms of the grammar is a formula. -/
theorem formula_of_logic (hA : ∀ u v, A u v → Atom lang u v) {s : List Char} {t : Expr Float}
    (h : Logic A s t) : Formula lang s t :=
  formula_iff.2 (h.imp fun u v _ => hA u v)

/-- An atom is a token: no operator cuts it. -/
theorem isToken_of_atomOver (hmarks : lang.format.HasPlainMarks)
    (hA : ∀ u v, A u v → Atom lang u v) {s : List Char} {t : Expr Float}
    (h : AtomOver lang A s t) : IsToken Level.atom.before s :=
  (atom_iff.2 (h.imp fun u v _ => hA u v)).isToken hmarks

/-- The arguments of a call are read if formulas are. -/
theorem callArguments_complete (offset : Nat) {inner : Segment → Parsed} {name : String}
    {texts : List (List Char)} {args : List (Expr Float)} (hmarks : lang.format.HasPlainMarks)
    (hA : ∀ u v, A u v → Atom lang u v) (hseparated : Separated lang texts)
    (hargs : List.Forall₂ (Logic A) texts args)
    (hinner : ∀ u v offset, Logic A u v → inner ⟨u, offset⟩ = .ok v) :
    Syntax.arguments lang inner name ⟨argumentList lang name texts, offset⟩ = .ok args := by
  have hne : ∀ u ∈ texts, u ≠ [] := by
    have := hargs.imp fun u v h => And.intro ((formula_of_logic hA h).isToken hmarks).ne_nil h
    exact ((List.forall₂_and_left _ _).1 this).1
  exact arguments_complete hmarks.argument rfl hseparated hne <|
    hargs.imp fun u v h offset => hinner u v offset h

section Atoms

variable {inner : Nat → Segment → Parsed} {pending offset : Nat} {texts : List (List Char)}
  {args : List (Expr Float)}

/-- A formula in brackets is read as an atom. -/
theorem atom_wrapped {s : List Char} {t : Expr Float} (b : Bracket) (hs : Balanced s)
    (hinner : ∀ n offset, inner n ⟨s, offset⟩ = .ok t) :
    Syntax.atom lang inner pending ⟨b.opening :: s ++ [b.closing], offset⟩ = .ok t := by
  have hw : isWrapped (b.opening :: s ++ [b.closing]) = true := isWrapped_bracketed b hs
  have hs : (⟨b.opening :: s ++ [b.closing], offset⟩ : Segment).inner = ⟨s, offset + 1⟩ := by
    simp [Segment.inner]
  exact Syntax.atom_eq_ok_iff.2 ⟨by simp, .wrapped hw (hs ▸ hinner _ _)⟩

/-- A function with its operand is read as an atom. -/
theorem atom_function {f : UnaryOp} {s : List Char} {t : Expr Float}
    (hname : LongestName f (f.name.toList ++ s)) (hne : s ≠ [])
    (hinner : ∀ n offset, inner n ⟨s, offset⟩ = .ok t) :
    Syntax.atom lang inner pending ⟨f.name.toList ++ s, offset⟩ = .ok (.unary f t) := by
  have hw : isWrapped (f.name.toList ++ s) = false :=
    isWrapped_of_name (List.ne_nil_of_length_pos (function_name_length_pos f)) function_name_plain
  have hdrop : (f.name.toList ++ s).drop f.name.length = s := by
    rw [← String.length_toList, List.drop_left]
  have hmatch : UnaryOp.match? (f.name.toList ++ s) = some (f, s) := by
    rw [UnaryOp.match?_of_longestName hname, hdrop]
  have hread :
      inner (pending + 1) (Segment.drop f.name.length ⟨f.name.toList ++ s, offset⟩) = .ok t := by
    rw [Segment.drop, hdrop]
    exact hinner _ _
  exact Syntax.atom_eq_ok_iff.2 ⟨by simp [hne], .function hw hmatch hne hread⟩

/-- A call of a builtin function is read as an atom. -/
theorem atom_builtin {f : Builtin} (hf : f ∈ Builtin.all)
    (harity : f.minArgs ≤ args.length ∧ args.length ≤ f.maxArgs)
    (hloop : f.isSeries = true → ∃ k rest, args = .var k :: rest)
    (hread : Syntax.arguments lang (inner (pending + 4)) f.name
      ⟨argumentList lang f.name texts, offset⟩ =
      .ok args) :
    Syntax.atom lang inner pending ⟨argumentList lang f.name texts, offset⟩ =
      .ok (.builtin f args) := by
  have hw : isWrapped (argumentList lang f.name texts) = false := by
    rw [argumentList, List.append_assoc]
    exact isWrapped_of_name (builtin_name_plain hf).1 (builtin_name_plain hf).2
  have hfunction : NoFunction (argumentList lang f.name texts) := by
    rw [argumentList, List.append_assoc]
    exact Builtin.noFunction hf _
  have hcall : Builtin.match? (argumentList lang f.name texts) = some f :=
    Builtin.match?_eq_some.2 ⟨hf, ⟨lang.format.argument.intercalate texts ++ [')'], by
      simp [argumentList]⟩⟩
  have hvar : f.isSeries = true → args.head?.any Syntax.isVar = true := fun hseries => by
    obtain ⟨k, rest, rfl⟩ := hloop hseries
    rfl
  refine Syntax.atom_eq_ok_iff.2 ⟨by simp [argumentList], ?_⟩
  exact .builtin hw (UnaryOp.match?_eq_none.2 hfunction) hcall
    (Syntax.builtinCall_eq_ok_iff.2 ⟨args, hread, harity, hvar, rfl⟩)

/-- A call of a registered function is read as an atom. -/
theorem atom_apply {d : Definition (Expr Float)}
    (hbalanced : Balanced (argumentList lang d.name texts))
    (hwrapped : ¬ Wrapped (argumentList lang d.name texts))
    (hfunction : NoFunction (argumentList lang d.name texts))
    (hbuiltin : NoBuiltin (argumentList lang d.name texts))
    (hd : lang.registry.lookup? (argumentList lang d.name texts) = some d)
    (harity : args.length = d.arity)
    (hread : Syntax.arguments lang (inner (pending + 4)) d.name
      ⟨argumentList lang d.name texts, offset⟩ =
      .ok args) :
    Syntax.atom lang inner pending ⟨argumentList lang d.name texts, offset⟩ = .ok (.apply d args) := by
  refine Syntax.atom_eq_ok_iff.2 ⟨by simp [argumentList], ?_⟩
  exact .apply (isWrapped_eq_false hbalanced hwrapped) (UnaryOp.match?_eq_none.2 hfunction)
    (Builtin.match?_eq_none.2 hbuiltin) hd (Syntax.userCall_eq_ok_iff.2 ⟨args, hread, harity, rfl⟩)

/-- A text that is no name is read as a number if nothing else is found. -/
theorem Unprefixed.atom_of_number {s : List Char} {t : Expr Float} (h : Unprefixed lang s)
    (hs : Balanced s) (hne : s ≠ []) (hname : Syntax.isName s = false)
    (hnumber : Syntax.number lang ⟨s, offset⟩ = .ok t) :
    Syntax.atom lang inner pending ⟨s, offset⟩ = .ok t :=
  Syntax.atom_eq_ok_iff.2 ⟨hne, .number (isWrapped_eq_false hs h.not_wrapped)
    (UnaryOp.match?_eq_none.2 h.no_function) (Builtin.match?_eq_none.2 h.no_builtin)
    h.no_registered (constant?_eq_none hname) hname hnumber⟩

end Atoms

/-- An atom is read as the tree that it derives. -/
theorem atom_complete {inner : Nat → Segment → Parsed} {pending offset : Nat} {s : List Char}
    {t : Expr Float} (hmarks : lang.format.HasPlainMarks) (hA : ∀ u v, A u v → Atom lang u v)
    (hinner : ∀ n u v offset, Logic A u v → inner n ⟨u, offset⟩ = .ok v)
    (h : AtomOver lang A s t) : Syntax.atom lang inner pending ⟨s, offset⟩ = .ok t := by
  have htoken := isToken_of_atomOver hmarks hA h
  have hbalanced : Balanced s := htoken.clear.balanced
  have hne : s ≠ [] := htoken.ne_nil
  cases h with
  | @wrapped u t b h =>
    exact atom_wrapped b ((formula_of_logic hA h).isToken hmarks).clear fun n offset =>
      hinner n u t offset h
  | @function u t f hname h =>
    have hlogic : Logic A u t := .of_negated h
    exact atom_function hname ((formula_of_logic hA hlogic).isToken hmarks).ne_nil fun n offset =>
      hinner n u t offset hlogic
  | @builtin texts args f hf hseparated hargs harity hloop =>
    exact atom_builtin hf harity hloop
      (callArguments_complete offset hmarks hA hseparated hargs (hinner _))
  | @apply texts args d hwrapped hfunction hbuiltin hd hbare hseparated hargs harity =>
    exact atom_apply hbalanced hwrapped hfunction hbuiltin hd harity
      (callArguments_complete offset hmarks hA hseparated hargs (hinner _))
  | constant hs hv =>
    exact Syntax.atom_eq_ok_iff.2 ⟨hne, .constant (isWrapped_eq_false hbalanced hs.not_wrapped)
      (UnaryOp.match?_eq_none.2 hs.no_function) (Builtin.match?_eq_none.2 hs.no_builtin)
      hs.no_registered hv⟩
  | «variable» hs hconstant hname =>
    exact Syntax.atom_eq_ok_iff.2 ⟨hne, .variable (isWrapped_eq_false hbalanced hs.not_wrapped)
      (UnaryOp.match?_eq_none.2 hs.no_function) (Builtin.match?_eq_none.2 hs.no_builtin)
      hs.no_registered hconstant hname⟩
  | @number s x hs hbare hx =>
    have hname := isName_eq_false (exists_not_isLowercase hmarks hx)
    exact hs.atom_of_number hbalanced hne hname (number_real hmarks hx)
  | @imaginary s x hs hbare hx =>
    obtain ⟨c, hc, hlow⟩ := exists_not_isLowercase hmarks hx
    have hname : Syntax.isName (s ++ ['i']) = false := isName_eq_false ⟨c, by simp [hc], hlow⟩
    exact hs.atom_of_number hbalanced hne hname (number_imaginary hx)

/-! ## Formulas -/

section Passes

variable {inner : Nat → Segment → Parsed} {pending offset : Nat} {s : List Char} {t : Expr Float}
  (hmarks : lang.format.HasPlainMarks) (hA : ∀ u v, A u v → Atom lang u v)
  (hinner : ∀ n u v offset, Logic A u v → inner n ⟨u, offset⟩ = .ok v)

include hmarks hA hinner

/-- A power of the grammar is read as its tree. -/
theorem power_complete (h : Power (AtomOver lang A) s t) :
    Syntax.power lang inner pending ⟨s, offset⟩ = .ok t :=
  readSplit_complete .power (by decide) h fun _ _ _ hp =>
    ⟨isToken_of_atomOver hmarks hA hp, fun _ => atom_complete hmarks hA hinner hp⟩

/-- A product of the grammar is read as its tree. -/
theorem product_complete (h : Product (AtomOver lang A) s t) :
    Syntax.product lang inner pending ⟨s, offset⟩ = .ok t :=
  readSplit_complete .product (by decide) h fun _ _ _ hp =>
    ⟨hp.isToken fun _ _ _ => isToken_of_atomOver hmarks hA, fun _ =>
      power_complete hmarks hA hinner hp⟩

/-- A sum of the grammar is read as its tree. -/
theorem sum_complete (h : Sum (AtomOver lang A) s t) :
    Syntax.sum lang inner pending ⟨s, offset⟩ = .ok t :=
  readSum_complete h fun _ _ _ hp =>
    ⟨hp.isToken fun _ _ _ => isToken_of_atomOver hmarks hA, fun _ _ =>
      product_complete hmarks hA hinner hp⟩

end Passes

/-- An operand is read if there is no bound on pending calls. -/
theorem operand_complete {inner : Nat → Segment → Parsed} {pending offset : Nat} {s : List Char}
    {t : Expr Float} (hmarks : lang.format.HasPlainMarks) (hpending : lang.maxPending = none)
    (hA : ∀ u v, A u v → Atom lang u v)
    (hinner : ∀ n u v offset, Logic A u v → inner n ⟨u, offset⟩ = .ok v)
    (h : Operand (AtomOver lang A) s t) : Syntax.operand lang inner pending offset s = .ok t := by
  have hroom : ∀ n, Syntax.isExhausted lang n = false := fun n => Syntax.isExhausted_of_none hpending n
  induction h generalizing pending offset with
  | @part s t hbang h =>
    have hs : Syntax.sum lang inner (pending + 1) ⟨s, offset⟩ = .ok t :=
      sum_complete hmarks hA hinner h
    cases s with
    | nil => exact hs
    | cons c s => rw [Syntax.operand, if_neg (by simpa using hbang), hs]
  | @not s t h ih =>
    have hs := @ih (pending + 1) (offset + 1)
    rw [Syntax.operand, if_pos rfl, if_neg (by simp [hroom]), hs]
    rfl

/-- A formula is read with as many levels as it needs. -/
theorem formula_complete (hmarks : lang.format.HasPlainMarks) (hpending : lang.maxPending = none)
    {levels pending offset : Nat} {s : List Char} {t : Expr Float}
    (h : Logic (AtomWithin lang levels) s t) :
    Syntax.formula lang levels pending ⟨s, offset⟩ = .ok t := by
  induction levels generalizing pending offset s t with
  | zero =>
    obtain ⟨u, v, hA⟩ := h.exists_atom
    cases hA
  | succ levels ih =>
    have hA : ∀ u v, AtomWithin lang levels u v → Atom lang u v := fun u v hA => hA.atom
    have hroom : Syntax.isExhausted lang pending = false := Syntax.isExhausted_of_none hpending _
    rw [Syntax.formula, if_neg (by simp [hroom])]
    exact readSplit_complete .logic (by decide) h fun u v _ hp =>
      ⟨Operand.isToken (fun _ _ _ => isToken_of_atomOver hmarks hA) hp, fun _ =>
        operand_complete hmarks hpending hA (fun _ _ _ _ hf => ih hf) hp⟩

end Grammar

/-- A text that derives a tree within the limit of nesting is read as this tree. -/
theorem Language.parse_of_within {lang : Language} (hmarks : lang.format.HasPlainMarks)
    (hpending : lang.maxPending = none) {text : String} {t : Expr Float}
    (h : Logic (AtomWithin lang lang.levels) (Text.compact text.toList) t) :
    lang.parse text = .ok t := by
  have hformula := formula_of_logic (fun u v hA => hA.atom) h
  unfold parse
  split
  · next hnil => exact absurd hnil (hformula.isToken hmarks).ne_nil
  · exact formula_complete hmarks hpending h

/-- A derivable text is read as the tree that it derives, with no limit in the way. -/
theorem Language.parse_of_formula {lang : Language} (hmarks : lang.format.HasPlainMarks)
    (hpending : lang.maxPending = none) {text : String} {t : Expr Float}
    (hdepth : ((Text.compact text.toList).length : Int) ≤ lang.maxDepth)
    (h : Formula lang (Text.compact text.toList) t) : lang.parse text = .ok t := by
  have hlevels : (Text.compact text.toList).length < lang.levels := by
    rw [Language.levels]
    omega
  exact parse_of_within hmarks hpending
    ((formula_iff.1 h).imp fun u v hu hA => hA.within (Nat.lt_of_le_of_lt hu hlevels))

/-- The parser accepts exactly the grammar: with no limit in the way of its nesting, a text is read
as a tree if and only if, without its blanks, it derives this tree. -/
theorem Language.parse_eq_ok_iff (lang : Language) (hmarks : lang.format.HasPlainMarks)
    (hpending : lang.maxPending = none) (text : String)
    (hdepth : ((Text.compact text.toList).length : Int) ≤ lang.maxDepth) (t : Expr Float) :
    lang.parse text = .ok t ↔ Formula lang (Text.compact text.toList) t :=
  ⟨formula_of_parse hmarks, parse_of_formula hmarks hpending hdepth⟩

/-- A minus sign in front of a power negates the power. -/
theorem Language.parse_eq_ok_iff_minus_power :
    ({ maxPending := none } : Language).parse "- x ^ y" =
      .ok (.unary .neg (.binary .pow (.var "x") (.var "y"))) := by
  refine (Language.parse_eq_ok_iff { maxPending := none } NumberFormat.hasPlainMarks_standard rfl
    "- x ^ y" (by decide) _).2 ?_
  have hx : Atom { maxPending := none } ['x'] (.var "x") :=
    .variable ⟨not_wrapped_of_head (by decide), by decide, by decide, by decide⟩ rfl (by decide)
  have hy : Atom { maxPending := none } ['y'] (.var "y") :=
    .variable ⟨not_wrapped_of_head (by decide), by decide, by decide, by decide⟩ rfl (by decide)
  exact .mk (.part (.part (by decide) (.minus rfl (.part (.join .pow rfl (.part hx) hy)))))

/-! ## Operands of one token -/

section

variable {lang : Language} {levels : Nat}

/-- A letter that begins no name of a function is a variable. -/
theorem Grammar.operand_letter {c : Char} (hc : c ∈ ['c', 'x', 'y'])
    (h : lang.registry.lookup? [c] = none) :
    Operand (AtomWithin lang (levels + 1)) [c] (.var (String.ofList [c])) := by
  have hatom : AtomWithin lang (levels + 1) [c] (.var (String.ofList [c])) := by
    obtain rfl | rfl | rfl : c = 'c' ∨ c = 'x' ∨ c = 'y' := by simpa using hc
    all_goals
      exact .variable ⟨not_wrapped_of_head (by decide), by decide, by decide, h⟩ rfl (by decide)
  have hbang : ['c', 'x', 'y'].all (· != '!') = true := by decide
  exact .part (by simpa using List.all_eq_true.1 hbang c hc) (.part (.part (.part hatom)))

/-- The constant `true` as an operand. -/
theorem Grammar.operand_true (h : lang.registry.lookup? "true".toList = none) :
    Operand (AtomWithin lang (levels + 1)) "true".toList (.const (.boolean true)) := by
  have hatom : AtomWithin lang (levels + 1) "true".toList (.const (.boolean true)) :=
    .constant ⟨not_wrapped_of_head (by decide), by decide, by decide, h⟩ rfl
  exact .part (by decide) (.part (.part (.part hatom)))

/-- The number `1` as an operand. -/
theorem Grammar.operand_one (hformat : lang.format = .standard)
    (h : lang.registry.lookup? ['1'] = none) :
    Operand (AtomWithin lang (levels + 1)) ['1'] (.const (.real 1.0)) := by
  have hread : lang.format.read ['1'] = .ok 1.0 := by
    rw [hformat]
    rfl
  have hatom : AtomWithin lang (levels + 1) ['1'] (.const (.real 1.0)) :=
    .number ⟨not_wrapped_of_head (by decide), by decide, by decide, h⟩
      (.outside (by decide) (by decide) .nil) hread
  exact .part (by decide) (.part (.part (.part hatom)))

end

end Formulary
