import Formulary.Proofs.Syntax.Grammar

/-!
# Names at the start of a text

The searches for a name are characterised by what they find: `UnaryOp.match?` the longest name of a
function of one argument, `Builtin.match?` the builtin function that is called. Both names are
determined by the text, so that the order of a search matters no more.
-/

namespace Formulary

open Grammar

namespace UnaryOp

/-- Every function of one argument is in the list. -/
theorem mem_all (f : UnaryOp) : f ∈ all := by
  cases f <;> decide

instance (s : List Char) : Decidable (NoFunction s) :=
  decidable_of_iff (∀ f ∈ all, f ≠ .not → ¬ f.name.toList <+: s)
    ⟨fun h f => h f (mem_all f), fun h f _ => h f⟩

/-- Different functions have different names. -/
theorem name_injective {f g : UnaryOp} (h : f.name = g.name) : f = g := by
  have := ofName?_name f
  rw [h, ofName?_name] at this
  exact (Option.some.inj this).symm

/-- Functions are searched for by name, all but logical not. -/
theorem mem_byNameLength {f : UnaryOp} : f ∈ byNameLength ↔ f ≠ .not := by
  simp [byNameLength, List.mem_mergeSort, mem_all]

/-- Longer names come first. -/
theorem byNameLength_sorted :
    byNameLength.Pairwise fun f g => g.name.length ≤ f.name.length := by
  have : byNameLength.Pairwise fun f g => decide (g.name.length ≤ f.name.length) :=
    List.pairwise_mergeSort
      (fun f g h hfg hgh => by
        simp only [decide_eq_true_eq] at hfg hgh ⊢
        exact Nat.le_trans hgh hfg)
      (fun f g => by simpa using Nat.le_total g.name.length f.name.length) _
  simpa using this

/-- Two names that begin one text are equal if they are equally long. -/
theorem eq_of_starts {f g : UnaryOp} {text : List Char} (hf : f.name.toList <+: text)
    (hg : g.name.toList <+: text) (hlength : f.name.length = g.name.length) : f = g := by
  have : f.name.toList = g.name.toList := by
    rw [List.prefix_iff_eq_take.1 hf, List.prefix_iff_eq_take.1 hg]
    simp only [String.length_toList, hlength]
  exact name_injective (String.toList_inj.1 this)

/-- One text has one longest name. -/
theorem longestName_unique {f g : UnaryOp} {text : List Char} (hf : LongestName f text)
    (hg : LongestName g text) : f = g :=
  eq_of_starts hf.starts hg.starts
    (Nat.le_antisymm (hg.longest f hf.ne_not hf.starts) (hf.longest g hg.ne_not hg.starts))

/-- What the search finds is the longest name, with the rest of the text. -/
theorem longestName_of_match? {f : UnaryOp} {text rest : List Char}
    (h : match? text = some (f, rest)) : LongestName f text ∧ rest = text.drop f.name.length := by
  obtain ⟨before, g, after, hlist, hg, hbefore⟩ := List.findSome?_eq_some_iff.1 h
  have hsorted := byNameLength_sorted
  rw [hlist, List.pairwise_append, List.pairwise_cons] at hsorted
  by_cases hstarts : g.name.toList <+: text
  · obtain ⟨rfl, rfl⟩ : g = f ∧ text.drop g.name.length = rest := by simpa [hstarts] using hg
    refine ⟨⟨mem_byNameLength.1 (by simp [hlist]), hstarts, fun k hk hstart => ?_⟩, rfl⟩
    have hmem := mem_byNameLength.2 hk
    rw [hlist, List.mem_append, List.mem_cons] at hmem
    rcases hmem with hmem | rfl | hmem
    · simpa [hstart] using hbefore k hmem
    · exact Nat.le_refl _
    · exact hsorted.2.1.1 k hmem
  · simp [hstarts] at hg

theorem match?_eq_none {text : List Char} : match? text = none ↔ NoFunction text := by
  simp only [match?, List.findSome?_eq_none_iff, mem_byNameLength, NoFunction]
  refine forall_congr' fun f => forall_congr' fun _ => ?_
  simp

/-- The search finds the longest name. -/
theorem match?_of_longestName {f : UnaryOp} {text : List Char} (h : LongestName f text) :
    match? text = some (f, text.drop f.name.length) := by
  cases hmatch : match? text with
  | none => exact absurd h.starts (match?_eq_none.1 hmatch f h.ne_not)
  | some found =>
    obtain ⟨g, rest⟩ := found
    obtain ⟨hg, rfl⟩ := longestName_of_match? hmatch
    rw [longestName_unique hg h]

end UnaryOp

namespace Builtin

instance (s : List Char) : Decidable (NoBuiltin s) :=
  inferInstanceAs (Decidable (∀ f ∈ all, ¬ f.name.toList ++ ['('] <+: s))

/-- The name of a called function, with the bracket behind it, is not the beginning of another
one. -/
theorem eq_of_starts {f g : Builtin} {text : List Char} (hf : f ∈ all) (hg : g ∈ all)
    (hft : f.name.toList ++ ['('] <+: text) (hgt : g.name.toList ++ ['('] <+: text) : f = g := by
  have hfg := List.prefix_or_prefix_of_prefix hft hgt
  have hdecide : ∀ f ∈ all, ∀ g ∈ all, (f.name.toList ++ ['('] <+: g.name.toList ++ ['('] ∨
      g.name.toList ++ ['('] <+: f.name.toList ++ ['(']) → f = g := by decide
  exact hdecide f hf g hg hfg

theorem match?_eq_none {text : List Char} : match? text = none ↔ NoBuiltin text := by
  simp [match?, NoBuiltin]

/-- What is found is a call of the function. -/
theorem match?_eq_some {f : Builtin} {text : List Char} :
    match? text = some f ↔ f ∈ all ∧ f.name.toList ++ ['('] <+: text := by
  constructor
  · intro h
    exact ⟨List.mem_of_find?_eq_some h, by simpa using List.find?_some h⟩
  · rintro ⟨hf, hstarts⟩
    cases hmatch : match? text with
    | none => exact absurd hstarts (match?_eq_none.1 hmatch f hf)
    | some g =>
      have hstarts' : g.name.toList ++ ['('] <+: text := by simpa using List.find?_some hmatch
      rw [eq_of_starts (List.mem_of_find?_eq_some hmatch) hf hstarts' hstarts]

/-- A call of a builtin function begins with no function of one argument. -/
theorem noFunction {f : Builtin} (hf : f ∈ all) (rest : List Char) :
    NoFunction (f.name.toList ++ '(' :: rest) := by
  intro g hg hstarts
  have hcall : f.name.toList ++ ['('] <+: f.name.toList ++ '(' :: rest := ⟨rest, by simp⟩
  have hdecide : ∀ f ∈ all, ∀ g ∈ UnaryOp.all, g ≠ .not →
      ¬ (g.name.toList <+: f.name.toList ++ ['('] ∨ f.name.toList ++ ['('] <+: g.name.toList) := by
    decide
  exact hdecide f hf g (UnaryOp.mem_all g) hg (List.prefix_or_prefix_of_prefix hstarts hcall)

end Builtin

end Formulary
