import Formulary.Engine
import Formulary.Proofs.Syntax.Completeness

/-!
# Long sums

The text `y+…+y` is read at any length, as operators of one level are read one after the other, and
its tree is as high as the text has parts. What goes through such a tree makes as many calls
pending, or twice or three times as many.
-/

namespace Formulary

namespace Expr

variable {α : Type}

/-- A tree that is added to itself some number of times. -/
def added (e : Expr α) : Nat → Expr α
  | 0 => e
  | n + 1 => .binary .add (added e n) e

/-- The analysis takes two calls for each addition. -/
theorem analysisCalls_added (e : Expr α) (n : Nat) :
    (e.added n).analysisCalls = e.analysisCalls + 2 * n := by
  induction n with
  | zero => rfl
  | succ n ih =>
    rw [added, analysisCalls, ih]
    omega

/-- Rendering takes three calls for each addition. -/
theorem renderCalls_added (e : Expr α) (n : Nat) :
    (e.added n).renderCalls = e.renderCalls + 3 * n := by
  induction n with
  | zero => rfl
  | succ n ih =>
    rw [added, renderCalls, ih]
    omega

/-- Copying takes one call for each addition. -/
theorem copyCalls_added (e : Expr α) (n : Nat) : (e.added n).copyCalls = e.copyCalls + n := by
  induction n with
  | zero => rfl
  | succ n ih =>
    rw [added, copyCalls, ih]
    omega

theorem isDeterministic_added {e : Expr α} (h : e.isDeterministic = true) (n : Nat) :
    (e.added n).isDeterministic = true := by
  induction n with
  | zero => exact h
  | succ n ih => rw [added, isDeterministic, ih, h, Bool.and_self]

end Expr

namespace Grammar

/-- A part can be added to itself. -/
theorem Joined.added {Part : List Char → Expr Float → Prop} {s : List Char} {t : Expr Float}
    (h : Part s t) (n : Nat) :
    Joined .sum Part ((List.replicate n (s ++ ['+'])).flatten ++ s) (t.added n) := by
  induction n with
  | zero => exact .part h
  | succ n ih =>
    have htext : (List.replicate (n + 1) (s ++ ['+'])).flatten ++ s =
        (List.replicate n (s ++ ['+'])).flatten ++ s ++ BinaryOp.add.symbol.toList ++ s := by
      rw [List.replicate_succ', List.flatten_append, List.flatten_singleton]
      simp only [List.append_assoc]
      rfl
    rw [htext]
    exact .join .add rfl ih h

/-- `y+…+y` -/
def sumText (n : Nat) : List Char := (List.replicate n ['y', '+']).flatten ++ ['y']

/-- There are only two characters in the sum. -/
theorem mem_sumText {n : Nat} {c : Char} (hc : c ∈ sumText n) : c = 'y' ∨ c = '+' := by
  rcases List.mem_append.1 hc with hc | hc
  · obtain ⟨piece, hpiece, hc⟩ := List.mem_flatten.1 hc
    rw [List.eq_of_mem_replicate hpiece] at hc
    simpa using hc
  · exact .inl (List.mem_singleton.1 hc)

/-- There are no blanks in the sum. -/
theorem compact_sumText (n : Nat) : Text.compact (sumText n) = sumText n := by
  refine List.filter_eq_self.2 fun c hc => ?_
  rcases mem_sumText hc with rfl | rfl <;> decide

/-- The sum is read as a sum. -/
theorem logic_sumText (levels n : Nat) :
    Logic (AtomWithin { maxPending := none } (levels + 1)) (sumText n) ((Expr.var "y").added n) := by
  have hy : AtomWithin { maxPending := none } (levels + 1) ['y'] (.var "y") :=
    .variable ⟨not_wrapped_of_head (by decide), by decide, by decide, by decide⟩ rfl (by decide)
  have hpart : Product (AtomWithin { maxPending := none } (levels + 1)) ['y'] (.var "y") :=
    .part (.part hy)
  have hbang : (sumText n).head? ≠ some '!' := by
    intro h
    rcases mem_sumText (List.mem_of_mem_head? h) with h | h <;> cases h
  exact .part (.part hbang (Joined.added hpart n))

end Grammar

/-- The sum is read as a formula. -/
theorem Language.parse_sumText (n : Nat) :
    ({ maxPending := none } : Language).parse (String.ofList (Grammar.sumText n)) =
      .ok ((Expr.var "y").added n) := by
  refine parse_of_within NumberFormat.hasPlainMarks_standard rfl ?_
  rw [String.toList_ofList, Grammar.compact_sumText]
  exact Grammar.logic_sumText 100 n

end Formulary
