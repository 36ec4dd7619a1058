import Formulary.Proofs.Arithmetic.Field
import Mathlib.Analysis.SpecialFunctions.Arcosh
import Mathlib.Analysis.SpecialFunctions.Arsinh
import Mathlib.Analysis.SpecialFunctions.Artanh
import Mathlib.Analysis.SpecialFunctions.Complex.Arg
import Mathlib.Analysis.SpecialFunctions.Log.Base
import Mathlib.Analysis.SpecialFunctions.Pow.Real

/-!
# The real numbers

The real numbers are scalars with their own elementary functions, none of which is rounded. A
function has no value outside its domain: there is no logarithm of a negative number, and no tangent
where the cosine is zero.
-/

namespace Formulary.FieldLibrary

open scoped Classical in
/-- The elementary functions of a real number. -/
noncomputable def realFunction (f : UnaryOp) (a : ℝ) : Option ℝ :=
  match f with
  | .sqrt => if 0 ≤ a then some √a else none
  | .exp => some (Real.exp a)
  | .ln => if 0 < a then some (Real.log a) else none
  | .log10 => if 0 < a then some (Real.logb 10 a) else none
  | .sin => some (Real.sin a)
  | .cos => some (Real.cos a)
  | .tan => if Real.cos a = 0 then none else some (Real.tan a)
  | .arcsin => if |a| ≤ 1 then some (Real.arcsin a) else none
  | .arccos => if |a| ≤ 1 then some (Real.arccos a) else none
  | .arctan => some (Real.arctan a)
  | .sinh => some (Real.sinh a)
  | .cosh => some (Real.cosh a)
  | .tanh => some (Real.tanh a)
  | .arcsinh => some (Real.arsinh a)
  | .arccosh => if 1 ≤ a then some (Real.arcosh a) else none
  | .arctanh => if |a| < 1 then some (Real.artanh a) else none
  | _ => none

open scoped Classical in
/-- The real numbers with their elementary functions. Zero has no negative powers, and a negative
number has powers with integer exponents only. -/
noncomputable def reals : FieldLibrary ℝ where
  pi := Real.pi
  euler := Real.exp 1
  lt a b := decide (a < b)
  isOddInteger a := decide (∃ n : ℤ, Odd n ∧ a = n)
  truncate a := if 0 ≤ a then ⌊a⌋ else ⌈a⌉
  floor a := ⌊a⌋
  abs a := |a|
  hypotenuse a b := √(a ^ 2 + b ^ 2)
  angle b a := Complex.arg ⟨a, b⟩
  power a b :=
    if 0 < a ∨ a = 0 ∧ 0 ≤ b ∨ a < 0 ∧ ∃ n : ℤ, b = n then some (a ^ b) else none
  function := realFunction
  power_natCast {a p n} h := by
    split at h
    · cases h
      exact Real.rpow_natCast a n
    · cases h

end Formulary.FieldLibrary
