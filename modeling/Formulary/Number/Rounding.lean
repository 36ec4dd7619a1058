/-!
# Rounding a quotient to the nearest integer

Every exact number text of this library comes down to one step: a quotient of two natural numbers
is replaced by the nearest integer, and a quotient that lies half way between two integers goes to
the even one. `roundDiv_bounds` says how far the result can be from the quotient, and
`roundDiv_mul` says that a quotient that is already an integer stays as it is.

The quotients are made with powers of the two bases that numbers are written in, `twoTo` and
`tenTo`.
-/

namespace Formulary

/-- The power of two with this exponent. -/
def twoTo (exponent : Nat) : Nat := Nat.pow 2 exponent

/-- The power of ten with this exponent. -/
def tenTo (exponent : Nat) : Nat := Nat.pow 10 exponent

theorem twoTo_pos (n : Nat) : 0 < twoTo n := Nat.pow_pos (by decide)

theorem tenTo_pos (n : Nat) : 0 < tenTo n := Nat.pow_pos (by decide)

/-- The integer nearest to `num / den`; a quotient half way between two integers goes to the even
one. -/
def roundDiv (num den : Nat) : Nat :=
  if 2 * (num % den) < den then num / den
  else if den < 2 * (num % den) then num / den + 1
  else num / den + num / den % 2

/-- The rounded quotient is the quotient rounded down or the integer above it. -/
theorem roundDiv_bounds (num den : Nat) :
    num / den ≤ roundDiv num den ∧ roundDiv num den ≤ num / den + 1 := by
  unfold roundDiv
  split
  · omega
  · split <;> omega

/-- An exact quotient is not changed by rounding. -/
theorem roundDiv_mul (q den : Nat) (h : 0 < den) : roundDiv (q * den) den = q := by
  simp [roundDiv, Nat.mul_div_cancel _ h, h]

end Formulary
