/-!
# Pending calls

What goes through a formula or a tree goes on inside it and comes back, and until then its call is
pending. There is room for so many pending calls and no more. All that is going on at one time
shares this room: where folding evaluates a part of a tree, the calls of both are pending.

Counted are the calls that a recursion goes on through, one after the other, as the program makes
them. What such a call does by the way is not counted, such as an operation on values or a search in
a text.
-/

namespace Formulary

/-- How many calls may be pending, if that is limited. -/
abbrev CallLimit := Option Nat

namespace CallLimit

/-- The limit where none is asked for. -/
def standard : CallLimit := some 9985

/-- Are these more calls than may be pending? -/
def isExceeded (limit : CallLimit) (calls : Nat) : Bool :=
  match limit with
  | some limit => limit < calls
  | none => false

variable {limit : CallLimit} {calls calls' : Nat}

@[simp] theorem isExceeded_none (calls : Nat) : isExceeded none calls = false := rfl

/-- There is always room for nothing more. -/
@[simp] theorem isExceeded_zero (limit : CallLimit) : limit.isExceeded 0 = false := by
  cases limit <;> rfl

/-- Only what is limited can be exceeded. -/
theorem ne_none_of_isExceeded (h : limit.isExceeded calls = true) : limit ≠ none := by
  rintro rfl
  cases h

theorem isExceeded_mono (hle : calls ≤ calls') (h : limit.isExceeded calls = true) :
    limit.isExceeded calls' = true := by
  cases limit with
  | none => cases h
  | some limit =>
    rw [isExceeded, decide_eq_true_eq] at h ⊢
    omega

end CallLimit

end Formulary
