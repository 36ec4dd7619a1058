import Formulary.Proofs.Arithmetic.Divisors
import Formulary.Proofs.Outcome
import Formulary.Value.Operation

/-!
# Numbers closed under the operators

A set of numbers that the elementary operations do not leave is not left by operators and functions
either, applied to real numbers in it (`Value.yields_applyBinary`, `Value.yields_applyUnary`). They
are made of elementary operations, and of numbers that every such set has.

Booleans may take part, and no complex numbers: real operands have no complex results.
-/

namespace Formulary

variable {α : Type} [Scalar α]

/-- The numbers with `P` are closed under the elementary operations. -/
structure Scalar.Closed (P : α → Prop) : Prop where
  ofNat (n : Nat) : P (Scalar.ofNat n)
  half : P Scalar.half
  pi : P Scalar.pi
  infinity : P Scalar.infinity
  add {x y : α} (hx : P x) (hy : P y) : P (x + y)
  sub {x y : α} (hx : P x) (hy : P y) : P (x - y)
  mul {x y : α} (hx : P x) (hy : P y) : P (x * y)
  neg {x : α} (hx : P x) : P (-x)
  truncate {x : α} (hx : P x) : P (Scalar.truncate x)
  abs {x : α} (hx : P x) : P (Scalar.abs x)
  quotient {x y : α} (hx : P x) (hy : P y) : Yields P (Scalar.quotient x y)
  power {x y : α} (hx : P x) (hy : P y) : Yields P (Scalar.power x y)
  elementary {f : α → Except Fault α} (hf : IsElementary f) {x : α} (hx : P x) : Yields P (f x)

namespace Scalar.Closed

open RealFunction

variable {P : α → Prop} {x y : α}

section Lifted

omit [Scalar α]

/-- Naming errors does not change results. -/
theorem lift {r : Except Fault α} (hr : Yields P r) : Yields P (Formulary.lift r : Computed α α) := by
  cases r with
  | ok a => exact .ok (hr a rfl)
  | error fault => exact .error _

/-- A function that goes to a limit, which is such a number. -/
theorem saturating {limit : α} {r : Except Fault α} (hlimit : P limit) (hr : Yields P r) :
    Yields P (RealFunction.saturating limit r) := by
  unfold RealFunction.saturating
  split
  · exact .ok hlimit
  · exact lift hr

/-- An error is no result. -/
theorem undefined (f : UnaryOp) (x : α) :
    Yields P (RealFunction.undefined f x : Computed α α) := .error _

end Lifted

section Functions

variable (hP : Closed P)

include hP

/-- One is such a number. -/
theorem one : P Scalar.one := hP.ofNat 1

/-- An elementary function of such a number. -/
theorem call {f : α → Except Fault α} (hf : IsElementary f) (hx : P x) :
    Yields P (Formulary.lift (f x) : Computed α α) := lift (hP.elementary hf hx)

theorem ratio (hx : P x) (hy : P y) : Yields P (RealFunction.ratio x y) := lift (hP.quotient hx hy)

/-- An infinity with either sign. -/
theorem signed {c : Prop} [Decidable c] :
    P (if c then -Scalar.infinity else Scalar.infinity) := by
  split
  · exact hP.neg hP.infinity
  · exact hP.infinity

theorem div (hx : P x) (hy : P y) : Yields P (RealFunction.div x y) :=
  .ite (.error _) (hP.ratio hx hy)

theorem pow (hx : P x) (hy : P y) : Yields P (RealFunction.pow x y) := by
  refine .ite (.error _) ?_
  split
  · exact .error _
  · exact saturating hP.signed (hP.power hx hy)

theorem sgn (x : α) : P (RealFunction.sgn x) := by
  unfold RealFunction.sgn
  split
  · exact hP.neg hP.one
  · split
    · exact hP.one
    · exact hP.ofNat 0

theorem sqrt (hx : P x) : Yields P (RealFunction.sqrt x) :=
  .ite (undefined _ x) (hP.call .sqrt hx)

theorem exp (hx : P x) : Yields P (RealFunction.exp x) :=
  saturating hP.infinity (hP.elementary .exp hx)

theorem ln (hx : P x) : Yields P (RealFunction.ln x) := .ite (undefined _ x) (hP.call .log hx)

theorem log10 (hx : P x) : Yields P (RealFunction.log10 x) :=
  .ite (undefined _ x) (hP.call .log10 hx)

theorem cot (hx : P x) : Yields P (RealFunction.cot x) :=
  .bind (hP.call .sin hx) fun _ hs => .ite (undefined _ x) <|
    .bind (hP.call .cos hx) fun _ hc => hP.ratio hc hs

theorem sec (hx : P x) : Yields P (RealFunction.sec x) :=
  .bind (hP.call .cos hx) fun _ hc => .ite (undefined _ x) (hP.ratio hP.one hc)

theorem csc (hx : P x) : Yields P (RealFunction.csc x) :=
  .bind (hP.call .sin hx) fun _ hs => .ite (undefined _ x) (hP.ratio hP.one hs)

theorem arcsin (hx : P x) : Yields P (RealFunction.arcsin x) :=
  .ite (hP.call .asin hx) (undefined _ x)

theorem arccos (hx : P x) : Yields P (RealFunction.arccos x) :=
  .ite (hP.call .acos hx) (undefined _ x)

theorem arccot (hx : P x) : Yields P (RealFunction.arccot x) :=
  .ite (undefined _ x) <| .bind (hP.ratio hP.one hx) fun _ hq => .bind (hP.call .atan hq) fun a ha => by
    refine .ok ?_
    split
    · exact hP.add ha hP.pi
    · exact ha

theorem arcsec (hx : P x) : Yields P (RealFunction.arcsec x) :=
  .ite (undefined _ x) <| .bind (hP.ratio hP.one hx) fun _ hq => hP.call .acos hq

theorem arccsc (hx : P x) : Yields P (RealFunction.arccsc x) :=
  .ite (undefined _ x) <| .bind (hP.ratio hP.one hx) fun _ hq => hP.call .asin hq

theorem sinh (hx : P x) : Yields P (RealFunction.sinh x) :=
  saturating hP.signed (hP.elementary .sinh hx)

theorem cosh (hx : P x) : Yields P (RealFunction.cosh x) :=
  saturating hP.infinity (hP.elementary .cosh hx)

theorem coth (hx : P x) : Yields P (RealFunction.coth x) :=
  .ite (undefined _ x) <| .bind (hP.call .tanh hx) fun _ ht => hP.ratio hP.one ht

theorem sech (hx : P x) : Yields P (RealFunction.sech x) :=
  .bind (hP.cosh hx) fun _ hc => hP.ratio hP.one hc

theorem csch (hx : P x) : Yields P (RealFunction.csch x) :=
  .ite (undefined _ x) <| .bind (hP.sinh hx) fun _ hs => hP.ratio hP.one hs

theorem arccosh (hx : P x) : Yields P (RealFunction.arccosh x) :=
  .ite (undefined _ x) (hP.call .acosh hx)

theorem arctanh (hx : P x) : Yields P (RealFunction.arctanh x) :=
  .ite (hP.call .atanh hx) (undefined _ x)

theorem arccoth (hx : P x) : Yields P (RealFunction.arccoth x) :=
  .ite (undefined _ x) <| .bind (hP.ratio (hP.add hx hP.one) (hP.sub hx hP.one)) fun _ hq =>
    .bind (hP.call .log hq) fun _ hl => .ok (hP.mul hP.half hl)

theorem arcsech (hx : P x) : Yields P (RealFunction.arcsech x) :=
  .ite
    (.bind (hP.call .sqrt (hP.sub hP.one (hP.mul hx hx))) fun _ hroot =>
      .bind (hP.ratio (hP.add hP.one hroot) hx) fun _ hq => hP.call .log hq)
    (undefined _ x)

theorem arccsch (hx : P x) : Yields P (RealFunction.arccsch x) :=
  .ite (undefined _ x) <|
    .bind (hP.call .sqrt (hP.add hP.one (hP.mul hx hx))) fun _ hroot => .ite
      (.bind (hP.ratio (hP.add hP.one hroot) hx) fun _ hq => hP.call .log hq)
      (.bind (hP.ratio (hP.sub hP.one hroot) hx) fun _ hq => hP.call .log hq)

end Functions

end Scalar.Closed

namespace Value

variable {P : α → Prop} {v w : Value α}

/-- A boolean, or a real number with `P`. -/
def RealIn (P : α → Prop) : Value α → Prop
  | boolean _ => True
  | real x => P x
  | complex _ => False

section Values

omit [Scalar α]

/-- What an operator makes of such numbers. -/
theorem yields_reported {op : BinaryOp} {r : Computed α α} (hr : Yields P r) :
    Yields (RealIn P) (reported op v w real r) := by
  unfold reported
  split
  · next x => exact .ok (hr x rfl)
  all_goals exact .error _

/-- What a function makes of such a number. -/
theorem yields_function {f : UnaryOp} {onReal : α → Computed α α}
    {onComplex : Cartesian α → Computed α (Cartesian α)} (hv : RealIn P v)
    (hreal : ∀ x, P x → Yields P (onReal x)) :
    Yields (RealIn P) (function f onReal onComplex v) := by
  cases v with
  | boolean b => exact .error _
  | real x =>
    unfold function reportedFunction
    dsimp only
    split
    · next y hy => exact .ok (hreal x hv y hy)
    all_goals exact .error _
  | complex z => cases hv

/-- What is made of a result. -/
theorem yields_map {β : Type} {r : Except (EvalError α) β} {f : β → Value α}
    (hf : ∀ b, RealIn P (f b)) : Yields (RealIn P) (r.map f) := by
  cases r with
  | ok b => exact .ok (hf b)
  | error e => exact .error e

/-- A truth value is no number. -/
theorem yields_logic (op : BinaryOp) (combine : Bool → Bool → Bool) :
    Yields (RealIn P) (logic op combine v w) := by
  unfold logic
  split
  · exact .ok trivial
  · exact .error _

end Values

/-- An arithmetic operator has such numbers as values, if its formula for real numbers does. -/
theorem yields_arithmetic {op : BinaryOp} {onReals : α → α → Computed α α}
    {onComplexes : Cartesian α → Cartesian α → Computed α (Cartesian α)} (hv : RealIn P v)
    (hw : RealIn P w) (hreals : ∀ x y, P x → P y → Yields P (onReals x y)) :
    Yields (RealIn P) (arithmetic op onReals onComplexes v w) := by
  cases v with
  | boolean b => cases w <;> exact .error _
  | real x =>
    cases w with
    | boolean b => exact .error _
    | real y => exact yields_reported (hreals x y hv hw)
    | complex z => cases hw
  | complex z => cases hv

variable (hP : Scalar.Closed P)

include hP

/-- Operators stay in a closed set of real numbers. -/
theorem yields_applyBinary (op : BinaryOp) (hv : RealIn P v) (hw : RealIn P w) :
    Yields (RealIn P) (applyBinary op v w) := by
  cases op with
  | add => exact yields_arithmetic hv hw fun _ _ hx hy => .ok (hP.add hx hy)
  | sub => exact yields_arithmetic hv hw fun _ _ hx hy => .ok (hP.sub hx hy)
  | mul => exact yields_arithmetic hv hw fun _ _ hx hy => .ok (hP.mul hx hy)
  | div => exact yields_arithmetic hv hw fun _ _ => hP.div
  | pow => exact yields_arithmetic hv hw fun _ _ => hP.pow
  | equal => exact yields_map fun _ => trivial
  | notEqual => exact yields_map fun _ => trivial
  | greater => exact yields_map fun _ => trivial
  | less => exact yields_map fun _ => trivial
  | atLeast => exact yields_map fun _ => trivial
  | atMost => exact yields_map fun _ => trivial
  | and => exact yields_logic .and (· && ·)
  | or => exact yields_logic .or (· || ·)
  | xor => exact yields_logic .xor (· != ·)

/-- Functions stay in a closed set of real numbers. -/
theorem yields_applyUnary (f : UnaryOp) (hv : RealIn P v) :
    Yields (RealIn P) (applyUnary f v) := by
  cases f with
  | not =>
    cases v with
    | boolean b => exact .ok trivial
    | _ => exact .error _
  | arcsinh => exact yields_function hv fun _ => hP.call .asinh
  | arccosh => exact yields_function hv fun _ => hP.arccosh
  | arctanh => exact yields_function hv fun _ => hP.arctanh
  | arccoth => exact yields_function hv fun _ => hP.arccoth
  | arcsech => exact yields_function hv fun _ => hP.arcsech
  | arccsch => exact yields_function hv fun _ => hP.arccsch
  | arcsin => exact yields_function hv fun _ => hP.arcsin
  | arccos => exact yields_function hv fun _ => hP.arccos
  | arctan => exact yields_function hv fun _ => hP.call .atan
  | arccot => exact yields_function hv fun _ => hP.arccot
  | arcsec => exact yields_function hv fun _ => hP.arcsec
  | arccsc => exact yields_function hv fun _ => hP.arccsc
  | log10 => exact yields_function hv fun _ => hP.log10
  | log => exact yields_function hv fun _ => hP.log10
  | sinh => exact yields_function hv fun _ => hP.sinh
  | cosh => exact yields_function hv fun _ => hP.cosh
  | tanh => exact yields_function hv fun _ => hP.call .tanh
  | coth => exact yields_function hv fun _ => hP.coth
  | sech => exact yields_function hv fun _ => hP.sech
  | csch => exact yields_function hv fun _ => hP.csch
  | sqrt => exact yields_function hv fun _ => hP.sqrt
  | sin => exact yields_function hv fun _ => hP.call .sin
  | cos => exact yields_function hv fun _ => hP.call .cos
  | tan => exact yields_function hv fun _ => hP.call .tan
  | cot => exact yields_function hv fun _ => hP.cot
  | sec => exact yields_function hv fun _ => hP.sec
  | csc => exact yields_function hv fun _ => hP.csc
  | abs => exact yields_function hv fun _ hx => .ok (hP.abs hx)
  | sgn => exact yields_function hv fun x _ => .ok (hP.sgn x)
  | exp => exact yields_function hv fun _ => hP.exp
  | neg => exact yields_function hv fun _ hx => .ok (hP.neg hx)
  | int => exact yields_function hv fun _ hx => .ok (hP.truncate hx)
  | ln => exact yields_function hv fun _ => hP.ln

end Value

end Formulary
