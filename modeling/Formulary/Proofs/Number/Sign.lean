import Formulary.Proofs.Number.Nearest

/-!
# Signs of binary64 numbers

A negative number is its magnitude negated (`neg_unsigned`), and a sum or difference with zero is
the other operand, up to the signs of zeros: `-0 + 0` and `0 - 0` are positive zeros.
-/

namespace Formulary.Binary64

open Float.Model Float.Model.UnpackedFloat

variable {x : Float}

/-- The bits of a number without its sign. -/
theorem toNat_toBits_unsigned (hx : isFinite x = true) :
    (unsigned x).toBits.toNat = magnitudeBits x :=
  toNat_toBits_ofMagnitudeBits (Nat.le_of_lt (of_decide_eq_true hx))

/-- The sign is all that two numbers differ in. -/
theorem unpack_neg_of_components {b b' : BitVec Format.binary64.numBits}
    (hexponent : unpackExponent b' = unpackExponent b)
    (hmantissa : unpackMantissa b' = unpackMantissa b) (hsign' : unpackSign b' = 0#1)
    (hsign : unpackSign b = 1#1) :
    (UnpackedFloat.unpack Format.binary64 b').neg = UnpackedFloat.unpack Format.binary64 b := by
  unfold UnpackedFloat.unpack
  simp only [hexponent, hmantissa, hsign', hsign]
  split
  · split <;> rfl
  · split
    · split <;> rfl
    · rfl

/-- The number without its sign, unpacked and negated. -/
theorem unpack_unsigned_neg (hx : isFinite x = true) (hsign : isNegative x = true) :
    (unsigned x).toModel.unpack.neg = x.toModel.unpack := by
  have hlt : x.toBits.toNat < 2 ^ 64 := x.toBits.toNat_lt
  have hge : 2 ^ 63 ≤ x.toBits.toNat := of_decide_eq_true hsign
  have hbits : (unsigned x).toBits.toNat + 2 ^ 63 = x.toBits.toNat := by
    rw [toNat_toBits_unsigned hx]
    show x.toBits.toNat % 2 ^ 63 + 2 ^ 63 = _
    omega
  refine unpack_neg_of_components (BitVec.eq_of_toNat_eq ?_) (BitVec.eq_of_toNat_eq ?_)
    (BitVec.eq_of_toNat_eq ?_) (BitVec.eq_of_toNat_eq ?_)
  · rw [toNat_unpackExponent, toNat_unpackExponent]
    change (unsigned x).toBits.toNat / 2 ^ 52 % 2 ^ 11 = x.toBits.toNat / 2 ^ 52 % 2 ^ 11
    omega
  · rw [toNat_unpackMantissa, toNat_unpackMantissa]
    change (unsigned x).toBits.toNat % 2 ^ 52 = x.toBits.toNat % 2 ^ 52
    omega
  · rw [toNat_unpackSign]
    change (unsigned x).toBits.toNat / 2 ^ 63 % 2 = 0
    omega
  · rw [toNat_unpackSign]
    change x.toBits.toNat / 2 ^ 63 % 2 = 1
    omega

/-- A negative number is its magnitude negated. -/
theorem neg_unsigned (hx : isFinite x = true) (hsign : isNegative x = true) : -unsigned x = x := by
  show Float.ofModel (.pack (unsigned x).toModel.unpack.neg) = x
  rw [unpack_unsigned_neg hx hsign, ofModel_pack_unpack]

theorem unpack_zero : (0.0 : Float).toModel.unpack = .zero .positive := rfl

/-- Subtracting zero changes no number. -/
theorem sub_zero (x : Float) : x - 0.0 = x := by
  have hsub : UnpackedFloat.sub Format.binary64 x.toModel.unpack (.zero .positive) =
      x.toModel.unpack := by
    cases x.toModel.unpack with
    | zero s => cases s <;> rfl
    | _ => rfl
  show Float.ofModel (.pack (UnpackedFloat.sub _ _ (0.0 : Float).toModel.unpack)) = x
  rw [unpack_zero, hsub, ofModel_pack_unpack]

/-- Adding zero changes no number but the negative zero. -/
theorem add_zero (h : isZero x = false ∨ isNegative x = false) : x + 0.0 = x := by
  have hadd : UnpackedFloat.add Format.binary64 x.toModel.unpack (.zero .positive) =
      x.toModel.unpack := by
    cases hx : x.toModel.unpack with
    | zero s =>
      rcases h with hzero | hsign
      · simp [isZero_of_unpack_zero hx] at hzero
      · rw [positive_of_unpack_zero hx hsign]
        rfl
    | _ => rfl
  show Float.ofModel (.pack (UnpackedFloat.add _ _ (0.0 : Float).toModel.unpack)) = x
  rw [unpack_zero, hadd, ofModel_pack_unpack]

/-- The difference of zero and a magnitude is the negative number, unless this is a zero. -/
theorem zero_sub_unsigned (hx : isFinite x = true) (hsign : isNegative x = true)
    (hzero : isZero x = false) : 0.0 - unsigned x = x := by
  have hneg := unpack_unsigned_neg hx hsign
  have hsub : UnpackedFloat.sub Format.binary64 (.zero .positive) (unsigned x).toModel.unpack =
      (unsigned x).toModel.unpack.neg := by
    cases hu : (unsigned x).toModel.unpack with
    | zero s =>
      rw [hu] at hneg
      simp [isZero_of_unpack_zero hneg.symm] at hzero
    | _ => rfl
  show Float.ofModel (.pack (UnpackedFloat.sub _ (0.0 : Float).toModel.unpack _)) = x
  rw [unpack_zero, hsub, hneg, ofModel_pack_unpack]

end Formulary.Binary64
