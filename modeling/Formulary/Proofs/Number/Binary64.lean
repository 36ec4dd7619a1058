import Mathlib
import Formulary.Number.Binary64

/-!
# The bits of a binary64 number

A `Float` is its bits, and its arithmetic is that of the sign, mantissa and exponent that are
unpacked from them. Nothing is lost on the way, so that the bits of a rounded quotient can be read
off (`isNonnegative_nearest`) and adding zero changes nothing (`zero_add`).
-/

namespace Formulary.Binary64

open Float.Model Float.Model.UnpackedFloat

/-! ## Rounded quotients -/

/-- The mantissa is in the lowest 52 bits. -/
theorem toNat_unpackMantissa (b : BitVec Format.binary64.numBits) :
    (unpackMantissa b).toNat = b.toNat % 2 ^ 52 := by
  simp [unpackMantissa, BitVec.extractLsb_toNat]

/-- The exponent is in the 11 bits above the mantissa. -/
theorem toNat_unpackExponent (b : BitVec Format.binary64.numBits) :
    (unpackExponent b).toNat = b.toNat / 2 ^ 52 % 2 ^ 11 := by
  simp [unpackExponent, BitVec.extractLsb_toNat, Nat.shiftRight_eq_div_pow]

/-- The sign is in the highest bit. -/
theorem toNat_unpackSign (b : BitVec Format.binary64.numBits) :
    (unpackSign b).toNat = b.toNat / 2 ^ 63 % 2 := by
  simp [unpackSign, BitVec.extractLsb_toNat, Nat.shiftRight_eq_div_pow]

/-- Up to infinity, with either sign, there is no NaN among the bits. -/
theorem valid_of_le {bits : UInt64} (h : bits.toNat % 2 ^ 63 ≤ infinityBits) :
    Format.binary64.Valid bits.toBitVec := by
  refine ⟨fun hexponent hmantissa => absurd (BitVec.eq_of_toNat_eq ?_) hmantissa⟩
  have hexponent := congrArg BitVec.toNat hexponent
  rw [toNat_unpackExponent] at hexponent
  rw [toNat_unpackMantissa]
  change bits.toNat / 2 ^ 52 % 2 ^ 11 = 2047 at hexponent
  change bits.toNat % 2 ^ 52 = 0
  change bits.toNat % 2 ^ 63 ≤ 2047 * 2 ^ 52 at h
  omega

/-- Bits that are no NaN are kept. -/
theorem toBits_ofBits {bits : UInt64} (h : bits.toNat % 2 ^ 63 ≤ infinityBits) :
    (Float.ofBits bits).toBits = bits :=
  congrArg UInt64.ofBitVec (pack_unpack_of_valid (valid_of_le h))

/-- Infinity leaves room for the sign. -/
theorem infinityBits_lt : infinityBits < 2 ^ 63 := by
  show 2047 * 2 ^ 52 < 2 ^ 63
  omega

/-- No quotient is rounded to a NaN. -/
theorem nearestBits_le (num den : Nat) : nearestBits num den ≤ infinityBits := by
  unfold nearestBits
  split
  · exact Nat.zero_le _
  · exact Nat.min_le_right _ _

/-- The bits of a number that is made from its sign and the bits of its magnitude. -/
theorem toNat_toBits_of_sign (negative : Bool) {bits : Nat} (h : bits ≤ infinityBits) :
    (ofMagnitudeBits negative bits).toBits.toNat =
      if negative = true then bits + 2 ^ 63 else bits := by
  have hlt := infinityBits_lt
  have htwo : twoTo 63 = 2 ^ 63 := rfl
  have hbits : (UInt64.ofNat (if negative = true then bits + twoTo 63 else bits)).toNat =
      if negative = true then bits + 2 ^ 63 else bits := by
    rw [htwo, UInt64.toNat_ofNat', Nat.mod_eq_of_lt]
    split <;> omega
  have htoBits : (ofMagnitudeBits negative bits).toBits =
      UInt64.ofNat (if negative = true then bits + twoTo 63 else bits) := by
    refine toBits_ofBits ?_
    rw [hbits]
    split <;> omega
  rw [htoBits, hbits]

/-- The bits of the magnitude are those of the number, if it is not to be negative. -/
theorem toNat_toBits_ofMagnitudeBits {bits : Nat} (h : bits ≤ infinityBits) :
    (ofMagnitudeBits false bits).toBits.toNat = bits :=
  toNat_toBits_of_sign false h

/-- A number made of bits has these bits. -/
theorem magnitudeBits_ofMagnitudeBits (negative : Bool) {bits : Nat} (h : bits ≤ infinityBits) :
    magnitudeBits (ofMagnitudeBits negative bits) = bits := by
  have hlt := infinityBits_lt
  have htwo : twoTo 63 = 2 ^ 63 := rfl
  rw [magnitudeBits, toNat_toBits_of_sign negative h, htwo]
  split <;> omega

/-- A number made with a sign has that sign. -/
theorem isNegative_ofMagnitudeBits (negative : Bool) {bits : Nat} (h : bits ≤ infinityBits) :
    isNegative (ofMagnitudeBits negative bits) = negative := by
  have hlt := infinityBits_lt
  have htwo : twoTo 63 = 2 ^ 63 := rfl
  rw [isNegative, toNat_toBits_of_sign negative h, htwo]
  cases negative
  · simpa using h.trans_lt hlt
  · simp

/-- From zero to infinity, without the negative zero: the bits of these numbers are in their order,
and those of a negative number or of a NaN are larger. -/
def IsNonnegative (x : Float) : Prop := x.toBits.toNat ≤ infinityBits

instance (x : Float) : Decidable (IsNonnegative x) := Nat.decLe _ _

/-- A rounded quotient is negative only if it is asked to be. -/
theorem isNonnegative_nearest (num den : Nat) : IsNonnegative (nearest false num den) := by
  have hle := nearestBits_le num den
  rw [IsNonnegative, nearest, toNat_toBits_ofMagnitudeBits hle]
  exact hle

/-- A number without a sign is not negative. -/
theorem IsNonnegative.isNegative_eq_false {x : Float} (hx : IsNonnegative x) :
    isNegative x = false := by
  have hlt := infinityBits_lt
  rw [isNegative, decide_eq_false_iff_not]
  show ¬ 2 ^ 63 ≤ _
  unfold IsNonnegative at hx
  omega

/-! ## Addition -/

/-- A number is packed as it is unpacked. -/
theorem ofModel_pack_unpack (x : Float) : Float.ofModel (.pack x.toModel.unpack) = x := by
  obtain ⟨⟨bits, hvalid⟩⟩ := x
  have hbits := pack_unpack_of_valid hvalid
  simp only [Float.Model.pack, Float.Model.unpack, hbits]

/-- A number is determined by what is unpacked from it. -/
theorem unpack_injective {x y : Float} (h : x.toModel.unpack = y.toModel.unpack) : x = y := by
  rw [← ofModel_pack_unpack x, h, ofModel_pack_unpack]

/-- A zero has no bits but its sign. -/
theorem bits_of_unpack_zero {b : BitVec Format.binary64.numBits} {s : Sign}
    (h : UnpackedFloat.unpack Format.binary64 b = .zero s) :
    s = Sign.ofBitVec (unpackSign b) ∧ unpackExponent b = 0#_ ∧ unpackMantissa b = 0#_ := by
  unfold UnpackedFloat.unpack at h
  dsimp only at h
  split at h
  · split at h <;> cases h
  · split at h
    · next hexponent =>
      split at h
      · next hmantissa =>
        cases h
        exact ⟨rfl, hexponent, hmantissa⟩
      · cases h
    · cases h

/-- What is unpacked to zero is zero. -/
theorem isZero_of_unpack_zero {x : Float} {s : Sign} (h : x.toModel.unpack = .zero s) :
    isZero x = true := by
  obtain ⟨-, hexponent, hmantissa⟩ := bits_of_unpack_zero h
  have hexponent := congrArg BitVec.toNat hexponent
  have hmantissa := congrArg BitVec.toNat hmantissa
  rw [toNat_unpackExponent] at hexponent
  rw [toNat_unpackMantissa] at hmantissa
  change x.toBits.toNat / 2 ^ 52 % 2 ^ 11 = 0 at hexponent
  change x.toBits.toNat % 2 ^ 52 = 0 at hmantissa
  refine beq_iff_eq.2 ?_
  show x.toBits.toNat % 2 ^ 63 = 0
  omega

/-- Zero without a sign is unpacked without one. -/
theorem positive_of_unpack_zero {x : Float} {s : Sign} (h : x.toModel.unpack = .zero s)
    (hx : isNegative x = false) : s = .positive := by
  have hsign : @unpackSign Format.binary64 x.toBits.toBitVec = 0#1 := by
    refine BitVec.eq_of_toNat_eq ?_
    rw [isNegative, decide_eq_false_iff_not, Nat.not_le] at hx
    rw [toNat_unpackSign]
    change x.toBits.toNat < 2 ^ 63 at hx
    change x.toBits.toNat / 2 ^ 63 % 2 = 0
    omega
  exact (bits_of_unpack_zero h).1.trans (congrArg Sign.ofBitVec hsign)

/-- Adding a zero changes no number with a positive sign. -/
theorem zero_add {x : Float} (h : isNegative x = false) : 0.0 + x = x := by
  have hzero : (0.0 : Float).toModel.unpack = .zero .positive := rfl
  have hadd : UnpackedFloat.add Format.binary64 (.zero .positive) x.toModel.unpack =
      x.toModel.unpack := by
    cases hx : x.toModel.unpack with
    | zero s =>
      rw [positive_of_unpack_zero hx h]
      rfl
    | _ => rfl
  show Float.ofModel (.pack (UnpackedFloat.add _ (0.0 : Float).toModel.unpack _)) = x
  rw [hzero, hadd, ofModel_pack_unpack]

end Formulary.Binary64
