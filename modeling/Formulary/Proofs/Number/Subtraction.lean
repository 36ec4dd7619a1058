import Formulary.Proofs.Number.Binary64

/-!
# Differences that are zero

A difference of two binary64 numbers is zero only if they are the same number or both zeros
(`eq_or_zero_of_sub`). Two facts make it so: a number has one mantissa and exponent (`IsCanonical`),
so that the exact difference of two numbers is zero for equal ones only; and no other difference is
rounded to zero, because none is below the smallest exponent (`exists_round`).
-/

namespace Formulary.Binary64

open Float.Model Float.Model.UnpackedFloat

/-! ## Canonical numbers -/

/-- The mantissa has 53 bits, unless the exponent is the smallest one. -/
structure IsCanonical (m : Nat) (e : Int) : Prop where
  pos : 0 < m
  lt : m < 2 ^ 53
  le : -1074 ≤ e
  normal : e = -1074 ∨ 2 ^ 52 ≤ m

/-- A mantissa with its implicit bit. -/
theorem toNat_implicit {n : Nat} (m : BitVec n) : (1#1 ++ m).toNat = 2 ^ n + m.toNat := by
  rw [BitVec.toNat_append, ← Nat.shiftLeft_add_eq_or_of_lt m.isLt]
  simp [Nat.shiftLeft_eq]

/-- What is unpacked is canonical. -/
theorem isCanonical_of_unpack {b : BitVec Format.binary64.numBits} {s : Sign} {m : Nat} {e : Int}
    {hm : 0 < m} (h : UnpackedFloat.unpack Format.binary64 b = .finite s m e hm) :
    IsCanonical m e := by
  have hmantissa : (unpackMantissa b).toNat < 2 ^ 52 := (unpackMantissa b).isLt
  have hwidth : Format.binary64.mantissaBitsWithoutImplicit = 52 := rfl
  have hbias : Format.binary64.exponentBias = 1023 := rfl
  unfold UnpackedFloat.unpack at h
  dsimp only at h
  split at h
  · split at h <;> cases h
  · split at h
    · next hbottom =>
      split at h
      · cases h
      · cases h
        have hzero : (unpackExponent b).toNat = 0 := congrArg BitVec.toNat hbottom
        refine ⟨hm, by omega, by omega, .inl ?_⟩
        omega
    · next hbottom =>
      have hpos : (unpackExponent b).toNat ≠ 0 := fun hzero => hbottom (BitVec.eq_of_toNat_eq hzero)
      cases h
      rw [toNat_implicit] at hm ⊢
      rw [hbias]
      change IsCanonical (2 ^ 52 + (unpackMantissa b).toNat) (_ - (1023 + 52 : Int))
      exact ⟨hm, by omega, by omega, .inr (by omega)⟩

/-- A mantissa shifted up by at least one bit has more than 53 of them. -/
theorem IsCanonical.shift_ge {m : Nat} {e e' : Int} (h : IsCanonical m e) (hle : -1074 ≤ e')
    (hlt : e' < e) : 2 ^ 53 ≤ m * 2 ^ (e - e').toNat := by
  have hm : 2 ^ 52 ≤ m := h.normal.resolve_left (by omega)
  have hshift : 2 ^ 1 ≤ 2 ^ (e - e').toNat := Nat.pow_le_pow_right (by decide) (by omega)
  calc 2 ^ 53 = 2 ^ 52 * 2 ^ 1 := by decide
    _ ≤ m * 2 ^ (e - e').toNat := Nat.mul_le_mul hm hshift

/-- A number has one canonical mantissa and exponent. -/
theorem IsCanonical.unique {m m' : Nat} {e e' : Int} (h : IsCanonical m e)
    (h' : IsCanonical m' e')
    (heq : m * 2 ^ (e - min e e').toNat = m' * 2 ^ (e' - min e e').toNat) : m = m' ∧ e = e' := by
  rcases Int.lt_trichotomy e e' with hlt | rfl | hlt
  · have hge := h'.shift_ge h.le hlt
    have hm := h.lt
    rw [Int.min_eq_left (by omega), Int.sub_self] at heq
    simp only [Int.toNat_zero, Nat.pow_zero, Nat.mul_one] at heq
    omega
  · simpa using heq
  · have hge := h.shift_ge h'.le hlt
    have hm := h'.lt
    rw [Int.min_eq_right (by omega), Int.sub_self] at heq
    simp only [Int.toNat_zero, Nat.pow_zero, Nat.mul_one] at heq
    omega

/-! ## Rounding -/

theorem mantissa_shiftRight (em : ExtendedMantissa) (k : Nat) :
    (em >>> k).mantissa = em.mantissa / 2 ^ k := by
  induction k with
  | zero => exact (Nat.div_one _).symm
  | succ k ih =>
    show (em >>> k).mantissa / 2 = _
    rw [ih, Nat.div_div_eq_div_mul, Nat.pow_succ]

theorem mantissa_ofMantissaAndAccuracy (m : Nat) (a : Accuracy) :
    (ExtendedMantissa.ofMantissaAndAccuracy m a).mantissa = m := by
  rcases a with _ | o
  · rfl
  · cases o <;> rfl

/-- Rounding to even does not round below the mantissa. -/
theorem le_roundedMantissa (em : ExtendedMantissa) : em.mantissa ≤ em.roundedMantissa := by
  unfold ExtendedMantissa.roundedMantissa
  rcases em.accuracy with _ | o
  · exact Nat.le_refl _
  · cases o with
    | lt => exact Nat.le_refl _
    | eq => exact Nat.le_add_right _ _
    | gt => exact Nat.le_succ _

/-- By how many bits a mantissa is shifted down: by those that it has too many. -/
theorem shiftAmount_eq {m : Nat} {e : Int} (he : -1074 ≤ e) :
    (Format.binary64.targetExponent (totalExponent m e) - e).toNat = m.log2 - 52 := by
  have htarget : Format.binary64.targetExponent (totalExponent m e) =
      max ((m.log2 : Int) + 1 + e - 53) (-1074) := rfl
  omega

theorem shifted_pos_lt {m : Nat} (hm : 0 < m) :
    0 < m / 2 ^ (m.log2 - 52) ∧ m / 2 ^ (m.log2 - 52) < 2 ^ 53 := by
  have hne : m ≠ 0 := by omega
  have hlow : 2 ^ m.log2 ≤ m := Nat.log2_self_le hne
  have hhigh : m < 2 ^ (m.log2 + 1) := Nat.lt_log2_self
  have hpos := Nat.two_pow_pos (m.log2 - 52)
  refine ⟨Nat.div_pos (Nat.le_trans (Nat.pow_le_pow_right (by decide) (by omega)) hlow) hpos, ?_⟩
  rw [Nat.div_lt_iff_lt_mul hpos, ← Nat.pow_add]
  exact Nat.lt_of_lt_of_le hhigh (Nat.pow_le_pow_right (by decide) (by omega))

/-- A mantissa that is not zero is not rounded to zero. -/
theorem exists_roundWithAccuracy (s : Sign) {m : Nat} {e : Int} (a : Accuracy) (hm : 0 < m)
    (he : -1074 ≤ e) :
    ∃ m' e' hm', roundWithAccuracy Format.binary64 s m e a = .finite s m' e' hm' ∧
      m' < 2 ^ 53 ∧ -1074 ≤ e' := by
  unfold roundWithAccuracy shiftToTargetExponent shiftToExponent
  dsimp only
  rw [shiftAmount_eq he]
  generalize hrounded : ExtendedMantissa.roundedMantissa _ = rounded
  have hpos : 0 < rounded := by
    have := le_roundedMantissa (ExtendedMantissa.ofMantissaAndAccuracy m a >>> (m.log2 - 52))
    rw [hrounded, mantissa_shiftRight, mantissa_ofMantissaAndAccuracy] at this
    exact Nat.lt_of_lt_of_le (shifted_pos_lt hm).1 this
  -- rounding up may carry into one more bit, so the mantissa is shifted a second time
  have he' : -1074 ≤ e + ((m.log2 - 52 : Nat) : Int) := by omega
  rw [shiftAmount_eq he', mantissa_shiftRight, mantissa_ofMantissaAndAccuracy]
  obtain ⟨hpos', hlt⟩ := shifted_pos_lt hpos
  rw [dif_neg (by omega)]
  exact ⟨_, _, hpos', rfl, hlt, by omega⟩

theorem exists_round (s : Sign) {m : Nat} {e : Int} (hm : 0 < m) (he : -1074 ≤ e) :
    ∃ m' e' hm', UnpackedFloat.round Format.binary64 s m e = .finite s m' e' hm' ∧
      m' < 2 ^ 53 ∧ -1074 ≤ e' := by
  unfold UnpackedFloat.round decreaseExponent
  dsimp only
  refine exists_roundWithAccuracy s _ ?_ ?_
  · rw [Nat.shiftLeft_eq]
    exact Nat.mul_pos hm (Nat.two_pow_pos _)
  · have htarget : -1074 ≤ Format.binary64.targetExponent (totalExponent m e) :=
      Int.le_max_right _ _
    omega

/-! ## Zeros -/

/-- Rounded numbers are not packed as zeros. -/
theorem unpack_pack_ne_zero {s s' : Sign} {m : Nat} {e : Int} (hm : 0 < m) (hlt : m < 2 ^ 53)
    (he : -1074 ≤ e) :
    UnpackedFloat.unpack Format.binary64 (UnpackedFloat.pack Format.binary64 (.finite s m e hm)) ≠
      .zero s' := by
  intro h
  obtain ⟨-, hexponent, hmantissa⟩ := bits_of_unpack_zero h
  unfold UnpackedFloat.pack at hexponent hmantissa
  dsimp only at hexponent hmantissa
  have hbias : (e + Format.binary64.exponentBias +
      Format.binary64.mantissaBitsWithoutImplicit).toNat = (e + 1075).toNat := by
    rw [Int.add_assoc]
    rfl
  split at hexponent
  · rw [packedInfinity, unpackExponent_packComponents] at hexponent
    exact absurd hexponent (by decide)
  · next hsmall =>
    rw [if_neg hsmall] at hmantissa
    split at hexponent
    · -- a normal number has an exponent
      have hzero := congrArg BitVec.toNat hexponent
      rw [unpackExponent_packComponents, hbias, BitVec.toNat_ofNat] at hzero
      rw [hbias] at hsmall
      change (e + 1075).toNat % 2048 = 0 at hzero
      change ¬ 2048 ≤ (e + 1075).toNat + 1 at hsmall
      omega
    · next hsubnormal =>
      -- a subnormal number has a mantissa
      rw [if_neg hsubnormal, unpackMantissa_packComponents] at hmantissa
      have hzero := congrArg BitVec.toNat hmantissa
      rw [BitVec.toNat_ofNat] at hzero
      change m % 2 ^ 52 = 0 at hzero
      change ¬ m.log2 + 1 = 53 at hsubnormal
      have hlog : m.log2 < 53 := (Nat.log2_lt (by omega)).2 hlt
      have hless : m < 2 ^ 52 := (Nat.log2_lt (by omega)).1 (by omega)
      omega

/-- What equals zero is unpacked as one of the zeros. -/
theorem unpack_of_beq_zero {x : Float} (h : Float.beq x (Float.ofNat 0) = true) :
    ∃ s, x.toModel.unpack = .zero s := by
  have hbeq : UnpackedFloat.beq x.toModel.unpack (.zero .positive) = true := h
  obtain ⟨-, -, hx | ⟨-, hsign⟩ | ⟨hx, -⟩⟩ := (beq_iff_ne_notANumber_and_eq _ _).1 hbeq
  · exact ⟨_, hx⟩
  · cases hsign
  · exact ⟨_, hx⟩

/-- A rounded number is not zero. -/
theorem unpack_pack_normalize_ne_zero {m e : Int} {s : Sign} (hm : m ≠ 0) (he : -1074 ≤ e) :
    UnpackedFloat.unpack Format.binary64
      (UnpackedFloat.pack Format.binary64 (UnpackedFloat.normalize Format.binary64 m e .positive)) ≠
        .zero s := by
  unfold UnpackedFloat.normalize
  split
  · next hlt =>
    obtain ⟨m', e', hm', hround, hlt', he'⟩ :=
      exists_round .negative (m := (-m).toNat) (by have := Int.compare_eq_lt.1 hlt; omega) he
    rw [hround]
    exact unpack_pack_ne_zero hm' hlt' he'
  · next heq => exact absurd (Int.compare_eq_eq.1 heq) hm
  · next hgt =>
    obtain ⟨m', e', hm', hround, hlt', he'⟩ :=
      exists_round .positive (m := m.toNat) (by have := Int.compare_eq_gt.1 hgt; omega) he
    rw [hround]
    exact unpack_pack_ne_zero hm' hlt' he'

/-- Signed magnitudes that are equal have equal signs. -/
theorem apply_eq_apply {s s' : Sign} {a b : Nat} (ha : 0 < a) (hb : 0 < b)
    (h : s.apply a - s'.apply b = 0) : s = s' ∧ a = b := by
  cases s <;> cases s' <;> simp only [Sign.apply] at h
  · exact ⟨rfl, by omega⟩
  · omega
  · omega
  · exact ⟨rfl, by omega⟩

theorem isCanonical_of_unpack_toModel {x : Float} {s : Sign} {m : Nat} {e : Int} {hm : 0 < m}
    (h : x.toModel.unpack = .finite s m e hm) : IsCanonical m e :=
  isCanonical_of_unpack h

/-- The exact difference of two canonical numbers is zero for equal ones only. -/
theorem IsCanonical.eq_of_difference {s s' : Sign} {m m' : Nat} {e e' : Int}
    (h : IsCanonical m e) (h' : IsCanonical m' e')
    (hzero : s.apply (m <<< (e - min e e').toNat : Nat) -
      s'.apply (m' <<< (e' - min e e').toNat : Nat) = 0) : s = s' ∧ m = m' ∧ e = e' := by
  rw [Nat.shiftLeft_eq, Nat.shiftLeft_eq] at hzero
  obtain ⟨hsign, hmagnitude⟩ := apply_eq_apply (Nat.mul_pos h.pos (Nat.two_pow_pos _))
    (Nat.mul_pos h'.pos (Nat.two_pow_pos _)) hzero
  exact ⟨hsign, h.unique h' hmagnitude⟩

/-- A difference with an infinite number or a NaN is one of these. -/
theorem sub_of_special {u v : UnpackedFloat}
    (h : (u = .notANumber ∨ ∃ s, u = .infinity s) ∨ v = .notANumber ∨ ∃ s, v = .infinity s) :
    UnpackedFloat.sub Format.binary64 u v = .notANumber ∨
      ∃ s, UnpackedFloat.sub Format.binary64 u v = .infinity s := by
  rcases h with (rfl | ⟨s, rfl⟩) | rfl | ⟨s, rfl⟩
  · exact .inl rfl
  · cases v with
    | notANumber => exact .inl rfl
    | infinity s' =>
      rw [UnpackedFloat.sub]
      split
      · exact .inr ⟨s, rfl⟩
      · exact .inl rfl
    | zero s' => exact .inr ⟨s, rfl⟩
    | finite s' m e hm => exact .inr ⟨s, rfl⟩
  · cases u <;> exact .inl rfl
  · cases u with
    | notANumber => exact .inl rfl
    | infinity s' =>
      rw [UnpackedFloat.sub]
      split
      · exact .inr ⟨s', rfl⟩
      · exact .inl rfl
    | zero s' => exact .inr ⟨-s, rfl⟩
    | finite s' m e hm => exact .inr ⟨-s, rfl⟩

/-- Such a difference is not zero. -/
theorem unpack_pack_special {u : UnpackedFloat} {s : Sign}
    (h : u = .notANumber ∨ ∃ s, u = .infinity s) :
    UnpackedFloat.unpack Format.binary64 (UnpackedFloat.pack Format.binary64 u) ≠ .zero s := by
  rcases h with rfl | ⟨s', rfl⟩
  · rintro ⟨⟩
  · cases s' <;> rintro ⟨⟩

/-- Two numbers whose difference is zero are the same number, or both are zeros. -/
theorem eq_or_zero_of_sub {x y : Float} (h : Float.beq (x - y) (Float.ofNat 0) = true) :
    x = y ∨ ∃ s s', x.toModel.unpack = .zero s ∧ y.toModel.unpack = .zero s' := by
  obtain ⟨s, hzero⟩ := unpack_of_beq_zero h
  have hsub : UnpackedFloat.unpack Format.binary64 (UnpackedFloat.pack Format.binary64
      (UnpackedFloat.sub Format.binary64 x.toModel.unpack y.toModel.unpack)) = .zero s := hzero
  -- only finite operands are left, of which one at most is a zero
  have hspecial := fun hspecial => unpack_pack_special (s := s) (sub_of_special hspecial) hsub
  cases hx : x.toModel.unpack with
  | notANumber => exact absurd (.inl (.inl hx)) hspecial
  | infinity sx => exact absurd (.inl (.inr ⟨sx, hx⟩)) hspecial
  | zero sx =>
    cases hy : y.toModel.unpack with
    | notANumber => exact absurd (.inr (.inl hy)) hspecial
    | infinity sy => exact absurd (.inr (.inr ⟨sy, hy⟩)) hspecial
    | zero sy => exact .inr ⟨sx, sy, rfl, rfl⟩
    | finite sy my ey hmy =>
      have hcy := isCanonical_of_unpack_toModel hy
      rw [hx, hy] at hsub
      exact absurd hsub (unpack_pack_ne_zero hmy hcy.lt hcy.le)
  | finite sx mx ex hmx =>
    have hcx := isCanonical_of_unpack_toModel hx
    cases hy : y.toModel.unpack with
    | notANumber => exact absurd (.inr (.inl hy)) hspecial
    | infinity sy => exact absurd (.inr (.inr ⟨sy, hy⟩)) hspecial
    | zero sy =>
      rw [hx, hy] at hsub
      exact absurd hsub (unpack_pack_ne_zero hmx hcx.lt hcx.le)
    | finite sy my ey hmy =>
      have hcy := isCanonical_of_unpack_toModel hy
      rw [hx, hy] at hsub
      have hle : -1074 ≤ min ex ey := Int.le_min.2 ⟨hcx.le, hcy.le⟩
      have hexact : sx.apply (mx <<< (ex - min ex ey).toNat : Nat) -
          sy.apply (my <<< (ey - min ex ey).toNat : Nat) = 0 :=
        Decidable.byContradiction fun hne =>
          absurd hsub (unpack_pack_normalize_ne_zero hne hle)
      obtain ⟨rfl, rfl, rfl⟩ := hcx.eq_of_difference hcy hexact
      exact .inl (unpack_injective (hx.trans hy.symm))

end Formulary.Binary64
