import Mathlib
import Typecase.Field.Envelope

/-!
# Whole numbers in floating point

Positions and numbers of samples are whole numbers, and become floating point numbers where the
arithmetic on samples needs them. Two facts about this are used: no position of a line lies behind
`far` (`not_far_lt_ofNat`), and a number of samples that is not zero does not become zero
(`ofNat_ne_zero`).

A number is **normal** (`IsNormal`) when its mantissa has as many bits as the format keeps. Rounding
a product gives a normal number, and its exponent is determined but for one carry
(`isNormal_roundWithAccuracy`); packing a normal number into bits loses nothing unless the exponent
is too large (`IsNormal.unpack_pack`). Both facts follow from the place of the exponent alone, so
that the digits of the number need not be known.
-/

namespace Typecase.WholeNumber

open Float.Model Float.Model.UnpackedFloat

variable {S : Format} {u : UnpackedFloat} {m k n : Nat} {e low high : Int}

/-! ### Rounding -/

theorem mantissa_shiftRight (em : ExtendedMantissa) (k : Nat) :
    (em >>> k).mantissa = em.mantissa / 2 ^ k := by
  change (k.repeat ExtendedMantissa.shiftRightOne em).mantissa = _
  induction k with
  | zero => rw [Nat.repeat, Nat.pow_zero, Nat.div_one]
  | succ k ih =>
    rw [Nat.repeat, ExtendedMantissa.shiftRightOne, ih, Nat.div_div_eq_div_mul, Nat.pow_succ]

/-- Rounding keeps a mantissa or adds one to it. -/
theorem roundedMantissa_cases (em : ExtendedMantissa) :
    em.roundedMantissa = em.mantissa ∨ em.roundedMantissa = em.mantissa + 1 := by
  rw [ExtendedMantissa.roundedMantissa]
  generalize em.accuracy = accuracy
  cases accuracy with
  | exact => exact .inl rfl
  | inexact remainder =>
    cases remainder with
    | lt => exact .inl rfl
    | gt => exact .inr rfl
    | eq =>
      change em.mantissa + em.mantissa % 2 = _ ∨ em.mantissa + em.mantissa % 2 = _
      omega

theorem log2_div_two_pow (m k : Nat) : (m / 2 ^ k).log2 = m.log2 - k := by
  rw [Nat.log2_eq_log_two, Nat.log2_eq_log_two, Nat.log_div_base_pow]

/-- One more than a number has as many bits, unless the number was the last with its bits. -/
theorem log2_succ_cases (hm : 0 < m) : (m + 1).log2 = m.log2 ∨ (m + 1).log2 = m.log2 + 1 := by
  have hlow := Nat.log2_self_le (Nat.ne_of_gt hm)
  have hhigh : m + 1 ≤ 2 ^ (m.log2 + 1) := Nat.lt_log2_self
  rcases Nat.lt_or_ge (m + 1) (2 ^ (m.log2 + 1)) with hlt | hge
  · exact .inl ((Nat.log2_eq_iff (Nat.succ_ne_zero m)).mpr ⟨by omega, hlt⟩)
  · have heq : m + 1 = 2 ^ (m.log2 + 1) := Nat.le_antisymm hhigh hge
    exact .inr (by rw [heq, Nat.log2_two_pow])

/-- A positive number whose mantissa has all the bits that the format keeps, with an exponent from
`low` to `high`. -/
def IsNormal (S : Format) (low high : Int) (u : UnpackedFloat) : Prop :=
  ∃ m e h, u = .finite .positive m e h ∧ m.log2 + 1 = S.mantissaBits ∧ low ≤ e ∧ e ≤ high

theorem pos_of_log2 (h : m.log2 + 1 = S.mantissaBits) : 0 < m := by
  refine Nat.pos_of_ne_zero ?_
  rintro rfl
  have hbits := S.hm
  rw [Nat.log2_zero, Format.mantissaBits] at h
  omega

/-- Shifting to the exponent that the format asks for leaves as many bits as the format keeps. -/
theorem shiftToTargetExponent_spec (hbits : S.mantissaBits ≤ m.log2 + 1)
    (hmin : S.minExponent ≤ m.log2 + 1 + e - S.mantissaBits) :
    (shiftToTargetExponent S m e .exact).1.mantissa.log2 + 1 = S.mantissaBits ∧
      (shiftToTargetExponent S m e .exact).2 = m.log2 + 1 + e - S.mantissaBits := by
  have hpos : 0 < S.mantissaBits := Nat.lt_add_right _ Nat.one_pos
  have htarget : S.targetExponent (totalExponent m e) = m.log2 + 1 + e - S.mantissaBits :=
    max_eq_left hmin
  rw [shiftToTargetExponent, htarget, shiftToExponent]
  dsimp only
  rw [mantissa_shiftRight, ExtendedMantissa.ofMantissaAndAccuracy, log2_div_two_pow]
  dsimp only
  omega

/-- **Rounding** gives a normal number, with the exponent asked for or, after a carry, one more. -/
theorem isNormal_roundWithAccuracy (hbits : S.mantissaBits ≤ m.log2 + 1)
    (hmin : S.minExponent ≤ m.log2 + 1 + e - S.mantissaBits) :
    IsNormal S (m.log2 + 1 + e - S.mantissaBits) (m.log2 + 1 + e - S.mantissaBits + 1)
      (roundWithAccuracy S .positive m e .exact) := by
  obtain ⟨hlog, hexponent⟩ := shiftToTargetExponent_spec hbits hmin
  rw [roundWithAccuracy]
  dsimp only
  generalize shiftToTargetExponent S m e .exact = first at hlog hexponent ⊢
  have hcarry : first.1.roundedMantissa.log2 + 1 = S.mantissaBits ∨
      first.1.roundedMantissa.log2 = S.mantissaBits := by
    rcases roundedMantissa_cases first.1 with hround | hround
    · exact .inl (by rw [hround, hlog])
    · have := log2_succ_cases (pos_of_log2 hlog)
      rw [hround]
      omega
  -- a carry is shifted out again, and nothing is left to round
  obtain ⟨hlog', hexponent'⟩ := shiftToTargetExponent_spec (S := S)
    (m := first.1.roundedMantissa) (e := first.2) (by omega) (by omega)
  generalize shiftToTargetExponent S first.1.roundedMantissa first.2 .exact = second
    at hlog' hexponent' ⊢
  rw [dif_neg (Nat.ne_of_gt (pos_of_log2 hlog'))]
  exact ⟨_, _, _, rfl, hlog', by omega, by omega⟩

/-! ### Packing -/

theorem minExponent_eq (S : Format) :
    S.minExponent = 1 - (S.exponentBias + S.mantissaBitsWithoutImplicit : Nat) := by
  have hpos : 1 ≤ 2 ^ (S.exponentBits - 1) := Nat.one_le_two_pow
  rw [Format.minExponent, Format.exponentBias, Format.mantissaBits]
  push_cast [hpos]
  omega

theorem unpack_packedInfinity :
    UnpackedFloat.unpack S (packedInfinity S .positive) = .infinity .positive := by
  rw [UnpackedFloat.unpack, packedInfinity, unpackExponent_packComponents, if_pos rfl,
    unpackSign_packComponents, Sign.ofBitVec_toBitVec, unpackMantissa_packComponents]
  exact if_pos rfl

theorem toNat_leadingOne_append (mantissa : BitVec k) :
    (1#1 ++ mantissa).toNat = 2 ^ k + mantissa.toNat := by
  rw [BitVec.toNat_append, ← Nat.shiftLeft_add_eq_or_of_lt mantissa.isLt]
  simp [Nat.shiftLeft_eq]

/-- The leading bit of a mantissa need not be stored. -/
theorem toNat_leadingOne_append_ofNat (hm : 0 < m) (h : m.log2 = k) :
    (1#1 ++ BitVec.ofNat k m).toNat = m := by
  subst h
  have hlow := Nat.log2_self_le (Nat.ne_of_gt hm)
  have hhigh : m < 2 ^ (m.log2 + 1) := Nat.lt_log2_self
  rw [Nat.pow_succ] at hhigh
  rw [toNat_leadingOne_append, BitVec.toNat_ofNat, Nat.mod_eq_sub_mod hlow,
    Nat.mod_eq_of_lt (by omega), Nat.add_sub_cancel' hlow]

/-- **Packing** loses nothing of a normal number that is not too small, unless its exponent is too
large for the format. -/
theorem IsNormal.unpack_pack (h : IsNormal S low high u) (hlow : S.minExponent ≤ low) :
    UnpackedFloat.unpack S (UnpackedFloat.pack S u) = u ∨
      UnpackedFloat.unpack S (UnpackedFloat.pack S u) = .infinity .positive ∧
        (2 ^ S.exponentBits : Nat) ≤
          high + (S.exponentBias + S.mantissaBitsWithoutImplicit : Nat) + 1 := by
  obtain ⟨m, e, hm, rfl, hlog, hle, hhigh⟩ := h
  rw [minExponent_eq] at hlow
  rw [UnpackedFloat.pack]
  split
  · exact .inr ⟨unpack_packedInfinity, by omega⟩
  · rename_i hsmall
    have hexponent : (BitVec.ofNat S.exponentBits (e + S.exponentBias +
        S.mantissaBitsWithoutImplicit).toNat).toNat =
          (e + S.exponentBias + S.mantissaBitsWithoutImplicit).toNat := by
      rw [BitVec.toNat_ofNat, Nat.mod_eq_of_lt (by omega)]
    have hmantissa : (1#1 ++ BitVec.ofNat S.mantissaBitsWithoutImplicit m).toNat = m :=
      toNat_leadingOne_append_ofNat hm (by rw [Format.mantissaBits] at hlog; omega)
    generalize BitVec.ofNat S.exponentBits _ = exponent at hexponent ⊢
    generalize BitVec.ofNat S.mantissaBitsWithoutImplicit m = mantissa at hmantissa ⊢
    have hnotLargest : exponent ≠ -1#S.exponentBits := by
      rintro rfl
      rw [BitVec.neg_one_eq_allOnes, BitVec.toNat_allOnes] at hexponent
      omega
    have hnotZero : exponent ≠ 0#S.exponentBits := by
      rintro rfl
      rw [BitVec.toNat_zero] at hexponent
      omega
    left
    rw [UnpackedFloat.unpack, unpackExponent_packComponents, if_neg hnotLargest,
      if_neg hnotZero, unpackSign_packComponents, Sign.ofBitVec_toBitVec]
    simp only [unpackMantissa_packComponents, hmantissa, hexponent]
    congr 1
    omega

/-! ### Whole numbers -/

theorem IsNormal.mono {low' high' : Int} (h : IsNormal S low high u) (hlow : low' ≤ low)
    (hhigh : high ≤ high') : IsNormal S low' high' u := by
  obtain ⟨m, e, hm, hu, hlog, hle, hge⟩ := h
  exact ⟨m, e, hm, hu, hlog, hlow.trans hle, hge.trans hhigh⟩

theorem log2_mul_two_pow (hm : 0 < m) (k : Nat) : (m * 2 ^ k).log2 = m.log2 + k := by
  induction k with
  | zero => rw [Nat.pow_zero, Nat.mul_one, Nat.add_zero]
  | succ k ih =>
    have hne : m * 2 ^ k ≠ 0 := Nat.ne_of_gt (Nat.mul_pos hm (Nat.two_pow_pos k))
    rw [Nat.pow_succ', Nat.mul_left_comm, Nat.log2_two_mul hne, ih, Nat.add_assoc]

/-- Whole numbers from one on are rounded to normal numbers, in a format where one is normal. -/
theorem isNormal_ofNat (hS : S.minExponent ≤ 1 - S.mantissaBits) (hn : 0 < n) :
    IsNormal S (n.log2 + 1 - S.mantissaBits) (n.log2 + 1 - S.mantissaBits + 1)
      (UnpackedFloat.ofNat S n) := by
  have htarget : S.targetExponent (totalExponent n 0) = n.log2 + 1 - S.mantissaBits := by
    rw [totalExponent, Int.add_zero]
    exact max_eq_left (by omega)
  have hround : UnpackedFloat.ofNat S n = UnpackedFloat.round S .positive n 0 := by
    rw [UnpackedFloat.ofNat, UnpackedFloat.ofInt, UnpackedFloat.normalize,
      Int.compare_eq_gt.mpr (Int.natCast_pos.mpr hn)]
    rfl
  rw [hround, UnpackedFloat.round, htarget, decreaseExponent]
  dsimp only
  generalize hk : (0 - (n.log2 + 1 - S.mantissaBits : Int)).toNat = k
  have hlog : (n <<< k).log2 = n.log2 + k := by rw [Nat.shiftLeft_eq, log2_mul_two_pow hn]
  refine (isNormal_roundWithAccuracy (by omega) (by omega)).mono ?_ ?_ <;> omega

/-- One, as an unpacked number. -/
def one (S : Format) : UnpackedFloat :=
  .finite .positive (2 ^ S.mantissaBitsWithoutImplicit) (-S.mantissaBitsWithoutImplicit)
    (Nat.two_pow_pos _)

/-- Multiplying by one rounds once more. -/
theorem IsNormal.mul_one (h : IsNormal S low high u) (hlow : S.minExponent ≤ low) :
    IsNormal S low (high + 1) (UnpackedFloat.mul S u (one S)) := by
  obtain ⟨m, e, hm, rfl, hlog, hle, hhigh⟩ := h
  have hbits : S.mantissaBits = 1 + S.mantissaBitsWithoutImplicit := rfl
  have hproduct := log2_mul_two_pow hm S.mantissaBitsWithoutImplicit
  refine (isNormal_roundWithAccuracy (m := m * 2 ^ S.mantissaBitsWithoutImplicit)
    (e := e + -S.mantissaBitsWithoutImplicit) (by omega) (by omega)).mono ?_ ?_ <;> omega

/-- What becomes of a whole number with few bits: it is packed, multiplied by one, and packed. -/
def converted (S : Format) (n : Nat) : UnpackedFloat :=
  UnpackedFloat.unpack S (UnpackedFloat.pack S (UnpackedFloat.mul S
    (UnpackedFloat.unpack S (UnpackedFloat.pack S (UnpackedFloat.ofNat S n))) (one S)))

theorem isNormal_converted (hS : S.minExponent ≤ 1 - S.mantissaBits) (hn : 0 < n)
    (hfits : (n.log2 + 3 - S.mantissaBits +
      (S.exponentBias + S.mantissaBitsWithoutImplicit : Nat) + 1 : Int) <
        (2 ^ S.exponentBits : Nat)) :
    IsNormal S (n.log2 + 1 - S.mantissaBits) (n.log2 + 3 - S.mantissaBits) (converted S n) := by
  have hrounded := isNormal_ofNat hS hn
  have hkept := (hrounded.unpack_pack (by omega)).resolve_right fun h => by omega
  have hproduct := hrounded.mul_one (by omega)
  have hkept' := (hproduct.unpack_pack (by omega)).resolve_right fun h => by omega
  rw [converted, hkept, hkept']
  exact hproduct.mono le_rfl (by omega)

/-- A whole number in double precision. -/
theorem isNormal_double (hn : 0 < n) (hsmall : n < 2 ^ 53) :
    IsNormal .binary64 (n.log2 + 1 - 53) (n.log2 + 3 - 53) (Float.ofNat n).toModel.unpack := by
  have hlog : n.log2 < 53 := (Nat.log2_lt (Nat.ne_of_gt hn)).mpr hsmall
  have hconvert : Float.ofNat n =
      n.toUInt64.toFloat * Float.exactlyRepresentablePowersOfTen[0] := by
    change Float.ofScientific n false 0 = _
    rw [Float.ofScientific, dif_pos ⟨hsmall, by decide⟩]
    rfl
  have hsize : n.toUInt64.toNat = n := UInt64.toNat_ofNat_of_lt' (Nat.lt_trans hsmall (by decide))
  rw [hconvert]
  change IsNormal .binary64 _ _ (converted .binary64 n.toUInt64.toNat)
  rw [hsize]
  refine isNormal_converted (by decide) hn ?_
  change (n.log2 + 3 - 53 + 1075 + 1 : Int) < 2048
  omega

open GridNumber in
/-- **No position of a line lies behind `far`.** -/
theorem not_far_lt_ofNat (hsmall : n < 2 ^ 53) :
    lt (Envelope.far : Float) (ofNat n) = false := by
  obtain ⟨m, hm, hfar⟩ : ∃ m hm,
      (Envelope.far : Float).toModel.unpack = .finite .positive m 14 hm := ⟨_, _, rfl⟩
  have hcompare : (UnpackedFloat.finite .positive m 14 hm).compare (Float.ofNat n).toModel.unpack =
      some .gt := by
    rcases Nat.eq_zero_or_pos n with rfl | hn
    · rfl
    · have hlog : n.log2 < 53 := (Nat.log2_lt (Nat.ne_of_gt hn)).mpr hsmall
      obtain ⟨m', e, hm', hunpack, -, -, hhigh⟩ := isNormal_double hn hsmall
      have hexponent : compare 14 e = .gt := Int.compare_eq_gt.mpr (by omega)
      rw [hunpack, UnpackedFloat.compare, hexponent]
      rfl
  have hlt : ¬(Envelope.far : Float) < Float.ofNat n := by
    intro h
    have hless : ((Envelope.far : Float).toModel.unpack.compare (Float.ofNat n).toModel.unpack ==
      some .lt) = true := of_decide_eq_true h
    rw [hfar, hcompare] at hless
    exact absurd hless (by decide)
  exact decide_eq_false hlt

/-- A whole number with many bits in single precision, before it is packed. -/
theorem isNormal_ofScientific (hn : 0 < n) :
    IsNormal .binary32 (n.log2 + 1 - 24) (n.log2 + 2 - 24)
      (UnpackedFloat.ofScientific .binary32 n 0) := by
  have hunfold : UnpackedFloat.ofScientific .binary32 n 0 =
      roundWithAccuracy .binary32 .positive (n <<< 24 * 1) (-24) .exact := by
    have hexponent : (2 : Int) ^ Format.binary32.exponentBits = 256 := rfl
    rw [UnpackedFloat.ofScientific, dif_neg (Nat.ne_of_gt hn), hexponent, if_neg (by decide),
      if_neg (by omega), if_pos le_rfl]
    rfl
  have hlog : (n <<< 24 * 1).log2 = n.log2 + 24 := by
    rw [Nat.mul_one, Nat.shiftLeft_eq, log2_mul_two_pow hn]
  have hbits : Format.binary32.mantissaBits = 24 := rfl
  have hmin : Format.binary32.minExponent = -149 := rfl
  rw [hunfold]
  refine (isNormal_roundWithAccuracy (by omega) (by omega)).mono ?_ ?_ <;> omega

/-- A whole number in single precision. -/
theorem single_cases (hn : 0 < n) :
    IsNormal .binary32 (n.log2 + 1 - 24) (n.log2 + 3 - 24) (Float32.ofNat n).toModel.unpack ∨
      (Float32.ofNat n).toModel.unpack = .infinity .positive := by
  have hunfold : Float32.ofNat n = Float32.ofScientific n false 0 := rfl
  rcases Nat.lt_or_ge n (2 ^ 23) with hsmall | hlarge
  · have hlog : n.log2 < 23 := (Nat.log2_lt (Nat.ne_of_gt hn)).mpr hsmall
    have hsize : n.toUInt64.toNat = n :=
      UInt64.toNat_ofNat_of_lt' (Nat.lt_trans hsmall (by decide))
    have hconvert : Float32.ofNat n =
        n.toUInt64.toFloat32 * Float32.exactlyRepresentablePowersOfTen[0] := by
      rw [hunfold, Float32.ofScientific, dif_pos ⟨hsmall, by decide⟩]
      rfl
    left
    rw [hconvert]
    change IsNormal .binary32 _ _ (converted .binary32 n.toUInt64.toNat)
    rw [hsize]
    refine isNormal_converted (by decide) hn ?_
    change (n.log2 + 3 - 24 + 150 + 1 : Int) < 256
    omega
  · have hnormal := isNormal_ofScientific hn
    rw [hunfold, Float32.ofScientific, dif_neg (by omega)]
    change IsNormal .binary32 _ _ (UnpackedFloat.unpack .binary32 (UnpackedFloat.pack .binary32
      (UnpackedFloat.ofScientific .binary32 n 0))) ∨
        UnpackedFloat.unpack .binary32 (UnpackedFloat.pack .binary32
          (UnpackedFloat.ofScientific .binary32 n 0)) = _
    refine (hnormal.unpack_pack ?_).imp (fun hkept => ?_) And.left
    · have hmin : Format.binary32.minExponent = -149 := rfl
      omega
    · rw [hkept]
      exact hnormal.mono le_rfl (by omega)

/-- **A number of samples that is not zero does not become zero.** -/
theorem ofNat_ne_zero (hn : 0 < n) : (Float32.ofNat n == 0) = false := by
  change ((Float32.ofNat n).toModel.unpack.compare (.zero .positive) == some .eq) = false
  rcases single_cases hn with ⟨m, e, hm, hunpack, -⟩ | hunpack <;> rw [hunpack] <;> rfl

end Typecase.WholeNumber
