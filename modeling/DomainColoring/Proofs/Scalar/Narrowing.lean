import DomainColoring.Proofs.Scalar.UnitInterval

/-!
# Single precision

A number of the unit interval stays there when it is rounded to single precision: 1 is a number of that
format too, and rounding does not step over it (`upToOne_round`). What is stored is then zero, or has an
exponent below that of 1, or is 1 itself.
-/

namespace DomainColoring.Binary64

open Float.Model (Format UnpackedFloat totalExponent)
open Float.Model.UnpackedFloat
open ExtendedMantissa

/-- Zero, or a number above it whose value is at most 1. -/
inductive UpToOne : UnpackedFloat → Prop
  | zero (s : Sign) : UpToOne (.zero s)
  | finite {m : Nat} {e : Int} {pos : 0 < m} (le : (m * 2 ^ e : ℚ) ≤ 1) :
    UpToOne (.finite .positive m e pos)

section Rounding

variable {m : Nat} {e : Int}

/-- A shift only takes digits away. -/
theorem mantissa_shiftRight_mul_le (m : Nat) (e : Int) (a : Accuracy) (k : Nat) :
    (((ofMantissaAndAccuracy m a >>> k).mantissa : ℚ) * 2 ^ (e + k)) ≤ m * 2 ^ e := by
  have whole : ((m / 2 ^ k : Nat) : ℚ) * 2 ^ k ≤ m := by exact_mod_cast Nat.div_mul_le_self m (2 ^ k)
  rw [mantissa_shiftRight, mantissa_ofMantissaAndAccuracy, add_comm, two_zpow_add, zpow_natCast,
    ← mul_assoc]
  exact mul_le_mul_of_nonneg_right whole (two_zpow_pos e).le

/-- A shift to a place that 1 is a multiple of, and rounding there, does not lead above 1. -/
theorem roundedMantissa_shiftRight_mul_le {k : Nat} (le : (m * 2 ^ e : ℚ) ≤ 1) (place : e + k ≤ 0) :
    (((ofMantissaAndAccuracy m .exact >>> k).roundedMantissa : ℚ) * 2 ^ (e + k)) ≤ 1 := by
  obtain ⟨j, whole⟩ : ∃ j : Nat, e + k = -j := ⟨(-(e + k)).toNat, by omega⟩
  have one : ((2 ^ j : Nat) : ℚ) * 2 ^ (e + k) = 1 := by
    rw [whole, zpow_neg, zpow_natCast, Nat.cast_pow, Nat.cast_ofNat,
      mul_inv_cancel₀ (pow_ne_zero _ two_ne_zero)]
  have unit := two_zpow_pos (e + k)
  have scaled : (m / 2 ^ k : ℚ) ≤ (2 ^ j : Nat) := by
    refine le_of_mul_le_mul_right (le_trans (le_of_eq ?_) (le.trans_eq one.symm)) unit
    rw [add_comm, two_zpow_add, zpow_natCast, ← mul_assoc,
      div_mul_cancel₀ _ (pow_ne_zero k two_ne_zero)]
  have rounded := roundEven_mono (div_nonneg m.cast_nonneg (pow_nonneg zero_le_two k)) scaled
  rw [roundEven_natCast] at rounded
  rw [((describes_exact m).shiftRight k).roundedMantissa_eq, ← one]
  exact mul_le_mul_of_nonneg_right (Nat.cast_le.2 rounded) unit.le

/-- A number that is at most 1 has its first digit at the units or below. -/
theorem log2_add_le (pos : 0 < m) (le : (m * 2 ^ e : ℚ) ≤ 1) : m.log2 + e ≤ 0 := by
  have first : (2 ^ m.log2 : ℚ) ≤ m := by exact_mod_cast Nat.log2_self_le (Nat.ne_of_gt pos)
  have power : (2 : ℚ) ^ (m.log2 + e) ≤ 2 ^ (0 : ℤ) := by
    rw [two_zpow_add, zpow_natCast, zpow_zero]
    exact (mul_le_mul_of_nonneg_right first (two_zpow_pos e).le).trans le
  exact (zpow_le_zpow_iff_right₀ one_lt_two).1 power

/-- Rounding to single precision does not step over 1. -/
theorem upToOne_round (pos : 0 < m) (le : (m * 2 ^ e : ℚ) ≤ 1) :
    UpToOne (round .binary32 .positive m e) := by
  obtain ⟨s, lower⟩ : ∃ s : Nat, s = (e - Format.binary32.targetExponent
    (totalExponent m e)).toNat := ⟨_, rfl⟩
  have longer : 0 < m * 2 ^ s := Nat.mul_pos pos (Nat.two_pow_pos s)
  have same := mul_two_pow_mul m s e
  obtain ⟨k, places⟩ : ∃ k : Nat, k = (Format.binary32.targetExponent
    (totalExponent (m * 2 ^ s) (e - s)) - (e - s)).toNat := ⟨_, rfl⟩
  have units := log2_add_le longer (same.trans_le le)
  have target : Format.binary32.targetExponent (totalExponent (m * 2 ^ s) (e - s)) ≤ 0 := by
    change max (((m * 2 ^ s).log2 : Int) + 1 + (e - s) - 24) (-149) ≤ 0
    omega
  have rounded := roundedMantissa_shiftRight_mul_le (k := k) (same.trans_le le) (by omega)
  simp only [UnpackedFloat.round, decreaseExponent, ← lower, Nat.shiftLeft_eq, roundWithAccuracy,
    shiftToTargetExponent, shiftToExponent, ← places]
  -- the second shift only takes digits away, if it takes any
  split_ifs
  · exact .zero _
  · exact .finite ((mantissa_shiftRight_mul_le _ _ _ _).trans rounded)

end Rounding

section Stored

/-- What is stored for a number that is at most 1: zero, or an exponent below that of 1, or 1. -/
inductive StoredUpToOne : UnpackedFloat → Prop
  | zero (s : Sign) : StoredUpToOne (.zero s)
  | below {m : Nat} {e : Int} {pos : 0 < m} (less : e < -23) :
    StoredUpToOne (.finite .positive m e pos)
  | one {m : Nat} {pos : 0 < m} (full : m = 2 ^ 23) : StoredUpToOne (.finite .positive m (-23) pos)

/-- The exponent of 1 is stored as 127. -/
theorem storedUpToOne_unpack {b : BitVec Format.binary32.exponentBits}
    {f : BitVec Format.binary32.mantissaBitsWithoutImplicit}
    (few : b.toNat < 127 ∨ b.toNat = 127 ∧ f = 0#_) :
    StoredUpToOne (UnpackedFloat.unpack .binary32 (packComponents .binary32 .positive b f)) := by
  have notMost : b ≠ -1#_ := fun most => by
    have largest : b.toNat = 255 := congrArg BitVec.toNat most
    omega
  have bias : Format.binary32.exponentBias = 127 := rfl
  unfold UnpackedFloat.unpack
  simp only [unpackExponent_packComponents, unpackMantissa_packComponents,
    unpackSign_packComponents, ofBitVec_toBitVec, bias]
  rw [if_neg notMost]
  split_ifs with least none
  · exact .zero _
  · rw [least]
    exact .below (by decide)
  · rcases few with less | ⟨same, none⟩
    · exact .below (by omega)
    · have exponent : (b.toNat : Int) - (127 + 23) = -23 := by omega
      have full : (1#1 ++ f).toNat = 2 ^ 23 := by
        rw [none]
        rfl
      simp only [Nat.cast_ofNat, exponent]
      exact .one full

/-- A number in single precision from 0 to 1. -/
structure InUnit32 (x : Float32) : Prop where
  number : x.isNaN = false
  finite : x.isFinite = true
  nonneg : 0 ≤ x
  le_one : x ≤ 1

theorem StoredUpToOne.inUnit32 {x : Float32} (h : StoredUpToOne x.toModel.unpack) : InUnit32 x := by
  have tests : x.toModel.unpack.isNaN = false ∧ x.toModel.unpack.isFinite = true ∧
      (UnpackedFloat.zero .positive).le x.toModel.unpack = true ∧
      x.toModel.unpack.le (.finite .positive (2 ^ 23) (-23) (Nat.two_pow_pos 23)) = true := by
    generalize x.toModel.unpack = a at h
    cases h with
    | zero s => exact ⟨rfl, rfl, rfl, rfl⟩
    | @below m e pos less =>
      refine ⟨rfl, rfl, rfl, ?_⟩
      change ((compare e (-23)).then (compare m (2 ^ 23))).isLE = true
      rw [compare_lt_iff_lt.2 less]
      rfl
    | one full =>
      subst full
      exact ⟨rfl, rfl, rfl, rfl⟩
  obtain ⟨number, finite, nonneg, le_one⟩ := tests
  exact ⟨number, finite, decide_eq_true nonneg, decide_eq_true le_one⟩

/-- Storing what is at most 1. -/
theorem UpToOne.inUnit32 {a : UnpackedFloat} (h : UpToOne a) : InUnit32 (.ofModel (.pack a)) := by
  apply StoredUpToOne.inUnit32
  change StoredUpToOne (UnpackedFloat.unpack .binary32 (UnpackedFloat.pack .binary32 a))
  cases h with
  | zero s => cases s <;> exact .zero _
  | @finite m e pos le =>
    have units := log2_add_le pos le
    have bias : Format.binary32.exponentBias = 127 := rfl
    have width : Format.binary32.mantissaBits = 24 := rfl
    rw [UnpackedFloat.pack]
    dsimp only
    rw [bias, width, if_neg (by omega)]
    split_ifs with full
    · refine storedUpToOne_unpack ?_
      have room : (e + 127 + 23).toNat < 2 ^ 8 := by omega
      rw [BitVec.toNat_ofNat, Nat.cast_ofNat, Nat.cast_ofNat, Nat.mod_eq_of_lt room]
      rcases (show e ≤ -23 by omega).lt_or_eq with less | rfl
      · exact .inl (by omega)
      · have least : 2 ^ 23 ≤ m := (Nat.le_log2 (Nat.ne_of_gt pos)).1 (by omega)
        have most : (m : ℚ) ≤ (2 ^ 23 : Nat) := by
          rw [zpow_neg, ← div_eq_mul_inv, div_le_one (two_zpow_pos _)] at le
          exact_mod_cast le
        obtain rfl : m = 2 ^ 23 := le_antisymm (Nat.cast_le.1 most) least
        exact .inr ⟨rfl, rfl⟩
    · exact storedUpToOne_unpack (.inl (by decide))

end Stored

/-- A number of the unit interval stays there. -/
theorem InUnit.narrow {x : Float} (h : InUnit x) : InUnit32 (narrow x) := by
  obtain ⟨v, h, le⟩ := h
  unfold Binary64.narrow
  rcases h.zero_or_finite with ⟨s, read, -⟩ | ⟨m, e, pos, read, -, rfl⟩
  · rw [read]
    exact (UpToOne.zero s).inUnit32
  · rw [read]
    exact (upToOne_round pos le).inUnit32

end DomainColoring.Binary64
