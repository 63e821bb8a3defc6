import DomainColoring.Scalar.Binary64
import Mathlib

/-!
# Canonical significands and exponents

A positive machine number is `m · 2 ^ e` in many ways; taking the number apart gives the one whose
exponent is as low as the format allows (`canonical_of_unpack`). Putting the parts together again
gives the number back (`pack_unpack`), and a result that is exact but written with a lower exponent
is rounded to its canonical form (`round_of_canonical`).
-/

namespace DomainColoring.Binary64

open Float.Model (Format UnpackedFloat totalExponent)
open Float.Model.UnpackedFloat

/-- The significand `m` and the exponent `e` are those of a machine number. -/
structure Canonical (m : Nat) (e : Int) : Prop where
  target : Format.binary64.targetExponent (totalExponent m e) = e
  le : e ≤ 971

theorem targetExponent_eq (t : Int) : Format.binary64.targetExponent t = max (t - 53) (-1074) :=
  rfl

theorem mantissaBits_eq : Format.binary64.mantissaBits = 53 := rfl

theorem exponentBias_eq : Format.binary64.exponentBias = 1023 := rfl

section Bits

theorem toBitVec_ofBitVec (b : BitVec 1) : (Sign.ofBitVec b).toBitVec = b := by
  revert b
  decide

theorem ofBitVec_toBitVec (s : Sign) : Sign.ofBitVec s.toBitVec = s := by
  cases s <;> rfl

/-- The sign, the exponent and the significand are all the bits there are. -/
theorem packComponents_unpack (b : BitVec Format.binary64.numBits) :
    packComponents .binary64 (Sign.ofBitVec (unpackSign b)) (unpackExponent b) (unpackMantissa b) =
      b := by
  rw [packComponents, toBitVec_ofBitVec]
  apply BitVec.eq_of_getLsbD_eq
  intro i bound
  have bound : i < 64 := bound
  simp only [unpackSign, unpackExponent, unpackMantissa, BitVec.getLsbD_append,
    BitVec.getLsbD_cast, BitVec.getLsbD_extractLsb]
  by_cases low : i < 52
  · simp [low]
  by_cases middle : i - 52 < 11
  · have same : 52 + (i - 52) = i := by omega
    simp [low, middle, same]
  · obtain rfl : i = 63 := by omega
    simp only [low, middle]
    rfl

theorem unpackSign_packComponents {spec : Format} (s : Sign) (e : BitVec spec.exponentBits)
    (m : BitVec spec.mantissaBitsWithoutImplicit) :
    unpackSign (packComponents spec s e m) = s.toBitVec := by
  apply BitVec.eq_of_getLsbD_eq
  intro i bound
  obtain rfl : i = 0 := by omega
  simp only [unpackSign, packComponents, BitVec.getLsbD_cast, BitVec.getLsbD_extractLsb,
    BitVec.getLsbD_append]
  simp

/-- The bit that a normal number does not store. -/
theorem toNat_full (m : BitVec 52) : (1#1 ++ m).toNat = 2 ^ 52 + m.toNat := by
  rw [BitVec.toNat_append, Nat.shiftLeft_eq]
  exact (Nat.two_pow_add_eq_or_of_lt m.isLt 1).symm

end Bits

theorem log2_full {m : Nat} (low : 2 ^ 52 ≤ m) (high : m < 2 ^ 53) : m.log2 = 52 :=
  (Nat.log2_eq_iff (by omega)).2 ⟨low, high⟩

theorem canonical_of_normal {m : Nat} {e : Int} (low : 2 ^ 52 ≤ m) (high : m < 2 ^ 53)
    (least : -1074 ≤ e) (most : e ≤ 971) : Canonical m e := by
  refine ⟨?_, most⟩
  rw [targetExponent_eq, totalExponent, log2_full low high]
  omega

theorem canonical_of_subnormal {m : Nat} (pos : 0 < m) (high : m < 2 ^ 52) :
    Canonical m (-1074) := by
  have short : m.log2 < 52 := (Nat.log2_lt (by omega)).2 high
  refine ⟨?_, by omega⟩
  rw [targetExponent_eq, totalExponent]
  omega

/-- What a machine number comes apart into, with the bits that say so. -/
inductive Parts (b : BitVec Format.binary64.numBits) : UnpackedFloat → Prop
  | infinity (exponent : unpackExponent b = -1#_) (mantissa : unpackMantissa b = 0#_) :
    Parts b (.infinity (Sign.ofBitVec (unpackSign b)))
  | notANumber (exponent : unpackExponent b = -1#_) (mantissa : unpackMantissa b ≠ 0#_) :
    Parts b .notANumber
  | zero (exponent : unpackExponent b = 0#_) (mantissa : unpackMantissa b = 0#_) :
    Parts b (.zero (Sign.ofBitVec (unpackSign b)))
  | subnormal {m : Nat} {e : Int} {pos : 0 < m} (exponent : unpackExponent b = 0#_)
      (mantissa : unpackMantissa b = BitVec.ofNat _ m) (high : m < 2 ^ 52) (least : e = -1074) :
    Parts b (.finite (Sign.ofBitVec (unpackSign b)) m e pos)
  | normal {m n : Nat} {e : Int} {pos : 0 < m} (exponent : unpackExponent b = BitVec.ofNat _ n)
      (mantissa : unpackMantissa b = BitVec.ofNat _ m) (low : 2 ^ 52 ≤ m) (high : m < 2 ^ 53)
      (least : 1 ≤ n) (most : n ≤ 2046) (biased : e = n - 1075) :
    Parts b (.finite (Sign.ofBitVec (unpackSign b)) m e pos)

theorem parts_unpack (b : BitVec Format.binary64.numBits) :
    Parts b (Float.Model.UnpackedFloat.unpack .binary64 b) := by
  have mantissa : (unpackMantissa b).toNat < 2 ^ 52 := (unpackMantissa b).isLt
  have exponent : (unpackExponent b).toNat < 2 ^ 11 := (unpackExponent b).isLt
  unfold Float.Model.UnpackedFloat.unpack
  dsimp only
  split
  · next full =>
    split
    · next zero => exact .infinity full zero
    · next some => exact .notANumber full some
  split
  · next empty =>
    split
    · next zero => exact .zero empty zero
    · have none : (unpackExponent b).toNat = 0 := by rw [empty]; rfl
      refine .subnormal empty (by simp) mantissa ?_
      rw [none, exponentBias_eq]
      rfl
  · next notFull notEmpty =>
    have notMost : (unpackExponent b).toNat ≠ 2047 := fun same =>
      notFull (BitVec.eq_of_toNat_eq same)
    have notLeast : (unpackExponent b).toNat ≠ 0 := fun same =>
      notEmpty (BitVec.eq_of_toNat_eq same)
    have full : (1#1 ++ unpackMantissa b).toNat = 2 ^ 52 + (unpackMantissa b).toNat :=
      toNat_full (unpackMantissa b)
    refine .normal (n := (unpackExponent b).toNat) (by simp) ?_ (by omega) (by omega) (by omega)
      (by omega) (by rw [exponentBias_eq]; omega)
    apply BitVec.eq_of_toNat_eq
    rw [BitVec.toNat_ofNat, full, Nat.add_mod_left, Nat.mod_eq_of_lt mantissa]

/-- A machine number comes apart into a canonical significand and exponent. -/
theorem canonical_of_unpack {x : Float.Model} {s : Sign} {m : Nat} {e : Int} {pos : 0 < m}
    (h : x.unpack = .finite s m e pos) : Canonical m e := by
  have parts : Parts x.toBits.toBitVec x.unpack := parts_unpack x.toBits.toBitVec
  rw [h] at parts
  cases parts with
  | subnormal _ _ high least =>
    rw [least]
    exact canonical_of_subnormal pos high
  | normal _ _ low high least most biased =>
    exact canonical_of_normal low high (by omega) (by omega)

/-- Putting together what a machine number comes apart into gives the number back. -/
theorem pack_unpack (x : Float.Model) : Float.Model.pack x.unpack = x := by
  obtain ⟨bits, valid⟩ := x
  suffices same : Float.Model.UnpackedFloat.pack .binary64
      (Float.Model.UnpackedFloat.unpack .binary64 bits.toBitVec) = bits.toBitVec by
    simp only [Float.Model.pack, Float.Model.unpack, same]
  -- packing writes the same three fields, once it has told which class the number is of
  have parts := parts_unpack bits.toBitVec
  have together := packComponents_unpack bits.toBitVec
  generalize Float.Model.UnpackedFloat.unpack .binary64 bits.toBitVec = u at parts
  cases parts with
  | infinity exponent mantissa => rwa [exponent, mantissa] at together
  | notANumber exponent mantissa => exact (valid.eq_packedNaN exponent mantissa).symm
  | zero exponent mantissa => rwa [exponent, mantissa] at together
  | @subnormal m e pos exponent mantissa high least =>
    have short : m.log2 < 52 := (Nat.log2_lt (by omega)).2 high
    have width : ¬ m.log2 + 1 = Format.binary64.mantissaBits := by
      rw [mantissaBits_eq]
      omega
    rw [exponent, mantissa] at together
    subst least
    rw [Float.Model.UnpackedFloat.pack]
    dsimp only
    rw [if_neg (by decide), if_neg width]
    exact together
  | @normal m n e pos exponent mantissa low high least most biased =>
    have width : m.log2 + 1 = Format.binary64.mantissaBits := by
      rw [mantissaBits_eq, log2_full low high]
    have stored : (e + Format.binary64.exponentBias + (52 : Nat)).toNat = n := by
      rw [biased, exponentBias_eq]
      omega
    rw [exponent, mantissa] at together
    rw [Float.Model.UnpackedFloat.pack]
    dsimp only
    rw [stored, if_neg (by omega), if_pos width]
    exact together

section Rounding

open ExtendedMantissa

theorem shiftRightOne_double (m : Nat) :
    shiftRightOne ⟨m * 2, false, false⟩ = ⟨m, false, false⟩ := by
  simp [shiftRightOne]

/-- Digits that are all zero are shifted out without a trace. -/
theorem shiftRight_exact (m k : Nat) :
    (⟨m * 2 ^ k, false, false⟩ : ExtendedMantissa) >>> k = ⟨m, false, false⟩ := by
  change Nat.repeat shiftRightOne k ⟨m * 2 ^ k, false, false⟩ = _
  induction k generalizing m with
  | zero => simp [Nat.repeat]
  | succ k ih =>
    have split : m * 2 ^ (k + 1) = m * 2 * 2 ^ k := by ring
    rw [Nat.repeat, split, ih (m * 2), shiftRightOne_double]

theorem log2_mul_two_pow {m : Nat} (pos : 0 < m) (k : Nat) : (m * 2 ^ k).log2 = m.log2 + k := by
  induction k with
  | zero => simp
  | succ k ih =>
    have split : m * 2 ^ (k + 1) = 2 * (m * 2 ^ k) := by ring
    have some : m * 2 ^ k ≠ 0 := Nat.ne_of_gt (Nat.mul_pos pos (Nat.two_pow_pos k))
    rw [split, Nat.log2_two_mul some, ih]
    rfl

theorem shiftToTargetExponent_of_canonical {m : Nat} {e : Int} (pos : 0 < m) (h : Canonical m e)
    (k : Nat) :
    shiftToTargetExponent .binary64 (m * 2 ^ k) (e - k) .exact = (⟨m, false, false⟩, e) := by
  have same : totalExponent (m * 2 ^ k) (e - k) = totalExponent m e := by
    simp only [totalExponent, log2_mul_two_pow pos]
    omega
  have amount : (e - (e - k)).toNat = k := by omega
  simp only [shiftToTargetExponent, shiftToExponent, same, h.target, amount, ofMantissaAndAccuracy,
    shiftRight_exact]
  simp

/-- An exact result is rounded to its canonical form, however low the exponent it is given with. -/
theorem round_of_canonical {m : Nat} {e : Int} (s : Sign) (pos : 0 < m) (h : Canonical m e)
    (k : Nat) :
    roundWithAccuracy .binary64 s (m * 2 ^ k) (e - k) .exact = .finite s m e pos := by
  have again := shiftToTargetExponent_of_canonical pos h 0
  simp only [Nat.pow_zero, Nat.mul_one, Nat.cast_zero, sub_zero] at again
  have rounded : roundedMantissa ⟨m, false, false⟩ = m := rfl
  simp only [roundWithAccuracy, shiftToTargetExponent_of_canonical pos h k, rounded, again]
  rw [dif_neg (Nat.ne_of_gt pos)]

end Rounding

end DomainColoring.Binary64
