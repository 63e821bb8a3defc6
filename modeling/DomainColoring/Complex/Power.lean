import DomainColoring.Complex

/-!
# Powers by machine integers

The power whose exponent is a 32-bit integer, by a loop over the binary digits of its magnitude. The
magnitude is a word of its own, so that the least integer has one too. The loop multiplies in the same
order as `powInt`, so the two agree on every type of scalars, whatever its arithmetic
(`powInt32_eq_powInt`).
-/

namespace DomainColoring.Complex

variable {α : Type} [Scalar α]

theorem toNat_half_lt {k : UInt32} (some : 0 < k) : (k >>> 1).toNat < k.toNat := by
  have pos : 0 < k.toNat := UInt32.lt_iff_toNat_lt.1 some
  have half : (k >>> 1).toNat = k.toNat / 2 := UInt32.toNat_shiftRight k 1
  omega

/-- Multiplies `acc` by the `k`-th power of `base`, one binary digit of `k` after the other. -/
def powDigits (acc base : Complex α) (k : UInt32) : Complex α :=
  if 0 < k then
    powDigits (if k &&& 1 = 1 then acc * base else acc) (base * base) (k >>> 1)
  else acc
termination_by k.toNat
decreasing_by exact toNat_half_lt ‹0 < k›

/-- A negative power is the reciprocal of the positive one. -/
def powInt32 (a : Complex α) (n : Int32) : Complex α :=
  let power := powDigits one a n.abs.toUInt32
  if n < 0 then one / power else power

theorem powDigits_eq_powAcc (acc base : Complex α) (k : UInt32) :
    powDigits acc base k = powAcc acc base k.toNat := by
  fun_induction powDigits acc base k with
  | case1 acc base k some ih =>
    have pos : k.toNat ≠ 0 := Nat.ne_of_gt (UInt32.lt_iff_toNat_lt.1 some)
    have half : (k >>> 1).toNat = k.toNat / 2 := UInt32.toNat_shiftRight k 1
    have odd : k &&& 1 = 1 ↔ k.toNat % 2 = 1 := by
      rw [← UInt32.toNat_inj, UInt32.toNat_and, ← Nat.and_one_is_mod]
      rfl
    simp only [dite_eq_ite] at ih
    rw [ih, half, powAcc.eq_1 acc, if_neg pos]
    simp only [odd]
  | case2 acc base k none =>
    have zero : k.toNat = 0 := by
      have := mt UInt32.lt_iff_toNat_lt.2 none
      simpa using this
    rw [powAcc, if_pos zero]

/-- The magnitude of a machine integer, also of the least one. -/
theorem toNat_abs_eq_natAbs (n : Int32) : n.abs.toUInt32.toNat = n.toInt.natAbs := by
  have word : n.toBitVec.toNat < 2 ^ 32 := n.toBitVec.isLt
  change n.toBitVec.abs.toNat = n.toBitVec.toInt.natAbs
  rw [BitVec.toNat_abs, BitVec.toInt_eq_msb_cond]
  by_cases below : n.toBitVec.msb = true
  · rw [if_pos below, if_pos below]
    omega
  · rw [if_neg below, if_neg below]
    omega

/-- On machine integers the two powers are the same products and quotients. -/
theorem powInt32_eq_powInt (a : Complex α) (n : Int32) : a.powInt32 n = a.powInt n.toInt := by
  have negative : n < 0 ↔ n.toInt < 0 := Int32.lt_iff_toInt_lt
  unfold powInt32 powInt
  rw [powDigits_eq_powAcc, toNat_abs_eq_natAbs]
  simp only [negative]

end DomainColoring.Complex
