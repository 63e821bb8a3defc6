import DomainColoring.Scalar
import Mathlib.Algebra.Order.Floor.Ring
import Mathlib.Data.Rat.Floor
import Mathlib.Tactic.Linarith

/-!
# Exact arithmetic

The rational numbers as scalars. Nothing is rounded and nothing overflows: every number is finite, and
every positive one is a scale. What is computed with machine numbers elsewhere is computed here
without error.
-/

namespace DomainColoring.Scalar

/-- An ordered field as scalars. -/
abbrev ofField (K : Type) [Field K] [LinearOrder K] [FloorRing K] : Scalar K where
  toAdd := inferInstance
  toSub := inferInstance
  toMul := inferInstance
  toDiv := inferInstance
  toNeg := inferInstance
  toBEq := instBEqOfDecidableEq
  toLT := inferInstance
  toLE := inferInstance
  decidableLT := inferInstance
  decidableLE := inferInstance
  ofNat n := n
  undefined := 0
  isNaN _ := false
  isFinite _ := true
  isScale x := decide (0 < x)
  trunc x := if x < 0 then ⌈x⌉ else ⌊x⌋
  floorNat x := ⌊x⌋₊
  ceilNat x := ⌈x⌉₊

section Field

variable {K : Type} [Field K] [LinearOrder K] [FloorRing K]

theorem fract_ofField {x : K} (nonneg : 0 ≤ x) : @fract K (ofField K) x = Int.fract x := by
  change x - (if x < 0 then (⌈x⌉ : K) else ⌊x⌋) = _
  rw [if_neg nonneg.not_gt, Int.self_sub_floor]

/-- The position within the unit interval, also of a number below zero. -/
theorem wrap_ofField [IsStrictOrderedRing K] (x : K) : @wrap K (ofField K) x = Int.fract x := by
  have unfolded : @wrap K (ofField K) x =
      let r := x - (if x < 0 then (⌈x⌉ : K) else ⌊x⌋)
      if r < ((0 : Nat) : K) then r + ((1 : Nat) : K) else r := rfl
  rw [unfolded]
  dsimp only
  rw [Nat.cast_zero, Nat.cast_one]
  by_cases negative : x < 0
  · have above : (⌈x⌉ : K) < x + 1 := Int.ceil_lt_add_one x
    rw [if_pos negative, eq_comm]
    split_ifs with below
    · exact Int.fract_eq_iff.2 ⟨by linarith, by linarith, ⌈x⌉ - 1, by push_cast; ring⟩
    · have least := Int.le_ceil x
      exact Int.fract_eq_iff.2 ⟨by linarith, by linarith, ⌈x⌉, by ring⟩
  · rw [if_neg negative, Int.self_sub_floor, if_neg (Int.fract_nonneg x).not_gt]

theorem unit_ofField [IsStrictOrderedRing K] (x : K) : @unit K (ofField K) x = max 0 (min x 1) := by
  have unfolded : @unit K (ofField K) x =
      if x < ((0 : Nat) : K) then ((0 : Nat) : K)
      else if ((1 : Nat) : K) < x then ((1 : Nat) : K) else x := rfl
  rw [unfolded, Nat.cast_zero, Nat.cast_one]
  split_ifs with below above
  · rw [max_eq_left ((min_le_left x 1).trans below.le)]
  · rw [min_eq_right above.le, max_eq_right zero_le_one]
  · rw [min_eq_left (not_lt.1 above), max_eq_right (not_lt.1 below)]

/-- A number without a part behind the point is an integer. -/
theorem exists_intCast_of_fract {x : K} (whole : @fract K (ofField K) x = 0) : ∃ n : ℤ, x = n := by
  have whole : x - (if x < 0 then (⌈x⌉ : K) else ⌊x⌋) = 0 := whole
  split_ifs at whole
  · exact ⟨⌈x⌉, sub_eq_zero.1 whole⟩
  · exact ⟨⌊x⌋, sub_eq_zero.1 whole⟩

theorem fract_intCast [IsStrictOrderedRing K] (n : ℤ) : @fract K (ofField K) n = 0 := by
  change (n : K) - (if (n : K) < 0 then (⌈(n : K)⌉ : K) else ⌊(n : K)⌋) = 0
  rw [Int.ceil_intCast, Int.floor_intCast, ite_self, sub_self]

theorem toInt_intCast [IsStrictOrderedRing K] (n : ℤ) : @toInt K (ofField K) n = n := by
  have unfolded : @toInt K (ofField K) n =
      if (n : K) < ((0 : Nat) : K) then -(⌊-(n : K)⌋₊ : ℤ) else ⌊(n : K)⌋₊ := rfl
  rw [unfolded, Nat.cast_zero, ← Int.cast_neg, ← Int.floor_toNat, ← Int.floor_toNat, Int.floor_intCast,
    Int.floor_intCast]
  split_ifs with below
  · have below : n < 0 := Int.cast_lt_zero.1 below
    omega
  · have nonneg : 0 ≤ n := by exact_mod_cast not_lt.1 below
    omega

end Field

instance : Scalar ℚ := ofField ℚ

@[simp]
theorem isFinite_rat (x : ℚ) : isFinite x = true := rfl

@[simp]
theorem isScale_rat (x : ℚ) : isScale x = true ↔ 0 < x := decide_eq_true_iff

@[simp]
theorem ofNat_rat (n : Nat) : (ofNat n : ℚ) = n := rfl

end DomainColoring.Scalar
