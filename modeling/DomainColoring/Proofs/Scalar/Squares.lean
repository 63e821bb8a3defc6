import DomainColoring.Proofs.Scalar.Signed

/-!
# Squares and sums of squares

The square of a number of either sign is the exact one rounded once. It is zero as soon as the exact one
is at most half the least positive number (`stored_eq_zero_iff`), and a sum of squares is zero only if
both are (`sum_mul_self_beq_zero_iff`).
-/

namespace DomainColoring.Binary64

open Float.Model (UnpackedFloat)
open Float.Model.UnpackedFloat

section Underflow

variable {x : ℚ}

/-- Up to half the least positive number, and a tie goes to zero, which is even. -/
theorem rounded_eq_zero_iff (nonneg : 0 ≤ x) : rounded x = 0 ↔ x ≤ 2 ^ (-1075 : ℤ) := by
  have half : (1 / 2 * 2 ^ (-1074 : ℤ) : ℚ) = 2 ^ (-1075 : ℤ) := by
    rw [show (-1075 : ℤ) = -1 + -1074 by norm_num, two_zpow_add]
    norm_num
  have places : rounded x = 0 ↔ x / 2 ^ lastPlace x ≤ 1 / 2 := by
    rw [rounded, mul_eq_zero, or_iff_left (two_zpow_pos _).ne', Nat.cast_eq_zero, ← Nat.lt_one_iff,
      ← not_le, le_roundEven_iff (div_lastPlace_nonneg nonneg)]
    constructor
    · intro few
      by_contra many
      exact few (.inl (by push_cast; linarith))
    · rintro few (many | ⟨-, even⟩)
      · push_cast at many
        linarith
      · cases even
  rcases nonneg.eq_or_lt with rfl | pos
  · exact iff_of_true rounded_zero (two_zpow_pos _).le
  rcases (neg_le_lastPlace x).eq_or_lt with lowest | above
  · rw [places, ← lowest, div_le_iff₀ (two_zpow_pos _), half]
  · -- a number that is not among the smallest keeps 53 places
    refine iff_of_false (fun none => ?_) (fun small => ?_)
    · have long := (le_div_lastPlace pos above).trans (places.1 none)
      norm_num at long
    · have lower := lastPlace_le_of_le pos small
      have log : Int.log 2 ((2 : ℚ) ^ (-1075 : ℤ)) = -1075 := Int.log_zpow one_lt_two _
      rw [lastPlace, lastPlace, log] at lower
      rw [lastPlace] at above
      omega

theorem stored_eq_zero_iff (nonneg : 0 ≤ x) : stored x = (0 : ℚ) ↔ x ≤ 2 ^ (-1075 : ℤ) := by
  rw [← rounded_eq_zero_iff nonneg, stored]
  split_ifs with small
  · exact WithTop.coe_inj
  · exact iff_of_false WithTop.top_ne_coe fun zero => small (zero ▸ two_zpow_pos _)

end Underflow

section Operations

variable {x y : Float} {v w : ℚ}

theorem exactValue_neg_mul_neg (x : Float) : exactValue (-x * -x) = exactValue (x * x) := by
  change (Float.Model.pack (mul .binary64 (exactValue (-x)) (exactValue (-x)))).unpack =
    (Float.Model.pack (mul .binary64 (exactValue x) (exactValue x))).unpack
  rw [exactValue_neg]
  cases exactValue x with
  | notANumber => rfl
  | infinity s => cases s <;> rfl
  | zero s => cases s <;> rfl
  | finite s => cases s <;> rfl

/-- The square of a number of either sign. -/
theorem hasValue_mul_self (h : HasSigned (exactValue x) v) :
    HasValue (exactValue (x * x)) (stored (v * v)) := by
  have square {z : Float} {u : ℚ} (hz : HasValue (exactValue z) u) :
      HasValue (exactValue (z * z)) (stored (u * u)) := by
    rcases hz.coe_nonneg.eq_or_lt with rfl | pos
    · rw [mul_zero, stored_zero]
      exact hasValue_mul_zero hz hz
    · exact hasValue_mul pos.le pos hz hz
  rcases le_total 0 v with nonneg | nonpos
  · exact square (h.hasValue nonneg)
  · rw [← exactValue_neg_mul_neg, ← neg_mul_neg v v]
    exact square (h.opposite.hasValue (neg_nonneg.2 nonpos))

/-- What is infinite stays so when something that is not below zero is added on either side. -/
theorem HasValue.add_infinity {a : UnpackedFloat} {u : WithTop ℚ} (h : HasValue a u) :
    add .binary64 a (.infinity .positive) = .infinity .positive ∧
      add .binary64 (.infinity .positive) a = .infinity .positive := by
  cases h <;> exact ⟨rfl, rfl⟩

/-- A sum of numbers that are not below zero is at least each of them; one of them may be infinite. -/
theorem exists_hasValue_add {v w : WithTop ℚ} (hx : HasValue (exactValue x) v)
    (hy : HasValue (exactValue y) w) :
    ∃ s, HasValue (exactValue (x + y)) s ∧ v ≤ s ∧ w ≤ s ∧ (v = (0 : ℚ) → w = (0 : ℚ) → s = (0 : ℚ)) := by
  have infinite : HasValue (Float.Model.pack (.infinity .positive)).unpack ⊤ := .infinity
  change ∃ s, HasValue (Float.Model.pack (add .binary64 (exactValue x) (exactValue y))).unpack s ∧ _
  cases v with
  | top =>
    refine ⟨⊤, ?_, le_top, le_top, fun zero => absurd zero WithTop.top_ne_coe⟩
    rwa [hx.eq_infinity, hy.add_infinity.2]
  | coe v =>
    cases w with
    | top =>
      refine ⟨⊤, ?_, le_top, le_top, fun _ zero => absurd zero WithTop.top_ne_coe⟩
      rwa [hy.eq_infinity, hx.add_infinity.1]
    | coe w =>
      have nonneg := hx.coe_nonneg
      have nonneg' := hy.coe_nonneg
      refine ⟨stored (v + w), hx.signed.hasValue_add hy.signed (by linarith), ?_, ?_, ?_⟩
      · exact (stored_of_hasValue hx).ge.trans (stored_mono nonneg (by linarith))
      · exact (stored_of_hasValue hy).ge.trans (stored_mono nonneg' (by linarith))
      · intro first second
        rw [WithTop.coe_inj.1 first, WithTop.coe_inj.1 second, add_zero, stored_zero]

/-- A sum of squares is zero if both squares are rounded to zero, and only then. -/
theorem sum_mul_self_beq_zero_iff (hx : HasSigned (exactValue x) v) (hy : HasSigned (exactValue y) w) :
    (x * x + y * y == 0) = true ↔ v * v ≤ 2 ^ (-1075 : ℤ) ∧ w * w ≤ 2 ^ (-1075 : ℤ) := by
  have first := hasValue_mul_self hx
  have second := hasValue_mul_self hy
  obtain ⟨s, sum, leX, leY, zero⟩ := exists_hasValue_add first second
  rw [beq_iff_of_hasValue sum hasValue_zero, ← stored_eq_zero_iff (mul_self_nonneg v),
    ← stored_eq_zero_iff (mul_self_nonneg w)]
  constructor
  · rintro rfl
    exact ⟨le_antisymm leX first.nonneg, le_antisymm leY second.nonneg⟩
  · rintro ⟨none, none'⟩
    exact zero none none'

end Operations

end DomainColoring.Binary64
