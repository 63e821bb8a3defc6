import DomainColoring.Proofs.Scalar.Squares

/-!
# Square roots and lengths

The square root of a machine number is computed from a whole root, with two bits that say what it leaves
out. No rational number is the exact root, but one between the whole root and the next has the same bits, so
the result is that number rounded (`hasValue_sqrt`). In particular the root of a positive number is finite
and far above zero (`exists_hasValue_sqrt`). The length of a vector does not depend on the signs of zeros.
-/

namespace DomainColoring.Binary64

open Float.Model (Format UnpackedFloat totalExponent)
open Float.Model.UnpackedFloat

/-- What a whole root leaves out. -/
def rootAccuracy (M : Nat) : Accuracy :=
  if M - M.sqrt * M.sqrt = 0 then .exact
  else .inexact (if M - M.sqrt * M.sqrt ≤ M.sqrt then .lt else .gt)

/-- What the accuracy of a whole root says is said of a number between it and the next. -/
theorem exists_describes_sqrt (M : Nat) :
    ∃ y : ℚ, Describes (ExtendedMantissa.ofMantissaAndAccuracy M.sqrt (rootAccuracy M)) y ∧
      (M.sqrt : ℚ) ≤ y ∧ y < M.sqrt + 1 := by
  unfold rootAccuracy
  split_ifs with exact low
  · exact ⟨M.sqrt, describes_exact _, le_rfl, by linarith⟩
  · exact ⟨M.sqrt + 1 / 4, ⟨1 / 4, by simp [ExtendedMantissa.ofMantissaAndAccuracy], by norm_num,
      by norm_num, by simp [ExtendedMantissa.ofMantissaAndAccuracy]⟩, by linarith, by linarith⟩
  · exact ⟨M.sqrt + 3 / 4, ⟨1 / 4, by simp only [ExtendedMantissa.ofMantissaAndAccuracy, if_true]; ring,
      by norm_num, by norm_num, by simp [ExtendedMantissa.ofMantissaAndAccuracy]⟩, by linarith, by linarith⟩

/-- A number between the whole root and the next has a square within a factor of four. -/
theorem mul_self_bounds_of_sqrt {M : Nat} {y : ℚ} (some : 0 < M) (low : (M.sqrt : ℚ) ≤ y)
    (high : y < M.sqrt + 1) : 0 < y ∧ (M : ℚ) ≤ 4 * (y * y) ∧ y * y ≤ 4 * M := by
  have least : (1 : ℚ) ≤ M.sqrt := by exact_mod_cast Nat.sqrt_pos.2 some
  have above : (M : ℚ) < (M.sqrt + 1) * (M.sqrt + 1) := by exact_mod_cast Nat.lt_succ_sqrt M
  have below : (M.sqrt * M.sqrt : ℚ) ≤ M := by exact_mod_cast Nat.sqrt_le M
  refine ⟨by linarith, ?_, ?_⟩ <;> nlinarith

/-- The whole root is that of the number with an even exponent, and is long unless the exponent is the
lowest. -/
theorem exists_sqrtCore {m : Nat} (some : 0 < m) (e : Int) :
    ∃ (M : Nat) (t : Int), 0 < M ∧ sqrtCore .binary64 m e = (M.sqrt, t, rootAccuracy M) ∧
      (m * 2 ^ e : ℚ) = M * (2 ^ t * 2 ^ t) ∧ (52 ≤ M.sqrt.log2 ∨ t ≤ -1074) := by
  obtain ⟨t, target⟩ : ∃ t, t = min (e.ediv 2)
    (Format.binary64.targetExponent ((totalExponent m e + 1).ediv 2)) := ⟨_, rfl⟩
  obtain ⟨k, places⟩ : ∃ k, k = (e - 2 * t).toNat := ⟨_, rfl⟩
  have positive : 0 < m * 2 ^ k := Nat.mul_pos some (Nat.two_pow_pos k)
  refine ⟨m * 2 ^ k, t, positive, ?core, ?_⟩
  case core => rw [sqrtCore, ← target, ← places, Nat.shiftLeft_eq, rootAccuracy]
  rw [Binary64.targetExponent_eq, totalExponent] at target
  have halves (i : ℤ) : i.ediv 2 = i / 2 := rfl
  rw [halves, halves] at target
  constructor
  · have exponent : e = t + t + k := by omega
    rw [exponent, two_zpow_add, two_zpow_add, zpow_natCast]
    push_cast
    ring
  · rcases le_or_gt t (-1074) with lowest | above
    · exact .inr lowest
    have long : 104 ≤ (m * 2 ^ k).log2 := by
      rw [log2_mul_two_pow some]
      omega
    have full : 2 ^ 52 ≤ (m * 2 ^ k).sqrt := Nat.le_sqrt.2 ((Nat.pow_le_pow_right two_pos long).trans
      (Nat.log2_self_le (Nat.ne_of_gt positive)))
    exact .inl ((Nat.le_log2 (by omega)).2 full)

variable {x : Float} {v : ℚ}

/-- The square root of a positive number, rounded from a number whose square is within a factor of four. -/
theorem hasValue_sqrt (pos : 0 < v) (h : HasValue (exactValue x) v) :
    ∃ y : ℚ, 0 < y ∧ v ≤ 4 * (y * y) ∧ y * y ≤ 4 * v ∧ HasValue (exactValue x.sqrt) (stored y) := by
  obtain ⟨m, e, some, read, -, rfl⟩ := h.exists_finite pos
  obtain ⟨M, t, positive, core, square, wide⟩ := exists_sqrtCore some e
  obtain ⟨y, describes, low, high⟩ := exists_describes_sqrt M
  obtain ⟨posY, lower, upper⟩ := mul_self_bounds_of_sqrt positive low high
  have unit := two_zpow_pos t
  refine ⟨y * 2 ^ t, mul_pos posY unit, ?lower, ?upper, ?root⟩
  case lower =>
    calc (m * 2 ^ e : ℚ) = M * (2 ^ t * 2 ^ t) := square
      _ ≤ 4 * (y * y) * (2 ^ t * 2 ^ t) := mul_le_mul_of_nonneg_right lower (mul_pos unit unit).le
      _ = 4 * (y * 2 ^ t * (y * 2 ^ t)) := by ring
  case upper =>
    calc y * 2 ^ t * (y * 2 ^ t) = y * y * (2 ^ t * 2 ^ t) := by ring
      _ ≤ 4 * M * (2 ^ t * 2 ^ t) := mul_le_mul_of_nonneg_right upper (mul_pos unit unit).le
      _ = 4 * (m * 2 ^ e) := by rw [square, mul_assoc]
  case root =>
    change HasValue (Float.Model.pack (sqrt .binary64 (exactValue x))).unpack _
    rw [read]
    change HasValue (Float.Model.pack (roundWithAccuracy .binary64 .positive
      (sqrtCore .binary64 m e).1 (sqrtCore .binary64 m e).2.1 (sqrtCore .binary64 m e).2.2)).unpack _
    rw [core]
    refine hasValue_round (mul_pos posY unit) ?_ wide
    rwa [mul_div_cancel_right₀ _ unit.ne']

theorem stored_two_zpow {e : ℤ} (least : -1074 ≤ e) (most : e < 1024) :
    stored (2 ^ e) = (2 ^ e : ℚ) := by
  have short : Short (2 ^ e) := ⟨1, e, by norm_num, least, by simp⟩
  have small : (2 : ℚ) ^ e < 2 ^ (1024 : ℤ) := zpow_lt_zpow_right₀ one_lt_two most
  rw [stored, rounded_eq_self short, if_pos small]

/-- The root of a positive number is finite and far above the least number. -/
theorem exists_hasValue_sqrt (pos : 0 < v) (h : HasValue (exactValue x) v) :
    ∃ r : ℚ, (2 : ℚ) ^ (-538 : ℤ) ≤ r ∧ HasValue (exactValue x.sqrt) r := by
  obtain ⟨y, posY, lower, upper, root⟩ := hasValue_sqrt pos h
  obtain ⟨m, e, some, -, canonical, rfl⟩ := h.exists_finite pos
  have square (i : ℤ) : (2 : ℚ) ^ (i + i) = 2 ^ i * 2 ^ i := two_zpow_add i i
  have low : (2 : ℚ) ^ (-538 : ℤ) ≤ y := by
    have least : (2 : ℚ) ^ (-1074 : ℤ) ≤ m * 2 ^ e := calc
      (2 : ℚ) ^ (-1074 : ℤ) ≤ 1 * 2 ^ e := by
        rw [one_mul]
        exact zpow_le_zpow_right₀ one_le_two canonical.exponent.1
      _ ≤ m * 2 ^ e := mul_le_mul_of_nonneg_right (by exact_mod_cast some) (two_zpow_pos e).le
    have quarter : (2 : ℚ) ^ (-1074 : ℤ) = 4 * (2 ^ (-538 : ℤ) * 2 ^ (-538 : ℤ)) := by
      rw [← square, show (4 : ℚ) = 2 ^ (2 : ℤ) by norm_num, ← two_zpow_add]
      norm_num
    have fourfold := quarter.symm.trans_le (least.trans lower)
    exact nonneg_le_nonneg_of_sq_le_sq posY.le (le_of_mul_le_mul_left fourfold four_pos)
  have high : y ≤ 2 ^ (513 : ℤ) := by
    have most := h.lt_two_zpow
    have fourfold : (4 * 2 ^ (1024 : ℤ) : ℚ) = 2 ^ (513 : ℤ) * 2 ^ (513 : ℤ) := by
      rw [← square, show (4 : ℚ) = 2 ^ (2 : ℤ) by norm_num, ← two_zpow_add]
      norm_num
    exact nonneg_le_nonneg_of_sq_le_sq (two_zpow_pos _).le
      (upper.trans ((mul_le_mul_of_nonneg_left most.le (by norm_num)).trans_eq fourfold))
  have above := stored_mono (two_zpow_pos _).le low
  have below := stored_mono posY.le high
  rw [stored_two_zpow (by norm_num) (by norm_num)] at above below
  obtain ⟨r, same⟩ := WithTop.ne_top_iff_exists.1 (below.trans_lt (WithTop.coe_lt_top _)).ne
  rw [← same] at above root
  exact ⟨r, WithTop.coe_le_coe.1 above, root⟩

section Lengths

variable {x y y' : Float}

theorem exactValue_neg_zero : exactValue (-0) = .zero .negative := rfl

theorem exactValue_zero : exactValue 0 = .zero .positive := rfl

theorem hypot_neg_zero_right (x : Float) : hypot x (-0) = hypot x 0 := by
  have length : (-0 : Float).abs = (0 : Float).abs := by decide +kernel
  unfold hypot
  rw [exactValue_neg_zero, exactValue_zero]
  cases exactValue x with
  | zero => exact length
  | _ => rfl

theorem hypot_neg_zero_left (y : Float) : hypot (-0) y = hypot 0 y := by
  unfold hypot
  rw [exactValue_neg_zero, exactValue_zero]
  cases exactValue y <;> rfl

theorem OppositeZeros.hypot_left (zeros : OppositeZeros y y') (x : Float) : hypot y x = hypot y' x := by
  obtain ⟨rfl, rfl⟩ | ⟨rfl, rfl⟩ := zeros
  · exact (hypot_neg_zero_left x).symm
  · exact hypot_neg_zero_left x

theorem OppositeZeros.hypot_right (zeros : OppositeZeros y y') (x : Float) : hypot x y = hypot x y' := by
  obtain ⟨rfl, rfl⟩ | ⟨rfl, rfl⟩ := zeros
  · exact (hypot_neg_zero_right x).symm
  · exact hypot_neg_zero_right x

theorem hypot_zero_right {m : Nat} {e : Int} {s : Sign} {pos : 0 < m}
    (h : exactValue x = .finite s m e pos) : hypot x 0 = x.abs := by
  unfold hypot
  rw [h, exactValue_zero]

/-- The length of a vector along the first axis has a root that is far above zero. -/
theorem exists_sqrt_hypot (finite : x.isFinite = true) (away : x < 0 ∨ 0 < x) (axis : y = 0 ∨ y = -0) :
    ∃ r : ℚ, (2 : ℚ) ^ (-538 : ℤ) ≤ r ∧ HasValue (exactValue (hypot x y).sqrt) r := by
  have length : hypot x y = hypot x 0 := by
    rcases axis with rfl | rfl
    · rfl
    · exact hypot_neg_zero_right x
  obtain ⟨v, hx⟩ := exists_hasSigned finite
  have some : v ≠ 0 := by
    rcases away with left | right
    · exact ((lt_iff_of_hasSigned hx hasValue_zero.signed).1 left).ne
    · exact ((lt_iff_of_hasSigned hasValue_zero.signed hx).1 right).ne'
  rw [length]
  generalize read : exactValue x = a at hx
  cases hx with
  | zero => exact absurd rfl some
  | @finite s m e pos canonical =>
    refine exists_hasValue_sqrt (mul_pos (Nat.cast_pos.2 pos) (two_zpow_pos e)) ?_
    rw [hypot_zero_right read, exactValue_abs read]
    exact .finite canonical

end Lengths

end DomainColoring.Binary64
