import DomainColoring.Proofs.Scalar.Sums

/-!
# The unit interval

Machine numbers from 0 to 1. Rounding does not leave the interval, so products and complements stay in
it, and so does what remains of a number without its integer part. Clamping takes anything there, also
what is no number.
-/

namespace DomainColoring.Binary64

open Float.Model (UnpackedFloat)
open Float.Model.UnpackedFloat

/-- A number from 0 to 1. -/
def InUnit (x : Float) : Prop := ∃ v : ℚ, HasValue (exactValue x) v ∧ v ≤ 1

variable {x y : Float} {v w : ℚ}

theorem hasValue_ofNat {n : Nat} (small : n < 2 ^ 53) : HasValue (exactValue n.toFloat) (n : ℚ) :=
  stored_of_lt small ▸ hasValue_toFloat n

theorem hasValue_one : HasValue (exactValue (1 : Nat).toFloat) (1 : ℚ) := by
  exact_mod_cast hasValue_ofNat (n := 1) (by norm_num)

/-- A result that is at most a number is stored as nothing above it. -/
theorem exists_hasValue_le {a : UnpackedFloat} (nonneg : 0 ≤ v) (le : v ≤ w)
    (hx : HasValue (exactValue x) (stored v)) (h : HasValue a w) :
    ∃ r : ℚ, HasValue (exactValue x) r ∧ r ≤ w := by
  obtain ⟨r, kept, le⟩ :=
    WithTop.le_coe_iff.1 ((stored_mono nonneg le).trans_eq (stored_of_hasValue h))
  exact ⟨r, kept ▸ hx, le⟩

theorem inUnit_zero : InUnit (0 : Nat).toFloat :=
  ⟨0, hasValue_zero, zero_le_one⟩

theorem inUnit_one : InUnit (1 : Nat).toFloat :=
  ⟨1, hasValue_one, le_rfl⟩

theorem inUnit_of_stored (nonneg : 0 ≤ v) (le : v ≤ 1) (h : HasValue (exactValue x) (stored v)) :
    InUnit x :=
  exists_hasValue_le nonneg le h hasValue_one

theorem InUnit.mul (hx : InUnit x) (hy : InUnit y) : InUnit (x * y) := by
  obtain ⟨v, hx, leX⟩ := hx
  obtain ⟨w, hy, leY⟩ := hy
  rcases hy.coe_nonneg.eq_or_lt with rfl | pos
  · exact ⟨0, hasValue_mul_zero hx hy, zero_le_one⟩
  · exact inUnit_of_stored (mul_nonneg hx.coe_nonneg pos.le) (mul_le_one₀ leX pos.le leY)
      (hasValue_mul hx.coe_nonneg pos hx hy)

theorem InUnit.one_sub (hx : InUnit x) : InUnit ((1 : Nat).toFloat - x) := by
  obtain ⟨v, hx, le⟩ := hx
  have nonneg := hx.coe_nonneg
  exact inUnit_of_stored (by linarith) (by linarith) (hasValue_sub hasValue_one.signed hx.signed le)

section Parts

variable (h : HasValue (exactValue x) v)
include h

theorem hasValue_abs : HasValue (exactValue x.abs) v := by
  rcases h.zero_or_finite with ⟨s, read, rfl⟩ | ⟨m, e, pos, read, canonical, rfl⟩
  · change HasValue (Float.Model.pack (exactValue x).abs).unpack _
    rw [read]
    exact hasValue_pack_zero .positive
  · rw [exactValue_abs read]
    exact .finite canonical

theorem not_lt_zero : ¬x < (0 : Nat).toFloat :=
  (lt_iff_of_hasValue h hasValue_zero).not.2 h.nonneg.not_gt

/-- The integer part of a number that is not below zero. -/
theorem exists_hasValue_trunc :
    ∃ w : ℚ, HasValue (exactValue (trunc x)) w ∧ w ≤ v ∧ v ≤ w + 1 := by
  have nonneg := h.coe_nonneg
  have power : HasValue (exactValue (1 <<< 53 : Nat).toFloat) (2 ^ 53 : ℚ) := by
    have short : Short (2 ^ 53) := ⟨1, 53, by norm_num, by norm_num, by norm_num⟩
    have whole : ((1 <<< 53 : Nat) : ℚ) = 2 ^ 53 := by
      rw [Nat.one_shiftLeft, Nat.cast_pow, Nat.cast_ofNat]
    have kept : stored (1 <<< 53 : Nat) = (2 ^ 53 : ℚ) := by
      rw [stored_natCast (by decide), whole, rounded_eq_self short]
    exact kept ▸ hasValue_toFloat (1 <<< 53)
  unfold trunc
  split_ifs with small below
  · exact absurd below (not_lt_zero h)
  · have small : v < 2 ^ 53 :=
      WithTop.coe_lt_coe.1 ((lt_iff_of_hasValue (hasValue_abs h) power).1 small)
    have few : ⌊v⌋₊ < 2 ^ 53 := (Nat.floor_lt nonneg).2 (by exact_mod_cast small)
    have fits : 2 ^ 53 ≤ maxCount := by decide
    have word := hasValue_toFloat_word x.toUInt64
    rw [toNat_toUInt64 h, Nat.min_eq_left (few.le.trans fits), stored_of_lt few] at word
    exact ⟨⌊v⌋₊, word, Nat.floor_le nonneg, (Nat.lt_floor_add_one v).le⟩
  · exact ⟨v, h, le_rfl, by linarith⟩

theorem inUnit_fract : InUnit (Scalar.fract x) := by
  obtain ⟨w, hw, le, near⟩ := exists_hasValue_trunc h
  exact inUnit_of_stored (by linarith) (by linarith) (hasValue_sub h.signed hw.signed le)

theorem inUnit_wrap : InUnit (Scalar.wrap x) := by
  obtain ⟨r, hr, le⟩ := inUnit_fract h
  have unfolded : Scalar.wrap x =
      if Scalar.fract x < (0 : Nat).toFloat then Scalar.fract x + (1 : Nat).toFloat
      else Scalar.fract x := rfl
  rw [unfolded, if_neg (not_lt_zero hr)]
  exact ⟨r, hr, le⟩

end Parts

/-- What is a number and not below zero. -/
theorem exists_hasValue (number : x.isNaN = false) (notBelow : ¬x < (0 : Nat).toFloat) :
    ∃ u, HasValue (exactValue x) u := by
  have number : (exactValue x).isNaN = false := number
  have notBelow : (exactValue x).lt (.zero .positive) = false :=
    Bool.not_eq_true _ ▸ fun less => notBelow (decide_eq_true less)
  cases read : exactValue x with
  | notANumber =>
    rw [read] at number
    cases number
  | zero s => exact ⟨_, .zero s⟩
  | infinity s =>
    cases s with
    | positive => exact ⟨_, .infinity⟩
    | negative =>
      rw [read] at notBelow
      cases notBelow
  | finite s m e pos =>
    cases s with
    | positive => exact ⟨_, .finite (canonical_of_unpack read)⟩
    | negative =>
      rw [read] at notBelow
      cases notBelow

/-- Clamping takes anything into the interval. -/
theorem inUnit_unit (x : Float) : InUnit (Scalar.unit x) := by
  have unfolded : Scalar.unit x =
      if x.isNaN then (0 : Nat).toFloat
      else if x < (0 : Nat).toFloat then (0 : Nat).toFloat
      else if (1 : Nat).toFloat < x then (1 : Nat).toFloat else x := rfl
  rw [unfolded]
  split_ifs with none below above
  · exact inUnit_zero
  · exact inUnit_zero
  · exact inUnit_one
  · obtain ⟨u, h⟩ := exists_hasValue (Bool.eq_false_iff.2 none) below
    rw [lt_iff_of_hasValue hasValue_one h, not_lt] at above
    obtain ⟨v, rfl, le⟩ := WithTop.le_coe_iff.1 above
    exact ⟨v, h, le⟩

end DomainColoring.Binary64
