import Mathlib

/-!
# Rounding to 53 binary places

The number that a positive exact result is rounded to, as a function on rational numbers: the nearest
multiple of the power of two that leaves 53 places, and of two nearest ones the even one. Rounding keeps
order (`rounded_mono`) and the numbers that have no more places (`rounded_eq_self`), and it is too small
by at most one part in `2 ^ 53` (`le_rounded_add`). An even number of units in the last place is the
result from half a unit below it on (`succ_le_rounded_iff`).
-/

namespace DomainColoring.Binary64

/-- The nearest natural number, and of two the even one. -/
def roundEven (x : ℚ) : ℕ :=
  if 2 * (x - ⌊x⌋₊) < 1 then ⌊x⌋₊
  else if 2 * (x - ⌊x⌋₊) = 1 then ⌊x⌋₊ + ⌊x⌋₊ % 2
  else ⌊x⌋₊ + 1

section RoundEven

variable {x y : ℚ} {n : ℕ}

/-- A number is rounded up to `n` from `n - 1 / 2` on, and there only if `n` is even. -/
theorem le_roundEven_iff (nonneg : 0 ≤ x) :
    n ≤ roundEven x ↔ (2 * n - 1 : ℚ) < 2 * x ∨ ((2 * n - 1 : ℚ) = 2 * x ∧ n % 2 = 0) := by
  have low : (⌊x⌋₊ : ℚ) ≤ x := Nat.floor_le nonneg
  have high : x < ⌊x⌋₊ + 1 := Nat.lt_floor_add_one x
  unfold roundEven
  generalize ⌊x⌋₊ = m at low high ⊢
  rcases Nat.lt_trichotomy n (m + 1) with less | rfl | more
  · have below : (n : ℚ) ≤ m := Nat.cast_le.2 (Nat.le_of_lt_succ less)
    refine iff_of_true ?_ (.inl (by linarith))
    split_ifs <;> omega
  · push_cast
    split_ifs with under tie
    · exact iff_of_false (by omega) (by rintro (above | ⟨same, -⟩) <;> linarith)
    · have even : m + 1 ≤ m + m % 2 ↔ (m + 1) % 2 = 0 := by omega
      rw [even]
      refine ⟨fun h => .inr ⟨by linarith, h⟩, ?_⟩
      rintro (above | ⟨-, h⟩)
      · linarith
      · exact h
    · exact iff_of_true le_rfl (.inl (by linarith [lt_of_le_of_ne (not_lt.1 under) (Ne.symm tie)]))
  · have above : (m : ℚ) + 2 ≤ n := by exact_mod_cast more
    refine iff_of_false ?_ (by rintro (above | ⟨same, -⟩) <;> linarith)
    split_ifs <;> omega

theorem roundEven_mono (nonneg : 0 ≤ x) (le : x ≤ y) : roundEven x ≤ roundEven y := by
  rw [le_roundEven_iff (nonneg.trans le)]
  rcases (le_roundEven_iff nonneg).1 le_rfl with less | ⟨same, even⟩
  · exact .inl (by linarith)
  · rcases le.lt_or_eq with less | rfl
    · exact .inl (by linarith)
    · exact .inr ⟨same, even⟩

@[simp]
theorem roundEven_natCast (n : ℕ) : roundEven n = n := by
  simp [roundEven]

/-- Rounding down takes away at most a half. -/
theorem le_roundEven_add (nonneg : 0 ≤ x) : x ≤ roundEven x + 1 / 2 := by
  by_contra above
  have next : roundEven x + 1 ≤ roundEven x := by
    rw [le_roundEven_iff nonneg]
    push_cast
    exact .inl (by linarith)
  omega

end RoundEven

/-- The exponent of the last of 53 binary places, or the lowest that there is. -/
def lastPlace (x : ℚ) : ℤ := max (Int.log 2 x - 52) (-1074)

/-- What a result is rounded to, if nothing is too large. -/
def rounded (x : ℚ) : ℚ := roundEven (x / 2 ^ lastPlace x) * 2 ^ lastPlace x

/-- At most 53 binary places, none of them below the lowest. -/
def Short (v : ℚ) : Prop := ∃ (m : ℕ) (e : ℤ), m < 2 ^ 53 ∧ -1074 ≤ e ∧ v = m * 2 ^ e

theorem two_zpow_pos (e : ℤ) : (0 : ℚ) < 2 ^ e := zpow_pos two_pos e

theorem two_zpow_add (a b : ℤ) : (2 : ℚ) ^ (a + b) = 2 ^ a * 2 ^ b := zpow_add₀ two_ne_zero a b

/-- A longer significand with a smaller exponent. -/
theorem mul_two_pow_mul (m s : ℕ) (e : ℤ) : ((m * 2 ^ s : ℕ) * 2 ^ (e - s) : ℚ) = m * 2 ^ e := by
  push_cast
  rw [mul_assoc, ← zpow_natCast, ← two_zpow_add, add_sub_cancel]

section Rounded

variable {x y v : ℚ} {n : ℕ} {e : ℤ}

/-- What the format has room for is below `2 ^ 1024`. -/
theorem mul_two_zpow_lt (short : n < 2 ^ 53) (most : e ≤ 971) : (n * 2 ^ e : ℚ) < 2 ^ (1024 : ℤ) :=
  have short : (n : ℚ) < 2 ^ 53 := by exact_mod_cast short
  calc
    (n * 2 ^ e : ℚ) < 2 ^ 53 * 2 ^ e := mul_lt_mul_of_pos_right short (two_zpow_pos e)
    _ ≤ 2 ^ 53 * 2 ^ (971 : ℤ) :=
      mul_le_mul_of_nonneg_left (zpow_le_zpow_right₀ one_le_two most) (by norm_num)
    _ = 2 ^ (1024 : ℤ) := by
      rw [← zpow_natCast, ← two_zpow_add]
      rfl

theorem log_of_bounds (low : (2 : ℚ) ^ e ≤ x) (high : x < 2 ^ (e + 1)) : Int.log 2 x = e := by
  have pos : 0 < x := (two_zpow_pos e).trans_le low
  have least := (Int.zpow_le_iff_le_log one_lt_two pos).1 (by exact_mod_cast low)
  have most := (Int.lt_zpow_iff_log_lt one_lt_two pos).1 (by exact_mod_cast high)
  omega

theorem two_zpow_log_le (pos : 0 < x) : (2 : ℚ) ^ Int.log 2 x ≤ x := by
  exact_mod_cast Int.zpow_log_le_self (b := 2) one_lt_two pos

theorem lt_two_zpow_log (x : ℚ) : x < 2 ^ (Int.log 2 x + 1) := by
  exact_mod_cast Int.lt_zpow_succ_log_self (b := 2) one_lt_two x

theorem lastPlace_le_of_le (pos : 0 < x) (le : x ≤ y) : lastPlace x ≤ lastPlace y :=
  max_le_max (sub_le_sub_right (Int.log_mono_right pos le) _) le_rfl

theorem neg_le_lastPlace (x : ℚ) : -1074 ≤ lastPlace x := le_max_right _ _

/-- No more than 53 places are left. -/
theorem div_lastPlace_lt (x : ℚ) : x / 2 ^ lastPlace x < 2 ^ 53 := by
  rw [div_lt_iff₀ (two_zpow_pos _), ← zpow_natCast, ← two_zpow_add]
  refine (lt_two_zpow_log x).trans_le (zpow_le_zpow_right₀ one_le_two ?_)
  have := le_max_left (Int.log 2 x - 52) (-1074)
  rw [lastPlace]
  push_cast
  omega

/-- All 53 places are left unless the last is the lowest. -/
theorem le_div_lastPlace (pos : 0 < x) (above : -1074 < lastPlace x) :
    (2 : ℚ) ^ 52 ≤ x / 2 ^ lastPlace x := by
  have place : lastPlace x = Int.log 2 x - 52 := max_eq_left (by
    by_contra low
    rw [lastPlace, max_eq_right (le_of_not_ge low)] at above
    exact lt_irrefl _ above)
  rw [le_div_iff₀ (two_zpow_pos _), ← zpow_natCast, ← two_zpow_add, place]
  refine le_trans (le_of_eq ?_) (two_zpow_log_le pos)
  congr 1
  push_cast
  omega

theorem rounded_nonneg (x : ℚ) : 0 ≤ rounded x :=
  mul_nonneg (Nat.cast_nonneg _) (two_zpow_pos _).le

@[simp]
theorem rounded_zero : rounded 0 = 0 := by
  have none : roundEven 0 = 0 := by exact_mod_cast roundEven_natCast 0
  rw [rounded, zero_div, none, Nat.cast_zero, zero_mul]

theorem div_lastPlace_nonneg (nonneg : 0 ≤ x) : 0 ≤ x / 2 ^ lastPlace x :=
  div_nonneg nonneg (two_zpow_pos _).le

/-- What is below a multiple of its last place is rounded to nothing above it. -/
theorem rounded_le_of_le (nonneg : 0 ≤ x) (le : x ≤ n * 2 ^ lastPlace x) :
    rounded x ≤ n * 2 ^ lastPlace x := by
  have places := roundEven_mono (div_lastPlace_nonneg nonneg) ((div_le_iff₀ (two_zpow_pos _)).2 le)
  rw [roundEven_natCast] at places
  exact mul_le_mul_of_nonneg_right (Nat.cast_le.2 places) (two_zpow_pos _).le

/-- What is above a multiple of its last place is rounded to nothing below it. -/
theorem le_rounded_of_le (le : n * 2 ^ lastPlace x ≤ x) : n * 2 ^ lastPlace x ≤ rounded x := by
  have places := roundEven_mono n.cast_nonneg ((le_div_iff₀ (two_zpow_pos _)).2 le)
  rw [roundEven_natCast] at places
  exact mul_le_mul_of_nonneg_right (Nat.cast_le.2 places) (two_zpow_pos _).le

/-- A power of two that is not below a number's last place is a multiple of it. -/
theorem two_zpow_eq_mul (le : lastPlace x ≤ e) :
    (2 : ℚ) ^ e = ((2 ^ (e - lastPlace x).toNat : ℕ) : ℚ) * 2 ^ lastPlace x := by
  push_cast
  rw [← zpow_natCast, ← two_zpow_add]
  congr 1
  omega

/-- Rounding keeps order. -/
theorem rounded_mono (nonneg : 0 ≤ x) (le : x ≤ y) : rounded x ≤ rounded y := by
  rcases nonneg.eq_or_lt with rfl | pos
  · rw [rounded_zero]
    exact rounded_nonneg y
  rcases (lastPlace_le_of_le pos le).eq_or_lt with same | less
  · rw [rounded, rounded, same]
    exact mul_le_mul_of_nonneg_right (Nat.cast_le.2 (roundEven_mono
      (div_nonneg nonneg (two_zpow_pos _).le) (div_le_div_of_nonneg_right le (two_zpow_pos _).le)))
      (two_zpow_pos _).le
  · -- a power of two is between them, and both stay on their side of it
    have least := neg_le_lastPlace x
    obtain ⟨place, longer⟩ : lastPlace y = Int.log 2 y - 52 ∧ Int.log 2 x < Int.log 2 y := by
      simp only [lastPlace] at less ⊢
      omega
    have below : x ≤ 2 ^ Int.log 2 y :=
      (lt_two_zpow_log x).le.trans (zpow_le_zpow_right₀ one_le_two longer)
    have above : (2 : ℚ) ^ Int.log 2 y ≤ y := two_zpow_log_le (pos.trans_le le)
    have first : lastPlace x ≤ Int.log 2 y := by omega
    have second : lastPlace y ≤ Int.log 2 y := by omega
    calc
      rounded x ≤ 2 ^ Int.log 2 y := by
        rw [two_zpow_eq_mul first] at below ⊢
        exact rounded_le_of_le nonneg below
      _ ≤ rounded y := by
        rw [two_zpow_eq_mul second] at above ⊢
        exact le_rounded_of_le above

/-- The last of a number's places is not below the last that is needed to write it. -/
theorem lastPlace_le (short : n < 2 ^ 53) (least : -1074 ≤ e) (pos : 0 < n) :
    lastPlace (n * 2 ^ e) ≤ e := by
  have positive : (0 : ℚ) < n * 2 ^ e := mul_pos (Nat.cast_pos.2 pos) (two_zpow_pos e)
  have below : (n * 2 ^ e : ℚ) < 2 ^ (53 + e) := by
    rw [two_zpow_add]
    exact mul_lt_mul_of_pos_right (by exact_mod_cast short) (two_zpow_pos e)
  have log := (Int.lt_zpow_iff_log_lt one_lt_two positive).1 (by exact_mod_cast below)
  rw [lastPlace]
  omega

/-- A number that has no more places is kept. -/
theorem rounded_eq_self (short : Short v) : rounded v = v := by
  obtain ⟨m, e, few, least, rfl⟩ := short
  rcases m.eq_zero_or_pos with rfl | pos
  · rw [Nat.cast_zero, zero_mul, rounded_zero]
  obtain ⟨k, places⟩ : ∃ k : ℕ, e = lastPlace (m * 2 ^ e) + k :=
    ⟨(e - lastPlace (m * 2 ^ e)).toNat, by have := lastPlace_le few least pos; omega⟩
  have whole : (m * 2 ^ e : ℚ) / 2 ^ lastPlace (m * 2 ^ e) = ((m * 2 ^ k : ℕ) : ℚ) := by
    rw [div_eq_iff (two_zpow_pos _).ne']
    push_cast
    rw [mul_assoc, ← zpow_natCast, ← two_zpow_add, add_comm, ← places]
  rw [rounded, whole, roundEven_natCast, ← whole, div_mul_cancel₀ _ (two_zpow_pos _).ne']

/-- What has places after the point is below `2 ^ 53`. -/
theorem Short.whole_or (short : Short v) : (∃ n : ℕ, v = n) ∨ ∃ m : ℕ, m < 2 ^ 53 ∧ v ≤ m := by
  obtain ⟨m, e, few, -, rfl⟩ := short
  rcases le_or_gt 0 e with whole | fraction
  · obtain ⟨k, rfl⟩ := Int.eq_ofNat_of_zero_le whole
    exact .inl ⟨m * 2 ^ k, by push_cast; rfl⟩
  · exact .inr ⟨m, few, mul_le_of_le_one_right m.cast_nonneg
      (zpow_le_one_of_nonpos₀ one_le_two fraction.le)⟩

theorem short_of_lt (small : n < 2 ^ 53) : Short n := ⟨n, 0, small, by norm_num, by simp⟩

theorem Short.floor (short : Short v) : Short ⌊v⌋₊ := by
  rcases short.whole_or with ⟨n, rfl⟩ | ⟨m, few, le⟩
  · rwa [Nat.floor_natCast]
  · exact short_of_lt ((Nat.floor_le_of_le le).trans_lt few)

theorem Short.ceil (short : Short v) : Short ⌈v⌉₊ := by
  rcases short.whole_or with ⟨n, rfl⟩ | ⟨m, few, le⟩
  · rwa [Nat.ceil_natCast]
  · exact short_of_lt ((Nat.ceil_le.2 le).trans_lt few)

theorem roundEven_le (nonneg : 0 ≤ x) : roundEven (x / 2 ^ lastPlace x) ≤ 2 ^ 53 := by
  have places := roundEven_mono (div_lastPlace_nonneg nonneg) (div_lastPlace_lt x).le
  exact places.trans_eq (by exact_mod_cast roundEven_natCast (2 ^ 53))

theorem short_rounded (nonneg : 0 ≤ x) : Short (rounded x) := by
  have least := neg_le_lastPlace x
  rcases (roundEven_le nonneg).lt_or_eq with less | full
  · exact ⟨_, _, less, least, rfl⟩
  · refine ⟨1, 53 + lastPlace x, by norm_num, by omega, ?_⟩
    rw [rounded, full, two_zpow_add]
    norm_num

/-- Rounding makes a number smaller by at most half a unit in its last place. -/
theorem le_rounded_add_half (nonneg : 0 ≤ x) : x ≤ rounded x + 2 ^ lastPlace x / 2 := by
  have places := le_roundEven_add (div_lastPlace_nonneg nonneg)
  rw [div_le_iff₀ (two_zpow_pos _)] at places
  rw [rounded]
  linarith

/-- Rounding makes a number of full length smaller by at most one part in `2 ^ 53`. -/
theorem le_rounded_add (least : (2 : ℚ) ^ (-1022 : ℤ) ≤ x) : x ≤ rounded x + x / 2 ^ 53 := by
  have pos : 0 < x := (two_zpow_pos _).trans_le least
  have long := (Int.zpow_le_iff_le_log one_lt_two pos).1 (by exact_mod_cast least)
  have place : lastPlace x = Int.log 2 x + -52 := by
    rw [lastPlace]
    omega
  have unit : (2 : ℚ) ^ lastPlace x ≤ x / 2 ^ 52 := by
    rw [place, two_zpow_add, div_eq_mul_inv]
    exact mul_le_mul (two_zpow_log_le pos) (by norm_num) (two_zpow_pos _).le pos.le
  have half := le_rounded_add_half pos.le
  linarith

theorem lastPlace_eq (least : -1074 ≤ e) (low : (2 : ℚ) ^ 52 * 2 ^ e ≤ x)
    (high : x < 2 ^ 53 * 2 ^ e) : lastPlace x = e := by
  have log : Int.log 2 x = 52 + e := by
    refine log_of_bounds ?_ ?_
    · rwa [two_zpow_add]
    · rwa [add_right_comm, two_zpow_add]
  rw [lastPlace, log]
  omega

/-- Less than half a unit in the last place is taken away. -/
theorem rounded_of_lt_half (least : -1074 ≤ e) (low : 2 ^ 52 ≤ n) (high : n < 2 ^ 53)
    (above : n * 2 ^ e ≤ x) (near : x < (n + 1 / 2) * 2 ^ e) : rounded x = n * 2 ^ e := by
  have unit := two_zpow_pos e
  have low : (2 : ℚ) ^ 52 ≤ n := by exact_mod_cast low
  have high : (n + 1 : ℚ) ≤ 2 ^ 53 := by exact_mod_cast high
  have place : lastPlace x = e :=
    lastPlace_eq least ((mul_le_mul_of_nonneg_right low unit.le).trans above)
      (near.trans_le (mul_le_mul_of_nonneg_right (by linarith) unit.le))
  have atLeast : (n : ℚ) ≤ x / 2 ^ e := (le_div_iff₀ unit).2 above
  have below : x / 2 ^ e < n + 1 / 2 := (div_lt_iff₀ unit).2 near
  have upward : n ≤ roundEven (x / 2 ^ e) :=
    (roundEven_natCast n).symm.trans_le (roundEven_mono n.cast_nonneg atLeast)
  have downward : ¬n + 1 ≤ roundEven (x / 2 ^ e) := by
    rw [le_roundEven_iff (n.cast_nonneg.trans atLeast)]
    push_cast
    rintro (more | ⟨same, -⟩) <;> linarith
  rw [rounded, place, show roundEven (x / 2 ^ e) = n by omega]

/-- An even number of units in the last place is reached from half a unit below it on. -/
theorem succ_le_rounded_iff (nonneg : 0 ≤ x) (least : -1074 ≤ e) (low : 2 ^ 52 ≤ n)
    (high : n < 2 ^ 53) (odd : n % 2 = 1) :
    (n + 1) * 2 ^ e ≤ rounded x ↔ (n + 1) * 2 ^ e - x ≤ 2 ^ e / 2 := by
  have unit := two_zpow_pos e
  constructor
  · contrapose!
    intro far
    have short : rounded (max x (n * 2 ^ e)) = n * 2 ^ e :=
      rounded_of_lt_half least low high (le_max_right _ _) (max_lt (by linarith) (by linarith))
    calc
      rounded x ≤ n * 2 ^ e := (rounded_mono nonneg (le_max_left _ _)).trans_eq short
      _ < (n + 1) * 2 ^ e := mul_lt_mul_of_pos_right (lt_add_one _) unit
  · intro near
    have low : (2 : ℚ) ^ 52 ≤ n := by exact_mod_cast low
    have high : (n + 1 : ℚ) ≤ 2 ^ 53 := by exact_mod_cast high
    have middle : (n + 1 / 2 : ℚ) * 2 ^ e ≤ x := by linarith
    have place : lastPlace ((n + 1 / 2) * 2 ^ e) = e :=
      lastPlace_eq least (mul_le_mul_of_nonneg_right (by linarith) unit.le)
        (mul_lt_mul_of_pos_right (by linarith) unit)
    have tie : n + 1 ≤ roundEven (n + 1 / 2) :=
      (le_roundEven_iff (by linarith)).2 (.inr ⟨by push_cast; ring, by omega⟩)
    calc
      ((n + 1) * 2 ^ e : ℚ) ≤ roundEven (n + 1 / 2) * 2 ^ e :=
        mul_le_mul_of_nonneg_right (by exact_mod_cast tie) unit.le
      _ = rounded ((n + 1 / 2) * 2 ^ e) := by
        rw [rounded, place, mul_div_cancel_right₀ _ unit.ne']
      _ ≤ rounded x := rounded_mono (mul_nonneg (by linarith) unit.le) middle

end Rounded

end DomainColoring.Binary64
