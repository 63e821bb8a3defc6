import DomainColoring.Proofs.Scalar.Results

/-!
# Arithmetic on values

Products, quotients and whole numbers as machine numbers: their values are the exact ones, rounded once.
Rounding up to a natural number is exact as far as a machine word goes (`ceilNat_of_hasValue`).
-/

namespace DomainColoring.Binary64

open Float.Model (Format UnpackedFloat totalExponent)
open Float.Model.UnpackedFloat

variable {x y : Float} {v w : ℚ} {n : Nat}

/-- The significand of a product is wide enough for rounding. -/
theorem Canonical.wide_mul {m₁ m₂ : Nat} {e₁ e₂ : Int} (h₁ : Canonical m₁ e₁) (h₂ : Canonical m₂ e₂)
    (pos₁ : 0 < m₁) (pos₂ : 0 < m₂) : 52 ≤ (m₁ * m₂).log2 ∨ e₁ + e₂ ≤ -1074 := by
  have some : m₁ * m₂ ≠ 0 := Nat.ne_of_gt (Nat.mul_pos pos₁ pos₂)
  have first : m₁.log2 ≤ (m₁ * m₂).log2 := by
    rw [Nat.le_log2 some]
    exact (Nat.log2_self_le (Nat.ne_of_gt pos₁)).trans (Nat.le_mul_of_pos_right _ pos₂)
  have second : m₂.log2 ≤ (m₁ * m₂).log2 := by
    rw [Nat.le_log2 some]
    exact (Nat.log2_self_le (Nat.ne_of_gt pos₂)).trans (Nat.le_mul_of_pos_left _ pos₁)
  have exponents := And.intro h₁.exponent.2 h₂.exponent.2
  split_ifs at exponents <;> omega

theorem hasValue_zero : HasValue (exactValue 0) (0 : ℚ) := .zero .positive

/-- A zero keeps its sign when it is multiplied by what is above zero. -/
theorem exactValue_zero_mul {s : Sign} (pos : 0 < w) (hx : exactValue x = .zero s)
    (hy : HasValue (exactValue y) w) : exactValue (x * y) = .zero s := by
  obtain ⟨m, e, some, readY, -, -⟩ := hy.exists_finite pos
  change (Float.Model.pack (mul .binary64 (exactValue x) (exactValue y))).unpack = _
  have product : mul .binary64 (.zero s) (.finite .positive m e some) = .zero s := by
    cases s <;> rfl
  rw [hx, readY, product]
  cases s <;> rfl

theorem hasValue_mul_zero (hx : HasValue (exactValue x) v) (hy : HasValue (exactValue y) (0 : ℚ)) :
    HasValue (exactValue (x * y)) (0 : ℚ) := by
  obtain ⟨t, readY⟩ := hy.exists_zero
  obtain ⟨s, product⟩ : ∃ s, mul .binary64 (exactValue x) (.zero t) = .zero s := by
    rcases hx.zero_or_finite with ⟨s, readX, -⟩ | ⟨m, e, some, readX, -, -⟩
    · exact ⟨s * t, readX ▸ rfl⟩
    · exact ⟨.positive * t, readX ▸ rfl⟩
  change HasValue (Float.Model.pack (mul .binary64 (exactValue x) (exactValue y))).unpack _
  rw [readY, product]
  exact hasValue_pack_zero s

/-- The product of numbers is that of their values, rounded once. -/
theorem hasValue_mul (nonneg : 0 ≤ v) (pos : 0 < w) (hx : HasValue (exactValue x) v)
    (hy : HasValue (exactValue y) w) : HasValue (exactValue (x * y)) (stored (v * w)) := by
  rcases nonneg.eq_or_lt with rfl | positive
  · obtain ⟨s, readX⟩ := hx.exists_zero
    rw [exactValue_zero_mul pos readX hy, zero_mul, stored_zero]
    exact .zero s
  · obtain ⟨m₁, e₁, some₁, readX, h₁, rfl⟩ := hx.exists_finite positive
    obtain ⟨m₂, e₂, some₂, readY, h₂, rfl⟩ := hy.exists_finite pos
    change HasValue (Float.Model.pack (mul .binary64 (exactValue x) (exactValue y))).unpack _
    rw [readX, readY]
    refine hasValue_round (mul_pos positive pos) ?_ (h₁.wide_mul h₂ some₁ some₂)
    have exact : (m₁ * 2 ^ e₁ * (m₂ * 2 ^ e₂) / 2 ^ (e₁ + e₂) : ℚ) = (m₁ * m₂ : Nat) := by
      rw [div_eq_iff (two_zpow_pos _).ne', two_zpow_add]
      push_cast
      ring
    rw [exact]
    exact describes_exact _

theorem hasValue_zero_div (pos : 0 < w) (hx : HasValue (exactValue x) (0 : ℚ))
    (hy : HasValue (exactValue y) w) : HasValue (exactValue (x / y)) (0 : ℚ) := by
  obtain ⟨s, readX⟩ := hx.exists_zero
  obtain ⟨m, e, some, readY, -, -⟩ := hy.exists_finite pos
  have quotient : div .binary64 (.zero s) (.finite .positive m e some) = .zero (s / .positive) := rfl
  change HasValue (Float.Model.pack (div .binary64 (exactValue x) (exactValue y))).unpack _
  rw [readX, readY, quotient]
  exact hasValue_pack_zero _

/-- The quotient of numbers is that of their values, rounded once. -/
theorem hasValue_div (posX : 0 < v) (posY : 0 < w) (hx : HasValue (exactValue x) v)
    (hy : HasValue (exactValue y) w) : HasValue (exactValue (x / y)) (stored (v / w)) := by
  obtain ⟨m₁, e₁, some₁, readX, h₁, rfl⟩ := hx.exists_finite posX
  obtain ⟨m₂, e₂, some₂, readY, h₂, rfl⟩ := hy.exists_finite posY
  change HasValue (Float.Model.pack (div .binary64 (exactValue x) (exactValue y))).unpack _
  rw [readX, readY]
  obtain ⟨t, target⟩ : ∃ t, t = min (e₁ - e₂) (Format.binary64.targetExponent
    (totalExponent m₁ e₁ - totalExponent m₂ e₂)) := ⟨_, rfl⟩
  obtain ⟨k, places⟩ : ∃ k, k = (e₁ - e₂ - t).toNat := ⟨_, rfl⟩
  have core : divCore .binary64 m₁ e₁ m₂ e₂ =
      (m₁ * 2 ^ k / m₂, t, accuracyOfFraction (m₁ * 2 ^ k % m₂) m₂) := by
    rw [divCore, ← target, ← places, Nat.shiftLeft_eq]
  have exact : (m₁ * 2 ^ e₁ / (m₂ * 2 ^ e₂) / 2 ^ t : ℚ) = (m₁ * 2 ^ k : Nat) / m₂ := by
    have exponent : e₁ = e₂ + t + k := by omega
    have positive : (m₂ : ℚ) ≠ 0 := Nat.cast_ne_zero.2 (Nat.ne_of_gt some₂)
    rw [exponent, two_zpow_add, two_zpow_add, zpow_natCast]
    push_cast
    field_simp
  change HasValue (Float.Model.pack (roundWithAccuracy .binary64 .positive
    (divCore .binary64 m₁ e₁ m₂ e₂).1 (divCore .binary64 m₁ e₁ m₂ e₂).2.1
    (divCore .binary64 m₁ e₁ m₂ e₂).2.2)).unpack _
  rw [core]
  refine hasValue_round (div_pos posX posY) ?_ ?_
  · rw [exact]
    exact describes_div some₂ _
  · rcases le_or_gt t (-1074) with low | above
    · exact .inr low
    rw [Binary64.targetExponent_eq, totalExponent, totalExponent] at target
    have long : 52 + (m₂.log2 + 1) ≤ m₁.log2 + k := by omega
    have quotient : 2 ^ 52 ≤ m₁ * 2 ^ k / m₂ := two_pow_le_quotient some₁ some₂ long
    exact .inl ((Nat.le_log2 (by omega)).2 quotient)

theorem stored_natCast (fits : n ≤ maxCount) : stored n = (rounded n : ℚ) := by
  have word : maxCount < 2 ^ 64 := by decide
  have bound : (n : ℚ) ≤ 2 ^ (64 : ℤ) := by exact_mod_cast (fits.trans_lt word).le
  have power : Short (2 ^ (64 : ℤ)) := ⟨1, 64, by norm_num, by norm_num, by simp⟩
  have small : rounded n < 2 ^ (1024 : ℤ) := calc
    rounded n ≤ 2 ^ (64 : ℤ) := (rounded_mono n.cast_nonneg bound).trans_eq (rounded_eq_self power)
    _ < 2 ^ (1024 : ℤ) := zpow_lt_zpow_right₀ one_lt_two (by norm_num)
  rw [stored, if_pos small]

theorem stored_of_lt (small : n < 2 ^ 53) : stored n = (n : ℚ) := by
  have fits : 2 ^ 53 ≤ maxCount := by decide
  rw [stored_natCast (small.le.trans fits), rounded_eq_self (short_of_lt small)]

/-- A whole number is read as the nearest number. -/
theorem hasValue_toFloat (n : Nat) : HasValue (exactValue n.toFloat) (stored n) := by
  rcases lt_or_ge n (2 ^ 53) with small | large
  · rw [stored_of_lt small]
    rcases n.eq_zero_or_pos with rfl | pos
    · exact .zero .positive
    · have whole : ((n * 2 ^ (52 - n.log2) : Nat) * 2 ^ (-(52 - n.log2 : Nat) : ℤ) : ℚ) = n := by
        rw [zpow_neg, zpow_natCast]
        push_cast
        exact mul_inv_cancel_right₀ (pow_ne_zero _ two_ne_zero) _
      rw [exactValue_toFloat pos small, ← whole]
      exact .finite (canonical_of_whole pos small)
  · have some : n ≠ 0 := by omega
    have read : n.toFloat = .ofModel (.pack (.ofScientific .binary64 n 0)) := by
      unfold Nat.toFloat Float.ofNat OfScientific.ofScientific instOfScientificFloat
        Float.ofScientific
      dsimp only
      rw [dif_neg (by omega)]
      rfl
    have scientific : UnpackedFloat.ofScientific .binary64 n 0 =
        roundWithAccuracy .binary64 .positive (n * 2 ^ 53) (-53) .exact := by
      have bits : Format.binary64.exponentBits = 11 := rfl
      rw [UnpackedFloat.ofScientific, dif_neg some, bits, if_neg (by decide), if_neg (by omega),
        if_pos le_rfl, ← Nat.shiftLeft_eq]
      change roundWithAccuracy .binary64 .positive (n <<< 53 * 10 ^ Int.toNat 0) (-53 + 0) .exact = _
      rw [Int.toNat_zero, pow_zero, mul_one, add_zero]
    have positive : (0 : ℚ) < n := Nat.cast_pos.2 (Nat.pos_of_ne_zero some)
    rw [read]
    change HasValue (Float.Model.pack (UnpackedFloat.ofScientific .binary64 n 0)).unpack _
    rw [scientific]
    refine hasValue_round positive ?_ (.inl ?_)
    · have exact : (n / 2 ^ (-53 : ℤ) : ℚ) = (n * 2 ^ 53 : Nat) := by
        rw [zpow_neg, div_inv_eq_mul]
        norm_cast
      rw [exact]
      exact describes_exact _
    · rw [log2_mul_two_pow (Nat.pos_of_ne_zero some)]
      omega

theorem hasValue_toFloat_word (n : UInt64) : HasValue (exactValue n.toFloat) (stored n.toNat) := by
  have whole := hasValue_normalize 0 (Int.natCast_nonneg n.toNat)
  rwa [zpow_zero, mul_one, Int.cast_natCast] at whole

theorem roundToInt_eq (m : Nat) (e : Int) :
    roundToInt .positive m e = (⌊(m * 2 ^ e : ℚ)⌋₊ : ℤ) := by
  obtain ⟨k, up⟩ : ∃ k : Nat, k = (e - 0).toNat := ⟨_, rfl⟩
  obtain ⟨s, down⟩ : ∃ s : Nat, s = (0 - (e - k)).toNat := ⟨_, rfl⟩
  have shifted : roundToInt .positive m e =
      ((ExtendedMantissa.ofMantissaAndAccuracy (m <<< k) .exact >>> s).mantissa : ℤ) := by
    rw [down, up]
    rfl
  have parts : (m * 2 ^ e : ℚ) = (m * 2 ^ k : Nat) / (2 ^ s : Nat) := by
    have exponent : e = k - s := by omega
    rw [exponent, zpow_sub₀ two_ne_zero, zpow_natCast, zpow_natCast]
    push_cast
    rw [mul_div_assoc]
  rw [shifted, mantissa_shiftRight, mantissa_ofMantissaAndAccuracy, Nat.shiftLeft_eq, parts,
    Nat.floor_div_eq_div]

theorem toNat_ofNatClamp (n : Nat) : (UInt64.ofNatClamp n).toNat = min n maxCount := by
  rcases lt_or_ge n UInt64.size with small | large
  · rw [UInt64.toNat_ofNatClamp_of_lt small, maxCount]
    omega
  · rw [UInt64.ofNatClamp, dif_neg large.not_gt, UInt64.toNat_ofNatLT, maxCount]
    omega

/-- The whole part of a number, cut off at the largest word. -/
theorem toNat_toUInt64 (h : HasValue (exactValue x) v) : x.toUInt64.toNat = min ⌊v⌋₊ maxCount := by
  change (UInt64.ofNatClamp (UnpackedFloat.toInt 0 (UInt64.size - 1) (exactValue x)).toNat).toNat = _
  rw [toNat_ofNatClamp]
  generalize exactValue x = a at h ⊢
  generalize same : (v : WithTop ℚ) = u at h
  cases h with
  | infinity => exact absurd same WithTop.coe_ne_top
  | zero s =>
    rw [WithTop.coe_injective same, Nat.floor_zero]
    rfl
  | @finite m e some =>
    rw [WithTop.coe_injective same]
    change min (roundToInt .positive m e).toNat maxCount = _
    rw [roundToInt_eq, Int.toNat_natCast]

theorem toNat_toUInt64_top (h : HasValue (exactValue x) ⊤) : x.toUInt64.toNat = maxCount := by
  change (UInt64.ofNatClamp (UnpackedFloat.toInt 0 (UInt64.size - 1) (exactValue x)).toNat).toNat = _
  rw [h.eq_infinity]
  rfl

/-- Rounding up, and cutting off at the largest word. -/
theorem ceilNat_of_hasValue (nonneg : 0 ≤ v) (h : HasValue (exactValue x) v) :
    ceilNat x = min ⌈v⌉₊ maxCount := by
  have whole := toNat_toUInt64 h
  have less := lt_iff_of_hasValue (hasValue_toFloat_word x.toUInt64) h
  have order := Nat.floor_le_ceil v
  unfold ceilNat
  dsimp only
  rw [whole] at less ⊢
  rcases le_total ⌊v⌋₊ maxCount with fits | exceeds
  · -- the whole part is a number, so comparing with it tells whether there is more
    rw [Nat.min_eq_left fits, stored_natCast fits, rounded_eq_self h.short.floor,
      WithTop.coe_lt_coe] at less
    rw [Nat.min_eq_left fits]
    by_cases more : (⌊v⌋₊ : ℚ) < v
    · have next : ⌈v⌉₊ = ⌊v⌋₊ + 1 :=
        (Nat.ceil_eq_iff (Nat.succ_ne_zero _)).2 ⟨by simpa using more, by
          push_cast; exact (Nat.lt_floor_add_one v).le⟩
      rw [if_pos (less.2 more), next]
    · have same : v = ⌊v⌋₊ := le_antisymm (not_lt.1 more) (Nat.floor_le nonneg)
      have equal : ⌈v⌉₊ = ⌊v⌋₊ := by
        conv_lhs => rw [same, Nat.ceil_natCast]
      rw [if_neg fun above => more (less.1 above), equal, Nat.min_eq_left fits]
  · rw [Nat.min_eq_right exceeds, Nat.min_eq_right (Nat.le_succ _),
      Nat.min_eq_right (exceeds.trans order), ite_self]

theorem ceilNat_top (h : HasValue (exactValue x) ⊤) : ceilNat x = maxCount := by
  unfold ceilNat
  dsimp only
  rw [toNat_toUInt64_top h]
  split_ifs
  · exact Nat.min_eq_right (Nat.le_succ _)
  · rfl

/-- A larger number is rounded up to no less. -/
theorem ceilNat_mono {v w : WithTop ℚ} (hx : HasValue (exactValue x) v)
    (hy : HasValue (exactValue y) w) (le : v ≤ w) : ceilNat x ≤ ceilNat y := by
  cases w with
  | top =>
    rw [ceilNat_top hy]
    cases v with
    | top => exact (ceilNat_top hx).le
    | coe v =>
      rw [ceilNat_of_hasValue (WithTop.coe_le_coe.1 hx.nonneg) hx]
      exact Nat.min_le_right _ _
  | coe w =>
    cases v with
    | top => exact absurd (top_le_iff.1 le) WithTop.coe_ne_top
    | coe v =>
      rw [ceilNat_of_hasValue (WithTop.coe_le_coe.1 hx.nonneg) hx,
        ceilNat_of_hasValue (WithTop.coe_le_coe.1 hy.nonneg) hy]
      exact min_le_min_right _ (Nat.ceil_mono (WithTop.coe_le_coe.1 le))

end DomainColoring.Binary64
