import DomainColoring.Proofs.Scalar.Canonical

/-!
# Quotients that are not zero

A whole number divided by a machine number is never rounded to zero: the divisor is below `2 ^ 1024`,
so the quotient is far above the least positive machine number (`isPositive_toFloat_div`). Rounded up
it is therefore at least 1.
-/

namespace DomainColoring.Binary64

open Float.Model (Format UnpackedFloat totalExponent)
open Float.Model.UnpackedFloat

/-- Above zero; infinity is. -/
def IsPositive (u : UnpackedFloat) : Prop :=
  u = .infinity .positive ∨ ∃ m e pos, u = .finite .positive m e pos

/-- Of the sign `s`, and not zero; an infinity may be. -/
def HasSign (s : Sign) (u : UnpackedFloat) : Prop :=
  u = .infinity s ∨ ∃ m e pos, u = .finite s m e pos

section Stored

variable {m : Nat} {e : Int}

theorem Canonical.log2_le (h : Canonical m e) : m.log2 ≤ 52 := by
  have target := h.target
  rw [targetExponent_eq, totalExponent] at target
  omega

/-- The exponent is the lowest there is unless the significand is full. -/
theorem Canonical.exponent (h : Canonical m e) :
    -1074 ≤ e ∧ (if m.log2 = 52 then e else -1074) = e := by
  have target := h.target
  rw [targetExponent_eq, totalExponent] at target
  split <;> omega

theorem unpack_normal (s : Sign) {b : BitVec Format.binary64.exponentBits}
    {f : BitVec Format.binary64.mantissaBitsWithoutImplicit} (pos : 0 < m)
    (notLeast : b ≠ 0#_) (notMost : b ≠ -1#_) (whole : (1#1 ++ f).toNat = m)
    (exponent : (b.toNat : Int) - 1075 = e) :
    Float.Model.UnpackedFloat.unpack .binary64 (packComponents .binary64 s b f) =
      .finite s m e pos := by
  subst whole exponent
  unfold Float.Model.UnpackedFloat.unpack
  simp only [unpackExponent_packComponents, unpackMantissa_packComponents,
    unpackSign_packComponents, ofBitVec_toBitVec]
  rw [if_neg notMost, if_neg notLeast]
  rfl

theorem unpack_subnormal (s : Sign) {f : BitVec Format.binary64.mantissaBitsWithoutImplicit}
    (pos : 0 < m) (whole : f.toNat = m) :
    Float.Model.UnpackedFloat.unpack .binary64 (packComponents .binary64 s 0#_ f) =
      .finite s m (-1074) pos := by
  have some : f ≠ 0#_ := fun zero => by
    rw [zero] at whole
    exact Nat.ne_of_gt pos whole.symm
  subst whole
  unfold Float.Model.UnpackedFloat.unpack
  simp only [unpackExponent_packComponents, unpackMantissa_packComponents,
    unpackSign_packComponents, ofBitVec_toBitVec]
  rw [if_neg (by decide), if_pos trivial, dif_neg some]
  rfl

/-- A significand that is not too long is stored as it is. Its exponent is stored too if the
significand is full, and otherwise it is taken to be the lowest. -/
theorem unpack_pack (s : Sign) (pos : 0 < m) (short : m.log2 ≤ 52) (least : -1074 ≤ e) :
    (Float.Model.pack (.finite s m e pos)).unpack =
      if 971 < e then .infinity s else .finite s m (if m.log2 = 52 then e else -1074) pos := by
  change Float.Model.UnpackedFloat.unpack .binary64
    (Float.Model.UnpackedFloat.pack .binary64 (.finite s m e pos)) = _
  have biased : (e + Format.binary64.exponentBias + (52 : Nat)).toNat = (e + 1075).toNat := by
    rw [exponentBias_eq]
    omega
  have largest : 2 ^ Format.binary64.exponentBits = 2048 := rfl
  have width : Format.binary64.mantissaBits = 53 := rfl
  rw [Float.Model.UnpackedFloat.pack]
  dsimp only
  rw [biased, largest, width]
  by_cases tooLarge : 971 < e
  · rw [if_pos (by omega), if_pos tooLarge]
    simp only [packedInfinity, Float.Model.UnpackedFloat.unpack, unpackExponent_packComponents,
      unpackMantissa_packComponents, unpackSign_packComponents, ofBitVec_toBitVec]
    rfl
  rw [if_neg (by omega), if_neg tooLarge]
  by_cases full : m.log2 = 52
  · have low : 2 ^ 52 ≤ m := (Nat.le_log2 (by omega)).1 (by omega)
    have high : m < 2 ^ 53 := (Nat.log2_lt (by omega)).1 (by omega)
    have stored : (BitVec.ofNat 11 (e + 1075).toNat).toNat = (e + 1075).toNat :=
      Nat.mod_eq_of_lt (by omega)
    have whole : (1#1 ++ BitVec.ofNat 52 m).toNat = m := by
      rw [toNat_full, BitVec.toNat_ofNat]
      omega
    rw [if_pos (by omega), if_pos full]
    refine unpack_normal s pos (fun zero => ?_) (fun most => ?_) whole (by omega)
    · rw [zero] at stored
      change 0 = (e + 1075).toNat at stored
      omega
    · rw [most] at stored
      change 2047 = (e + 1075).toNat at stored
      omega
  · have high : m < 2 ^ 52 := (Nat.log2_lt (by omega)).1 (by omega)
    rw [if_neg (by omega), if_neg full]
    exact unpack_subnormal s pos (Nat.mod_eq_of_lt high)

/-- What is canonical is stored as it is. -/
theorem unpack_pack_of_canonical (s : Sign) (pos : 0 < m) (h : Canonical m e) :
    (Float.Model.pack (.finite s m e pos)).unpack = .finite s m e pos := by
  obtain ⟨least, same⟩ := h.exponent
  rw [unpack_pack s pos h.log2_le least, if_neg (by have := h.le; omega)]
  simp only [same]

theorem exactValue_neg (x : Float) : exactValue (-x) = (exactValue x).neg := by
  change (Float.Model.pack (exactValue x).neg).unpack = _
  cases read : exactValue x with
  | notANumber => rfl
  | infinity s => cases s <;> rfl
  | zero s => cases s <;> rfl
  | finite s m e pos => exact unpack_pack_of_canonical _ pos (canonical_of_unpack read)

theorem exactValue_abs {x : Float} {s : Sign} {pos : 0 < m} (h : exactValue x = .finite s m e pos) :
    exactValue x.abs = .finite .positive m e pos := by
  have abs : (exactValue x).abs = .finite .positive m e pos := by rw [h]; rfl
  change (Float.Model.pack (exactValue x).abs).unpack = _
  rw [abs]
  exact unpack_pack_of_canonical .positive pos (canonical_of_unpack h)

end Stored

section Rounding

open ExtendedMantissa

theorem mantissa_shiftRight (em : ExtendedMantissa) (k : Nat) :
    (em >>> k).mantissa = em.mantissa / 2 ^ k := by
  change (Nat.repeat shiftRightOne k em).mantissa = _
  induction k with
  | zero => simp [Nat.repeat]
  | succ k ih =>
    change (Nat.repeat shiftRightOne k em).mantissa / 2 = _
    rw [ih, Nat.div_div_eq_div_mul, pow_succ]

theorem mantissa_le_roundedMantissa (em : ExtendedMantissa) :
    em.mantissa ≤ em.roundedMantissa := by
  obtain ⟨m, round, sticky⟩ := em
  cases round <;> cases sticky <;>
    simp [roundedMantissa, accuracy, Accuracy.roundToNearestEven]

theorem mantissa_ofMantissaAndAccuracy (m : Nat) (a : Accuracy) :
    (ofMantissaAndAccuracy m a).mantissa = m := by
  cases a with
  | exact => rfl
  | inexact o => cases o <;> rfl

/-- A significand shifted to its exponent keeps its leading digit if that is worth something. -/
theorem shiftToTargetExponent_bounds {m : Nat} {e : Int} (pos : 0 < m) (worth : -1074 ≤ m.log2 + e)
    (a : Accuracy) :
    let shifted := shiftToTargetExponent .binary64 m e a
    0 < shifted.1.mantissa ∧ shifted.1.mantissa.log2 ≤ 52 ∧ -1074 ≤ shifted.2 := by
  intro shifted
  obtain ⟨k, amount⟩ : ∃ k, k = (max (totalExponent m e - 53) (-1074) - e).toNat := ⟨_, rfl⟩
  have mantissa : shifted.1.mantissa = m / 2 ^ k := by
    rw [amount]
    exact (mantissa_shiftRight _ _).trans
      (congrArg (· / _) (mantissa_ofMantissaAndAccuracy m a))
  have exponent : shifted.2 = e + k := by
    rw [amount]
    rfl
  rw [totalExponent] at amount
  have low : 2 ^ m.log2 ≤ m := Nat.log2_self_le (by omega)
  have high : m < 2 ^ (m.log2 + 1) := Nat.lt_log2_self
  have positive : 0 < m / 2 ^ k :=
    Nat.div_pos ((Nat.pow_le_pow_right (by decide) (by omega)).trans low) (Nat.two_pow_pos k)
  rw [mantissa, exponent]
  refine ⟨positive, ?_, by omega⟩
  have short : m / 2 ^ k < 2 ^ 53 := by
    rw [Nat.div_lt_iff_lt_mul (Nat.two_pow_pos k), ← Nat.pow_add]
    exact high.trans_le (Nat.pow_le_pow_right (by decide) (by omega))
  have := (Nat.log2_lt (by omega)).2 short
  omega

/-- What is at least the least positive number is not rounded to zero. -/
theorem exists_of_round (s : Sign) {m : Nat} {e : Int} (a : Accuracy) (pos : 0 < m)
    (worth : -1074 ≤ m.log2 + e) :
    ∃ m' e' pos', roundWithAccuracy .binary64 s m e a = .finite s m' e' pos' ∧
      m'.log2 ≤ 52 ∧ -1074 ≤ e' := by
  obtain ⟨first, -, least⟩ := shiftToTargetExponent_bounds pos worth a
  have rounded := first.trans_le (mantissa_le_roundedMantissa _)
  -- rounding up may have made the significand a digit longer, so it is shifted once more
  obtain ⟨last, short, least⟩ := shiftToTargetExponent_bounds
    (e := (shiftToTargetExponent .binary64 m e a).2) rounded (by omega) .exact
  exact ⟨_, _, last, dif_neg (Nat.ne_of_gt last), short, least⟩

/-- The sign of what is stored stays, and what is not zero stays so. -/
theorem hasSign_of_round (s : Sign) {m : Nat} {e : Int} (a : Accuracy) (pos : 0 < m)
    (worth : -1074 ≤ m.log2 + e) :
    HasSign s (Float.Model.pack (roundWithAccuracy .binary64 s m e a)).unpack := by
  obtain ⟨m', e', pos', rounded, short, least⟩ := exists_of_round s a pos worth
  rw [rounded, unpack_pack s pos' short least]
  split
  · exact .inl rfl
  · exact .inr ⟨_, _, _, rfl⟩

theorem isPositive_of_round {m : Nat} {e : Int} (a : Accuracy) (pos : 0 < m)
    (worth : -1074 ≤ m.log2 + e) :
    IsPositive (Float.Model.pack (roundWithAccuracy .binary64 .positive m e a)).unpack :=
  hasSign_of_round .positive a pos worth

end Rounding

section Whole

variable {n : Nat}

/-- The canonical form of a whole number. -/
theorem canonical_of_whole (pos : 0 < n) (small : n < 2 ^ 53) :
    Canonical (n * 2 ^ (52 - n.log2)) (-(52 - n.log2 : Nat)) := by
  have short : n.log2 < 53 := (Nat.log2_lt (by omega)).2 small
  refine ⟨?_, by omega⟩
  rw [targetExponent_eq, totalExponent, log2_mul_two_pow pos]
  omega

theorem ofNat_of_pos (pos : 0 < n) (small : n < 2 ^ 53) :
    ofNat .binary64 n = .finite .positive (n * 2 ^ (52 - n.log2)) (-(52 - n.log2 : Nat))
      (Nat.mul_pos pos (Nat.two_pow_pos _)) := by
  have short : n.log2 < 53 := (Nat.log2_lt (by omega)).2 small
  have target : Format.binary64.targetExponent (totalExponent n 0) = -(52 - n.log2 : Nat) := by
    rw [targetExponent_eq, totalExponent]
    omega
  have some : compare (n : Int) 0 = .gt := compare_gt_iff_gt.2 (by omega)
  have amount : (- -((52 - n.log2 : Nat) : Int)).toNat = 52 - n.log2 := by omega
  have rounded := round_of_canonical .positive (Nat.mul_pos pos (Nat.two_pow_pos _))
    (canonical_of_whole pos small) 0
  simp only [pow_zero, mul_one, Nat.cast_zero, sub_zero] at rounded
  unfold ofNat ofInt UnpackedFloat.normalize
  simp only [some, UnpackedFloat.round, Int.toNat_natCast, target, decreaseExponent, amount, Nat.shiftLeft_eq,
    zero_sub]
  exact rounded

/-- A whole number of at most 53 binary places is a machine number. -/
theorem exactValue_toFloat (pos : 0 < n) (small : n < 2 ^ 53) :
    exactValue n.toFloat = .finite .positive (n * 2 ^ (52 - n.log2)) (-(52 - n.log2 : Nat))
      (Nat.mul_pos pos (Nat.two_pow_pos _)) := by
  have word : n.toUInt64.toNat = n := by
    rw [Nat.toUInt64_eq, UInt64.toNat_ofNat', Nat.mod_eq_of_lt (by omega)]
  have one : (Float.ofBits 0x3FF0000000000000).toModel.unpack =
      .finite .positive (2 ^ 52) (-52) (Nat.two_pow_pos 52) := rfl
  have canonical := canonical_of_whole pos small
  have read : n.toFloat = .ofModel (.pack (mul .binary64
      (Float.Model.pack (ofNat .binary64 n)).unpack
      (.finite .positive (2 ^ 52) (-52) (Nat.two_pow_pos 52)))) := by
    rw [← one]
    unfold Nat.toFloat Float.ofNat OfScientific.ofScientific instOfScientificFloat
      Float.ofScientific
    dsimp only
    rw [dif_pos ⟨small, by decide⟩, if_neg (by decide)]
    change Float.ofModel (.pack (mul .binary64
      (Float.Model.pack (ofNat .binary64 n.toUInt64.toNat)).unpack _)) = _
    rw [word]
    rfl
  have product := round_of_canonical .positive (Nat.mul_pos pos (Nat.two_pow_pos _)) canonical 52
  rw [read, ofNat_of_pos pos small, unpack_pack_of_canonical _ _ canonical]
  change (Float.Model.pack (roundWithAccuracy .binary64 .positive _ (_ + -52) .exact)).unpack = _
  rw [← Int.sub_eq_add_neg]
  exact (congrArg (fun u => (Float.Model.pack u).unpack) product).trans
    (unpack_pack_of_canonical _ _ canonical)

end Whole

section Quotient

/-- A quotient has as many digits as the dividend has more than the divisor. -/
theorem two_pow_le_quotient {m₁ m₂ k d : Nat} (pos₁ : 0 < m₁) (pos₂ : 0 < m₂)
    (long : d + (m₂.log2 + 1) ≤ m₁.log2 + k) : 2 ^ d ≤ m₁ * 2 ^ k / m₂ := by
  have top : 2 ^ m₁.log2 ≤ m₁ := Nat.log2_self_le (by omega)
  have bottom : m₂ < 2 ^ (m₂.log2 + 1) := Nat.lt_log2_self
  rw [Nat.le_div_iff_mul_le pos₂]
  calc
    2 ^ d * m₂ ≤ 2 ^ d * 2 ^ (m₂.log2 + 1) := Nat.mul_le_mul_left _ bottom.le
    _ ≤ 2 ^ m₁.log2 * 2 ^ k := by
      rw [← Nat.pow_add, ← Nat.pow_add]
      exact Nat.pow_le_pow_right (by decide) long
    _ ≤ m₁ * 2 ^ k := Nat.mul_le_mul_right _ top

/-- The quotient of numbers is as long as their lengths differ, give or take a digit. -/
theorem divCore_bounds {m₁ m₂ : Nat} {e₁ e₂ : Int} (pos₁ : 0 < m₁) (pos₂ : 0 < m₂)
    (ratio : -1073 ≤ totalExponent m₁ e₁ - totalExponent m₂ e₂) :
    let q := divCore .binary64 m₁ e₁ m₂ e₂
    0 < q.1 ∧ -1074 ≤ q.1.log2 + q.2.1 := by
  intro q
  obtain ⟨t, target⟩ : ∃ t, t = min (e₁ - e₂) (Format.binary64.targetExponent
    (totalExponent m₁ e₁ - totalExponent m₂ e₂)) := ⟨_, rfl⟩
  obtain ⟨k, places⟩ : ∃ k, k = (e₁ - e₂ - t).toNat := ⟨_, rfl⟩
  have quotient : q.1 = m₁ * 2 ^ k / m₂ := by
    rw [← Nat.shiftLeft_eq, places, target]
    rfl
  have exponent : q.2.1 = t := target.symm
  rw [targetExponent_eq] at target
  simp only [totalExponent] at ratio target
  obtain ⟨d, length⟩ : ∃ d, m₁.log2 + k = d + (m₂.log2 + 1) :=
    ⟨m₁.log2 + k - (m₂.log2 + 1), by omega⟩
  have least : 2 ^ d ≤ m₁ * 2 ^ k / m₂ := two_pow_le_quotient pos₁ pos₂ length.ge
  have some : 0 < m₁ * 2 ^ k / m₂ := (Nat.two_pow_pos d).trans_le least
  have long : d ≤ (m₁ * 2 ^ k / m₂).log2 := (Nat.le_log2 (by omega)).2 least
  rw [quotient, exponent]
  exact ⟨some, by omega⟩

/-- A whole number divided by a positive number is positive, however large the divisor. -/
theorem isPositive_toFloat_div {n : Nat} {x : Float} {m : Nat} {e : Int} {pos : 0 < m} (some : 0 < n)
    (small : n < 2 ^ 53) (h : exactValue x = .finite .positive m e pos) :
    IsPositive (exactValue (n.toFloat / x)) := by
  have canonical : Canonical m e := canonical_of_unpack h
  have short := canonical.log2_le
  have least := canonical.le
  have ratio : -1073 ≤ totalExponent (n * 2 ^ (52 - n.log2)) (-(52 - n.log2 : Nat)) -
      totalExponent m e := by
    rw [totalExponent, totalExponent, log2_mul_two_pow some]
    omega
  obtain ⟨digits, worth⟩ := divCore_bounds (Nat.mul_pos some (Nat.two_pow_pos _)) pos ratio
  change IsPositive (Float.Model.pack (div .binary64 (exactValue n.toFloat) (exactValue x))).unpack
  rw [exactValue_toFloat some small, h]
  exact isPositive_of_round _ digits worth

theorem zero_lt_of_isPositive {x : Float} (h : IsPositive (exactValue x)) :
    (0 : UInt64).toFloat < x := by
  have zero : exactValue (0 : UInt64).toFloat = .zero .positive := rfl
  have less : (exactValue (0 : UInt64).toFloat).lt (exactValue x) = true := by
    rw [zero]
    rcases h with infinite | ⟨m, e, pos, finite⟩
    · rw [infinite]
      rfl
    · rw [finite]
      rfl
  exact decide_eq_true less

/-- Rounded up, a positive number is at least 1. -/
theorem one_le_ceilNat {x : Float} (h : IsPositive (exactValue x)) : 1 ≤ ceilNat x := by
  unfold ceilNat
  dsimp only
  by_cases small : x.toUInt64 = 0
  · rw [small, if_pos (zero_lt_of_isPositive h)]
    decide
  · have some : x.toUInt64.toNat ≠ 0 := fun zero => small (UInt64.toNat_inj.1 zero)
    have most : 1 ≤ maxCount := by decide
    split <;> omega

/-- What is finite and above zero has a positive exact value. -/
theorem exists_exactValue_of_pos {x : Float} (finite : x.isFinite = true) (above : ¬x ≤ (0 : Nat).toFloat) :
    ∃ m e pos, exactValue x = .finite .positive m e pos := by
  have zero : exactValue (0 : Nat).toFloat = .zero .positive := rfl
  have finite : (exactValue x).isFinite = true := finite
  have above : (exactValue x).le (exactValue (0 : Nat).toFloat) = false := by
    rw [← Bool.not_eq_true]
    exact fun le => above (decide_eq_true le)
  rw [zero] at above
  generalize exactValue x = v at finite above ⊢
  cases v with
  | infinity s => cases finite
  | notANumber => cases finite
  | zero s => cases above
  | finite s m e pos =>
    cases s with
    | positive => exact ⟨m, e, pos, rfl⟩
    | negative => cases above

end Quotient

end DomainColoring.Binary64
