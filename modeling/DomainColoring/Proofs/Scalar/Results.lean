import DomainColoring.Proofs.Scalar.Values

/-!
# Results are rounded once

An operation computes a significand that is cut off, with two bits that say what was cut. These describe
the exact result well enough: what is stored is the exact result rounded (`hasValue_round`), although
rounding takes two steps and a significand that becomes too long is shifted once more.
-/

namespace DomainColoring.Binary64

open Float.Model (Format UnpackedFloat totalExponent)
open Float.Model.UnpackedFloat

open ExtendedMantissa

/-- A significand that was cut off, with the half of its last place and whether anything is left after
that, describes the number it was cut from. -/
def Describes (em : ExtendedMantissa) (y : ℚ) : Prop :=
  ∃ rest : ℚ, y = em.mantissa + (if em.roundBit then 1 / 2 else 0) + rest ∧ 0 ≤ rest ∧
    rest < 1 / 2 ∧ (em.stickyBit = true ↔ 0 < rest)

variable {em : ExtendedMantissa} {x y : ℚ} {m k : Nat} {e : Int}

theorem describes_exact (m : Nat) : Describes (ofMantissaAndAccuracy m .exact) m :=
  ⟨0, by simp [ofMantissaAndAccuracy], le_rfl, by norm_num, by simp [ofMantissaAndAccuracy]⟩

/-- The quotient of natural numbers, described by the whole quotient and the remainder. -/
theorem describes_div {d : Nat} (pos : 0 < d) (n : Nat) :
    Describes (ofMantissaAndAccuracy (n / d) (accuracyOfFraction (n % d) d)) (n / d) := by
  have positive : (0 : ℚ) < d := Nat.cast_pos.2 pos
  have total : (n / d : ℚ) = (n / d : Nat) + (n % d : Nat) / d := by
    rw [div_eq_iff positive.ne', add_mul, div_mul_cancel₀ _ positive.ne']
    exact_mod_cast (Nat.div_add_mod' n d).symm
  have proper : ((n % d : Nat) : ℚ) < d := Nat.cast_lt.2 (Nat.mod_lt n pos)
  rw [total]
  generalize n / d = q
  generalize n % d = r at proper
  unfold accuracyOfFraction
  by_cases none : r = 0
  · rw [if_pos none, none, Nat.cast_zero, zero_div, add_zero]
    exact describes_exact q
  rw [if_neg none]
  have some : (0 : ℚ) < r := Nat.cast_pos.2 (Nat.pos_of_ne_zero none)
  rcases lt_trichotomy (2 * r) d with less | same | more
  · rw [compare_lt_iff_lt.2 less]
    have less : (2 * r : ℚ) < d := by exact_mod_cast less
    have small : (r / d : ℚ) < 1 / 2 := (div_lt_iff₀ positive).2 (by linarith)
    exact ⟨r / d, by simp [ofMantissaAndAccuracy], (div_pos some positive).le, small,
      iff_of_true rfl (div_pos some positive)⟩
  · rw [compare_eq_iff_eq.2 same]
    have same : (2 * r : ℚ) = d := by exact_mod_cast same
    have half : (r / d : ℚ) = 1 / 2 := (div_eq_iff positive.ne').2 (by linarith)
    exact ⟨0, by simp [ofMantissaAndAccuracy, half], le_rfl, by norm_num,
      by simp [ofMantissaAndAccuracy]⟩
  · rw [compare_gt_iff_gt.2 more]
    have more : (d : ℚ) < 2 * r := by exact_mod_cast more
    have large : (1 / 2 : ℚ) < r / d := (lt_div_iff₀ positive).2 (by linarith)
    have small : (r / d : ℚ) < 1 := (div_lt_one positive).2 proper
    exact ⟨r / d - 1 / 2, by simp only [ofMantissaAndAccuracy, if_true]; ring, by linarith,
      by linarith, iff_of_true rfl (by linarith)⟩

theorem Describes.shiftRightOne (h : Describes em y) : Describes (shiftRightOne em) (y / 2) := by
  obtain ⟨rest, total, nonneg, small, sticky⟩ := h
  obtain ⟨m, round, more⟩ := em
  have halves : (m : ℚ) = 2 * (m / 2 : Nat) + (m % 2 : Nat) := by
    exact_mod_cast (Nat.div_add_mod m 2).symm
  -- what was the half of the last place becomes a part of what is left
  refine ⟨(if round then 1 / 4 else 0) + rest / 2, ?total, ?nonneg, ?small, ?sticky⟩
  case total =>
    simp only [ExtendedMantissa.shiftRightOne, total, halves]
    rcases m.mod_two_eq_zero_or_one with last | last <;> cases round <;> simp [last] <;> ring
  case nonneg => split_ifs <;> linarith
  case small => split_ifs <;> linarith
  case sticky =>
    cases round
    · simpa [ExtendedMantissa.shiftRightOne] using sticky
    · refine iff_of_true rfl ?_
      rw [if_pos rfl]
      linarith

theorem Describes.shiftRight (h : Describes em y) (k : Nat) : Describes (em >>> k) (y / 2 ^ k) := by
  change Describes (Nat.repeat ExtendedMantissa.shiftRightOne k em) _
  induction k with
  | zero => simpa [Nat.repeat] using h
  | succ k ih =>
    rw [pow_succ, ← div_div]
    exact ih.shiftRightOne

theorem Describes.bounds (h : Describes em y) : (em.mantissa : ℚ) ≤ y ∧ y < em.mantissa + 1 := by
  obtain ⟨rest, total, nonneg, small, -⟩ := h
  split_ifs at total <;> constructor <;> linarith

/-- Rounding a cut significand rounds the number that it was cut from. -/
theorem Describes.roundedMantissa_eq (h : Describes em y) : em.roundedMantissa = roundEven y := by
  obtain ⟨low, high⟩ := h.bounds
  have floor : ⌊y⌋₊ = em.mantissa :=
    (Nat.floor_eq_iff (em.mantissa.cast_nonneg.trans low)).2 ⟨low, high⟩
  obtain ⟨rest, total, nonneg, small, sticky⟩ := h
  obtain ⟨m, round, more⟩ := em
  unfold roundEven
  rw [floor]
  cases round with
  | false =>
    have under : 2 * (y - m) < 1 := by
      rw [if_neg Bool.false_ne_true] at total
      linarith
    rw [if_pos under]
    cases more <;> rfl
  | true =>
    rw [if_pos rfl] at total
    have reached : ¬2 * (y - m) < 1 := by linarith
    rw [if_neg reached]
    cases more with
    | false =>
      have nothing : ¬0 < rest := fun some => Bool.false_ne_true (sticky.2 some)
      have tie : 2 * (y - m) = 1 := by linarith
      rw [if_pos tie]
      rfl
    | true =>
      have above : 2 * (y - m) ≠ 1 := by linarith [sticky.1 rfl]
      rw [if_neg above]
      rfl

/-- The exponent that a cut significand is shifted to is that of the last place of the number. -/
theorem Describes.targetExponent_eq {a : Accuracy} (pos : 0 < x)
    (h : Describes (ofMantissaAndAccuracy m a) (x / 2 ^ e)) (wide : 52 ≤ m.log2 ∨ e ≤ -1074) :
    Format.binary64.targetExponent (totalExponent m e) = lastPlace x ∧ e ≤ lastPlace x := by
  obtain ⟨low, high⟩ := h.bounds
  rw [mantissa_ofMantissaAndAccuracy] at low high
  have unit := two_zpow_pos e
  rw [Binary64.targetExponent_eq, totalExponent, lastPlace]
  rcases m.eq_zero_or_pos with rfl | some
  · -- nothing is left before the last place, which is therefore the lowest
    have below : x < 2 ^ e := by
      rwa [Nat.cast_zero, zero_add, div_lt_one unit] at high
    have log := (Int.lt_zpow_iff_log_lt one_lt_two pos).1 (by exact_mod_cast below)
    rw [Nat.log2_zero] at wide ⊢
    omega
  · have first : (2 : ℚ) ^ m.log2 ≤ m := by exact_mod_cast Nat.log2_self_le (Nat.ne_of_gt some)
    have last : (m + 1 : ℚ) ≤ 2 ^ (m.log2 + 1) := by exact_mod_cast Nat.lt_log2_self
    have log : Int.log 2 x = m.log2 + e := by
      refine log_of_bounds ?_ ?_
      · rw [two_zpow_add, zpow_natCast]
        exact (le_div_iff₀ unit).1 (first.trans low)
      · rw [add_right_comm, two_zpow_add, ← Nat.cast_succ, zpow_natCast]
        exact (div_lt_iff₀ unit).1 (high.trans_le last)
    rw [log]
    omega

theorem hasValue_pack_zero (s : Sign) : HasValue (Float.Model.pack (.zero s)).unpack (0 : ℚ) := by
  cases s <;> exact .zero _

/-- What has a full significand, or the lowest exponent, is stored as it is unless it is too large. -/
theorem hasValue_pack (pos : 0 < m) (short : m < 2 ^ 53) (least : -1074 ≤ e)
    (full : -1074 < e → 2 ^ 52 ≤ m) :
    HasValue (Float.Model.pack (.finite .positive m e pos)).unpack
      (if (m * 2 ^ e : ℚ) < 2 ^ (1024 : ℤ) then (m * 2 ^ e : ℚ) else ⊤) := by
  have unpacked := unpack_pack .positive pos (e := e) (by have := (Nat.log2_lt (by omega)).2 short; omega)
    least
  by_cases tooLarge : 971 < e
  · have most : (2 : ℚ) ^ 52 ≤ m := by exact_mod_cast full (by omega)
    have large : (2 : ℚ) ^ (1024 : ℤ) ≤ m * 2 ^ e := calc
      (2 : ℚ) ^ (1024 : ℤ) = 2 ^ 52 * 2 ^ (972 : ℤ) := by
        rw [← zpow_natCast, ← two_zpow_add]
        rfl
      _ ≤ m * 2 ^ e := mul_le_mul most (zpow_le_zpow_right₀ one_le_two tooLarge)
        (two_zpow_pos _).le (Nat.cast_nonneg m)
    rw [unpacked, if_pos tooLarge, if_neg large.not_gt]
    exact .infinity
  · have small : (m * 2 ^ e : ℚ) < 2 ^ (1024 : ℤ) := mul_two_zpow_lt short (not_lt.1 tooLarge)
    have same : (if m.log2 = 52 then e else -1074) = e := by
      split_ifs with long
      · rfl
      · have notFull : ¬2 ^ 52 ≤ m := fun most => long (log2_full most short)
        omega
    rw [if_neg tooLarge, same] at unpacked
    rw [unpacked, if_pos small]
    exact .finite (canonical_of_unpack unpacked)

theorem shiftToTargetExponent_of_short (short : m < 2 ^ 53) (least : -1074 ≤ e) :
    shiftToTargetExponent .binary64 m e .exact = (⟨m, false, false⟩, e) := by
  have length : m.log2 ≤ 52 := by
    rcases m.eq_zero_or_pos with rfl | pos
    · decide
    · have := (Nat.log2_lt (Nat.ne_of_gt pos)).2 short
      omega
  have amount : (Format.binary64.targetExponent (totalExponent m e) - e).toNat = 0 := by
    rw [Binary64.targetExponent_eq, totalExponent]
    omega
  rw [shiftToTargetExponent, shiftToExponent, amount, Nat.cast_zero, add_zero]
  rfl

/-- A significand that became too long by rounding is shifted once more. -/
theorem shiftToTargetExponent_of_long (least : -1074 ≤ e) :
    shiftToTargetExponent .binary64 (2 ^ 53) e .exact = (⟨2 ^ 52, false, false⟩, e + 1) := by
  have amount : (Format.binary64.targetExponent (totalExponent (2 ^ 53) e) - e).toNat = 1 := by
    rw [Binary64.targetExponent_eq, totalExponent, Nat.log2_two_pow]
    omega
  rw [shiftToTargetExponent, shiftToExponent, amount]
  rfl

/-- A rounded significand is stored with its exponent, also if rounding made it too long. -/
theorem hasValue_carried (most : m ≤ 2 ^ 53) (least : -1074 ≤ e) (full : -1074 < e → 2 ^ 52 ≤ m) :
    let shifted := shiftToTargetExponent .binary64 m e .exact
    HasValue (Float.Model.pack (if h : shifted.1.mantissa = 0 then .zero .positive
        else .finite .positive shifted.1.mantissa shifted.2 (Nat.pos_of_ne_zero h))).unpack
      (if (m * 2 ^ e : ℚ) < 2 ^ (1024 : ℤ) then (m * 2 ^ e : ℚ) else ⊤) := by
  rcases most.lt_or_eq with short | rfl
  · rw [shiftToTargetExponent_of_short short least]
    dsimp only
    rcases m.eq_zero_or_pos with rfl | some
    · have small : ((0 : Nat) * 2 ^ e : ℚ) < 2 ^ (1024 : ℤ) := by
        rw [Nat.cast_zero, zero_mul]
        exact two_zpow_pos _
      rw [dif_pos rfl, if_pos small, Nat.cast_zero, zero_mul]
      exact .zero .positive
    · rw [dif_neg (Nat.ne_of_gt some)]
      exact hasValue_pack some short least full
  · rw [shiftToTargetExponent_of_long least]
    dsimp only
    rw [dif_neg (Nat.ne_of_gt (Nat.two_pow_pos 52))]
    have same : ((2 ^ 53 : Nat) * 2 ^ e : ℚ) = (2 ^ 52 : Nat) * 2 ^ (e + 1) := by
      rw [two_zpow_add]
      push_cast
      ring
    rw [same]
    exact hasValue_pack (by norm_num) (by norm_num) (by omega) fun _ => le_rfl

/-- A result is stored as the number that it was cut from, rounded. -/
theorem hasValue_round {a : Accuracy} (pos : 0 < x)
    (h : Describes (ofMantissaAndAccuracy m a) (x / 2 ^ e)) (wide : 52 ≤ m.log2 ∨ e ≤ -1074) :
    HasValue (Float.Model.pack (roundWithAccuracy .binary64 .positive m e a)).unpack (stored x) := by
  obtain ⟨target, le⟩ := h.targetExponent_eq pos wide
  obtain ⟨s, amount⟩ : ∃ s : Nat, lastPlace x = e + s := ⟨(lastPlace x - e).toNat, by omega⟩
  have distance : (lastPlace x - e).toNat = s := by omega
  have shifted : shiftToTargetExponent .binary64 m e a =
      (ofMantissaAndAccuracy m a >>> s, lastPlace x) := by
    rw [shiftToTargetExponent, target, shiftToExponent, distance, amount]
  have places : (ofMantissaAndAccuracy m a >>> s).roundedMantissa = roundEven (x / 2 ^ lastPlace x) := by
    rw [(h.shiftRight s).roundedMantissa_eq, div_div, ← zpow_natCast, ← two_zpow_add, amount]
  have full : -1074 < lastPlace x → 2 ^ 52 ≤ roundEven (x / 2 ^ lastPlace x) := fun above => by
    have long := roundEven_mono (by norm_num) (le_div_lastPlace pos above)
    exact le_trans (by exact_mod_cast (roundEven_natCast (2 ^ 52)).ge) long
  have carried := hasValue_carried (roundEven_le pos.le) (neg_le_lastPlace x) full
  simp only [roundWithAccuracy, shifted, places]
  exact carried

/-- A result that is given exactly is stored rounded, whatever exponent it is given with. -/
theorem hasValue_round_exact {m : Nat} (e : Int) (pos : 0 < m) :
    HasValue (Float.Model.pack (round .binary64 .positive m e)).unpack (stored (m * 2 ^ e)) := by
  obtain ⟨s, places⟩ : ∃ s : Nat, s = (e - Format.binary64.targetExponent
    (totalExponent m e)).toNat := ⟨_, rfl⟩
  have lowered : round .binary64 .positive m e =
      roundWithAccuracy .binary64 .positive (m * 2 ^ s) (e - s) .exact := by
    simp only [UnpackedFloat.round, decreaseExponent, ← places, Nat.shiftLeft_eq]
  rw [lowered]
  refine hasValue_round (mul_pos (Nat.cast_pos.2 pos) (two_zpow_pos e)) ?_ ?_
  · have exact : (m * 2 ^ e / 2 ^ (e - s) : ℚ) = (m * 2 ^ s : Nat) := by
      rw [div_eq_iff (two_zpow_pos _).ne', mul_two_pow_mul]
    rw [exact]
    exact describes_exact _
  · rw [Binary64.targetExponent_eq, totalExponent] at places
    rw [log2_mul_two_pow pos]
    omega

/-- A result that is given with its sign, if it is not below zero. -/
theorem hasValue_normalize {n : Int} (e : Int) (nonneg : 0 ≤ n) :
    HasValue (Float.Model.pack (normalize .binary64 n e .positive)).unpack (stored (n * 2 ^ e)) := by
  obtain ⟨m, rfl⟩ := Int.eq_ofNat_of_zero_le nonneg
  rw [Int.cast_natCast]
  unfold UnpackedFloat.normalize
  rcases m.eq_zero_or_pos with rfl | pos
  · have none : ((0 : Nat) * 2 ^ e : ℚ) = 0 := by rw [Nat.cast_zero, zero_mul]
    have equal : compare ((0 : Nat) : ℤ) 0 = .eq := rfl
    rw [none, stored_zero, equal]
    exact hasValue_pack_zero .positive
  · have above : compare (m : ℤ) 0 = .gt := compare_gt_iff_gt.2 (Int.natCast_pos.2 pos)
    rw [above]
    exact hasValue_round_exact e pos

end DomainColoring.Binary64
