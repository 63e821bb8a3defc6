import DomainColoring.Complex.Power
import DomainColoring.Proofs.Complex.Exact

/-!
# Powers

Repeated squaring gives the product of as many copies as the exponent says, or its reciprocal, for every
machine integer. With exact numbers a power is `exp (w · log a)` for every exponent, so it does not show
that small integers go another way (`powers_agree`). Of the exponential function and the logarithm this
needs three laws only (`ExpLog`).
-/

namespace DomainColoring.Complex

/-- The product of `k` copies of a number. -/
def copies {α : Type} [Scalar α] (a : Complex α) : Nat → Complex α
  | 0 => one
  | k + 1 => copies a k * a

section Repeated

open scoped Scalar.Exact

theorem toNumber_copies (a : Complex ℝ) (k : Nat) : toNumber (a.copies k) = toNumber a ^ k := by
  induction k with
  | zero => simp [copies]
  | succ k ih => rw [copies, toNumber_mul, ih, pow_succ]

/-- Each turn of the loop keeps the product of `acc` with the power that is left to multiply. -/
theorem toNumber_powAcc (acc base : Complex ℝ) (n : Nat) :
    toNumber (powAcc acc base n) = toNumber acc * toNumber base ^ n := by
  fun_induction powAcc acc base n with
  | case1 acc base => simp
  | case2 acc base n some ih =>
    have halves : 2 * (n / 2) + n % 2 = n := Nat.div_add_mod n 2
    simp only [dite_eq_ite] at ih
    rw [ih, toNumber_mul, ← sq, ← pow_mul]
    split_ifs with odd
    · rw [odd] at halves
      rw [toNumber_mul, mul_assoc, ← pow_succ', halves]
    · have even : 2 * (n / 2) = n := by omega
      rw [even]

/-- Positive and negative powers, and those of zero too. -/
theorem toNumber_powInt (a : Complex ℝ) (n : ℤ) : toNumber (a.powInt n) = toNumber a ^ n := by
  have power : toNumber (powAcc one a n.natAbs) = toNumber a ^ n.natAbs := by
    rw [toNumber_powAcc, toNumber_one, one_mul]
  unfold powInt
  dsimp only
  cases n with
  | ofNat k =>
    have nonneg : ¬Int.ofNat k < 0 := (Int.natCast_nonneg k).not_gt
    rw [if_neg nonneg, power]
    exact (zpow_natCast _ k).symm
  | negSucc k =>
    rw [if_pos (Int.negSucc_lt_zero k), toNumber_div, toNumber_one, power, one_div, zpow_negSucc]
    rfl

theorem toNumber_intCast (n : ℤ) : toNumber ⟨n, 0⟩ = n :=
  Complex.ext (Complex.intCast_re n).symm (Complex.intCast_im n).symm

/-- By the laws of the exponential function alone, integer multiples of a logarithm give integer
powers. -/
theorem toNumber_exp_mul_log {exp log : Complex ℝ → Complex ℝ}
    (exp_add : ∀ a b, exp (a + b) = exp a * exp b) (exp_zero : exp zero = one) {a : Complex ℝ}
    (exp_log : exp (log a) = a) (n : ℤ) : toNumber (exp (⟨n, 0⟩ * log a)) = toNumber a ^ n := by
  have sum (m n : ℤ) : toNumber (exp (⟨(m + n : ℤ), 0⟩ * log a)) =
      toNumber (exp (⟨m, 0⟩ * log a)) * toNumber (exp (⟨n, 0⟩ * log a)) := by
    have distributed : (⟨(m + n : ℤ), 0⟩ * log a : Complex ℝ) = ⟨m, 0⟩ * log a + ⟨n, 0⟩ * log a :=
      toNumber_injective (by
        rw [toNumber_add, toNumber_mul, toNumber_mul, toNumber_mul, toNumber_intCast, toNumber_intCast,
          toNumber_intCast, Int.cast_add, add_mul])
    rw [distributed, exp_add, toNumber_mul]
  have none : toNumber (exp (⟨(0 : ℤ), 0⟩ * log a)) = 1 := by
    have zero : (⟨(0 : ℤ), 0⟩ * log a : Complex ℝ) = zero :=
      toNumber_injective (by rw [toNumber_mul, toNumber_intCast, Int.cast_zero, zero_mul, toNumber_zero])
    rw [zero, exp_zero, toNumber_one]
  have once : toNumber (exp (⟨(1 : ℤ), 0⟩ * log a)) = toNumber a := by
    have one : (⟨(1 : ℤ), 0⟩ * log a : Complex ℝ) = log a :=
      toNumber_injective (by rw [toNumber_mul, toNumber_intCast, Int.cast_one, one_mul])
    rw [one, exp_log]
  have some : toNumber a ≠ 0 := by
    have reciprocal := sum 1 (-1)
    rw [add_neg_cancel, none, once] at reciprocal
    exact left_ne_zero_of_mul (reciprocal ▸ one_ne_zero)
  induction n with
  | zero => rw [none, zpow_zero]
  | succ k ih => rw [sum, once, ih, zpow_add_one₀ some]
  | pred k ih =>
    have step := sum (-k - 1) 1
    rw [sub_add_cancel, ih, once] at step
    rw [zpow_sub_one₀ some, step, mul_inv_cancel_right₀ some]

section MachineInteger

variable {a : Complex ℝ} {n : Int32}

theorem powInt32_of_nonneg (nonneg : 0 ≤ n) : a.powInt32 n = a.copies n.toInt.natAbs := by
  have nonneg : 0 ≤ n.toInt := Int32.le_iff_toInt_le.1 nonneg
  apply toNumber_injective
  rw [powInt32_eq_powInt, toNumber_powInt, toNumber_copies, ← zpow_natCast, Int.natAbs_of_nonneg nonneg]

theorem powInt32_mul_copies (negative : n < 0) (some : a.isZero = false) :
    a.powInt32 n * a.copies n.toInt.natAbs = one := by
  have negative : n.toInt < 0 := Int32.lt_iff_toInt_lt.1 negative
  have some : toNumber a ≠ 0 := by
    rwa [ne_eq, toNumber_eq_zero_iff, ← isZero_iff, Bool.not_eq_true]
  apply toNumber_injective
  rw [toNumber_mul, powInt32_eq_powInt, toNumber_powInt, toNumber_copies, ← zpow_natCast,
    Int.ofNat_natAbs_of_nonpos negative.le, ← zpow_add₀ some, add_neg_cancel, zpow_zero, toNumber_one]

end MachineInteger

/-- The exponents for repeated multiplication. -/
theorem isSmallInteger_iff {w : Complex ℝ} :
    w.isSmallInteger = true ↔ ∃ n : ℤ, w = ⟨n, 0⟩ ∧ -64 ≤ n ∧ n ≤ 64 := by
  obtain ⟨re, im⟩ := w
  have unfolded : isSmallInteger ⟨re, im⟩ = (im == ((0 : Nat) : ℝ) && Scalar.fract re == ((0 : Nat) : ℝ) &&
      decide (-((64 : Nat) : ℝ) ≤ re) && decide (re ≤ ((64 : Nat) : ℝ))) := rfl
  rw [unfolded]
  simp only [Bool.and_eq_true, beq_iff_eq, decide_eq_true_eq, Nat.cast_zero, mk.injEq]
  constructor
  · rintro ⟨⟨⟨none, whole⟩, least⟩, most⟩
    obtain ⟨n, rfl⟩ := Scalar.exists_intCast_of_fract whole
    exact ⟨n, ⟨rfl, none⟩, by exact_mod_cast least, by exact_mod_cast most⟩
  · rintro ⟨n, ⟨rfl, none⟩, least, most⟩
    exact ⟨⟨⟨none, Scalar.fract_intCast n⟩, by exact_mod_cast least⟩, by exact_mod_cast most⟩

/-- A small integer is one of the machine integers. -/
theorem exists_of_isSmallInteger {w : Complex ℝ} (small : w.isSmallInteger = true) :
    ∃ n : Int32, w = ⟨n.toInt, 0⟩ ∧ Scalar.toInt w.re = n.toInt := by
  obtain ⟨n, rfl, least, most⟩ := isSmallInteger_iff.1 small
  have stored : (Int32.ofInt n).toInt = n := Int32.toInt_ofInt_of_le (by omega) (by omega)
  refine ⟨Int32.ofInt n, by rw [stored], ?_⟩
  rw [stored]
  exact Scalar.toInt_intCast n

end Repeated

/-- What a power by way of the logarithm relies on. -/
structure ExpLog [Elementary ℝ] : Prop where
  exp_add : ∀ a b : Complex ℝ, exp (a + b) = exp a * exp b
  exp_zero : exp (zero : Complex ℝ) = one
  exp_log : ∀ a : Complex ℝ, a.isZero = false → exp (log a) = a

/-- With exact numbers, whatever the elementary functions are: a power by a machine integer is the product
of as many copies as the integer says, or gives one when it is multiplied with that product. If the
exponential function and the logarithm obey their laws, every power of a number that is not zero is
`exp (w · log a)`, also where the exponent is a small integer and the power a repeated product. Zero has
power zero for all exponents. -/
theorem powers_agree (E : Elementary ℝ) :
    letI := E.overReals
    (∀ (a : Complex ℝ) (n : Int32),
      (0 ≤ n → a.powInt32 n = a.copies n.toInt.natAbs) ∧
      (n < 0 → a.isZero = false → a.powInt32 n * a.copies n.toInt.natAbs = one)) ∧
    (∀ a w : Complex ℝ, a.isZero = false → w.isSmallInteger = true →
      ∃ n : Int32, w = ⟨n.toInt, 0⟩ ∧ a.pow w = a.powInt32 n) ∧
    (ExpLog → ∀ a w : Complex ℝ, a.isZero = false → a.pow w = exp (w * log a)) ∧
    ∀ w : Complex ℝ, (zero : Complex ℝ).pow w = zero := by
  let exact : Elementary ℝ := E.overReals
  have small : ∀ a w : Complex ℝ, a.isZero = false → w.isSmallInteger = true →
      ∃ n : Int32, w = ⟨n.toInt, 0⟩ ∧ a.pow w = a.powInt32 n := by
    intro a w some small
    obtain ⟨n, rfl, integer⟩ := exists_of_isSmallInteger small
    refine ⟨n, rfl, ?_⟩
    rw [pow, some, if_neg Bool.false_ne_true, if_pos small, powInt32_eq_powInt]
    exact congrArg a.powInt integer
  refine ⟨fun a n => ⟨powInt32_of_nonneg, powInt32_mul_copies⟩, small, ?general, fun w => ?zero⟩
  case general =>
    intro laws a w some
    by_cases integer : w.isSmallInteger = true
    · obtain ⟨n, rfl, power⟩ := small a w some integer
      apply toNumber_injective
      rw [power, powInt32_eq_powInt]
      exact (toNumber_powInt a n.toInt).trans
        (toNumber_exp_mul_log laws.exp_add laws.exp_zero (laws.exp_log a some) n.toInt).symm
    · rw [pow, some, if_neg Bool.false_ne_true, if_neg integer]
  case zero =>
    rw [pow, if_pos ((isZero_iff zero).2 rfl)]

/-- The usual functions obey the laws. -/
theorem expLog_ofReal (log1p : ℝ → ℝ) : @ExpLog (Elementary.ofReal log1p) := by
  let usual : Elementary ℝ := Elementary.ofReal log1p
  refine { exp_add := fun a b => ?_, exp_zero := ?_, exp_log := fun a some => ?_ }
  all_goals apply toNumber_injective
  · rw [toNumber_mul, toNumber_exp, toNumber_exp, toNumber_exp, toNumber_add, Complex.exp_add]
  · rw [toNumber_exp, toNumber_zero, toNumber_one, Complex.exp_zero]
  · have some : toNumber a ≠ 0 := by
      rwa [ne_eq, toNumber_eq_zero_iff, ← isZero_iff, Bool.not_eq_true]
    rw [toNumber_exp, toNumber_log, Complex.exp_log some]

/-- Twice the imaginary unit, with the least machine integer and with the exponent -3. -/
theorem powers_agree_leastInteger :
    let E : Elementary ℝ := Elementary.ofReal fun x => Real.log (1 + x)
    letI := E.overReals
    let a : Complex ℝ := ⟨0, 2⟩
    let w : Complex ℝ := ⟨(-3 : ℤ), 0⟩
    (a.isZero = false ∧ w.isSmallInteger = true ∧ ExpLog) ∧
      a.powInt32 Int32.minValue * a.copies (2 ^ 31) = one ∧ a.pow w = exp (w * log a) := by
  intro E a w
  obtain ⟨integers, -, general, -⟩ := powers_agree E
  have some : @isZero ℝ E.overReals.toScalar a = false := by
    rw [← Bool.not_eq_true]
    intro zero
    have im : (2 : ℝ) = ((0 : Nat) : ℝ) := congrArg Complex.im ((isZero_iff a).1 zero)
    norm_num at im
  have small : @isSmallInteger ℝ E.overReals.toScalar w = true :=
    isSmallInteger_iff.2 ⟨-3, rfl, by norm_num, by norm_num⟩
  have laws : @ExpLog E.overReals := expLog_ofReal _
  exact ⟨⟨some, small, laws⟩, (integers a Int32.minValue).2 (by decide) some, general laws a w some⟩

end DomainColoring.Complex
