import DomainColoring.Proofs.Scalar.Reals

/-!
# Exact complex numbers

Over the real numbers the pairs of this library are the complex numbers: products and quotients are those
of `ℂ`, a quotient by zero included, and the exponential function and the logarithm are the usual ones.
-/

namespace DomainColoring.Scalar.Exact

/-- The real numbers as scalars. -/
noncomputable scoped instance : Scalar ℝ := ofField ℝ

end Scalar.Exact

namespace Complex

/-- The complex number that a pair of real numbers stands for. -/
def toNumber (a : Complex ℝ) : ℂ := ⟨a.re, a.im⟩

theorem toNumber_injective : Function.Injective toNumber := fun a b same => by
  obtain ⟨re, im⟩ := Complex.ext_iff.1 same
  cases a
  cases b
  exact congrArg₂ Complex.mk re im

section Arithmetic

open scoped Scalar.Exact

variable (a b : Complex ℝ)

@[simp]
theorem toNumber_real (n : Nat) : toNumber (real (Scalar.ofNat n)) = n := by
  apply Complex.ext
  · rfl
  · exact Nat.cast_zero

@[simp]
theorem toNumber_zero : toNumber zero = 0 := (toNumber_real 0).trans Nat.cast_zero

@[simp]
theorem toNumber_one : toNumber one = 1 := (toNumber_real 1).trans Nat.cast_one

@[simp]
theorem toNumber_add : toNumber (a + b) = toNumber a + toNumber b := rfl

@[simp]
theorem toNumber_mul : toNumber (a * b) = toNumber a * toNumber b := rfl

/-- A quotient by zero is zero here and in `ℂ`. -/
@[simp]
theorem toNumber_div : toNumber (a / b) = toNumber a / toNumber b := by
  have unfolded : a / b =
      if normSq b == ((0 : Nat) : ℝ) then ⟨0, 0⟩
      else ⟨(a.re * b.re + a.im * b.im) / normSq b, (a.im * b.re - a.re * b.im) / normSq b⟩ := rfl
  rw [unfolded]
  split_ifs with none
  · have zero : toNumber b = 0 := by
      rw [← Complex.normSq_eq_zero, Complex.normSq_apply]
      simpa [normSq, toNumber] using none
    rw [zero, div_zero]
    rfl
  · apply Complex.ext
    · rw [Complex.div_re, Complex.normSq_apply, ← add_div]
      rfl
    · rw [Complex.div_im, Complex.normSq_apply, ← sub_div]
      rfl

theorem toNumber_eq_zero_iff : toNumber a = 0 ↔ a = zero := by
  rw [← toNumber_zero, toNumber_injective.eq_iff]

theorem isZero_iff : a.isZero = true ↔ a = zero := by
  obtain ⟨x, y⟩ := a
  have unfolded : isZero ⟨x, y⟩ = (x == ((0 : Nat) : ℝ) && y == ((0 : Nat) : ℝ)) := rfl
  rw [unfolded, Bool.and_eq_true, beq_iff_eq, beq_iff_eq]
  exact mk.injEq x y _ _ ▸ Iff.rfl

end Arithmetic

section Functions

variable (log1p : ℝ → ℝ) (a : Complex ℝ)

theorem toNumber_exp : toNumber (@exp ℝ (Elementary.ofReal log1p) a) = (toNumber a).exp :=
  Complex.ext (Complex.exp_re (toNumber a)).symm (Complex.exp_im (toNumber a)).symm

theorem toNumber_log : toNumber (@log ℝ (Elementary.ofReal log1p) a) = (toNumber a).log := by
  apply Complex.ext
  · rw [Complex.log_re, Complex.norm_eq_sqrt_sq_add_sq]
    rfl
  · rw [Complex.log_im]
    rfl

end Functions

end Complex

end DomainColoring
