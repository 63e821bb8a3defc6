import DomainColoring.Complex
import DomainColoring.Proofs.Scalar.Exact
import Mathlib

/-!
# Real numbers

The real numbers as scalars with the elementary functions. Only the logarithm that brightness is
computed with is left open: what is proved of colours holds for every function in its place.
-/

namespace DomainColoring

/-- The real numbers with their elementary functions, and with any function for `log1p`. -/
noncomputable abbrev Elementary.ofReal (log1p : ℝ → ℝ) : Elementary ℝ where
  toScalar := Scalar.ofField ℝ
  pi := Real.pi
  sqrt := Real.sqrt
  exp := Real.exp
  log := Real.log
  log1p := log1p
  sin := Real.sin
  cos := Real.cos
  sinh := Real.sinh
  cosh := Real.cosh
  pow x y := x ^ y
  hypot x y := √(x ^ 2 + y ^ 2)
  atan2 y x := (⟨x, y⟩ : ℂ).arg

/-- Any elementary functions on the real numbers, with exact arithmetic. -/
noncomputable abbrev Elementary.overReals (E : Elementary ℝ) : Elementary ℝ :=
  { E with toScalar := Scalar.ofField ℝ }

@[simp]
theorem Elementary.log1p_ofReal (log1p : ℝ → ℝ) :
    @Elementary.log1p ℝ (Elementary.ofReal log1p) = log1p := rfl

/-- The logarithm itself is one of the functions that do not decrease. -/
theorem Elementary.log_one_add_mono : MonotoneOn (fun x : ℝ => Real.log (1 + x)) (Set.Ici 0) := by
  intro x nonneg y _ le
  have positive : 0 < 1 + x := add_pos_of_pos_of_nonneg one_pos nonneg
  exact Real.log_le_log positive (by linarith)

namespace Complex

variable (log1p : ℝ → ℝ)

theorem norm_nonneg_ofReal (a : Complex ℝ) : 0 ≤ @norm ℝ (Elementary.ofReal log1p) a :=
  Real.sqrt_nonneg _

section PositiveAxis

variable {x : ℝ} (nonneg : 0 ≤ x)

include nonneg

theorem norm_real_ofReal : @norm ℝ (Elementary.ofReal log1p) ⟨x, 0⟩ = x := by
  change √(x ^ 2 + 0 ^ 2) = x
  rw [zero_pow two_ne_zero, add_zero, Real.sqrt_sq nonneg]

theorem arg_real_ofReal : @arg ℝ (Elementary.ofReal log1p) ⟨x, 0⟩ = 0 :=
  Complex.arg_ofReal_of_nonneg nonneg

end PositiveAxis

end Complex

end DomainColoring
