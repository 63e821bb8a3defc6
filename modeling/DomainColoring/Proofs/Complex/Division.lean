import DomainColoring.Complex
import DomainColoring.Proofs.Scalar.Squares

/-!
# Division and small divisors

Whether a machine division is one by zero is decided by the rounded squared modulus of the divisor. So it is
one not only for zero but also for every divisor whose components both have squares of at most half the
least positive number (`quotient?_eq_none_iff`): such a divisor is taken for zero although it is not
(`quotient?_faint`).
-/

namespace DomainColoring.Complex

open Binary64 (value exists_hasSigned value_eq_of_hasSigned beq_iff_of_hasSigned)

/-- The quotient, unless the division is one by zero. -/
def quotient? {α : Type} [Scalar α] (a b : Complex α) : Option (Complex α) :=
  if normSq b == Scalar.ofNat 0 then none
  else some ⟨(a.re * b.re + a.im * b.im) / normSq b, (a.im * b.re - a.re * b.im) / normSq b⟩

theorem div_eq_getD {α : Type} [Scalar α] (a b : Complex α) :
    a / b = (a.quotient? b).getD singularity := by
  change (if normSq b == Scalar.ofNat 0 then singularity else _) = _
  unfold quotient?
  split_ifs <;> rfl

/-- Both components have squares that are rounded to zero. -/
structure Faint (b : Complex Float) : Prop where
  re : value b.re * value b.re ≤ 2 ^ (-1075 : ℤ)
  im : value b.im * value b.im ≤ 2 ^ (-1075 : ℤ)

section Divisor

variable {b : Complex Float} (finite : b.isFinite = true)

include finite

theorem quotient?_eq_none_iff_faint (a : Complex Float) : a.quotient? b = none ↔ b.Faint := by
  obtain ⟨re, im⟩ := b
  obtain ⟨finiteRe, finiteIm⟩ := Bool.and_eq_true_iff.1 finite
  obtain ⟨v, hre⟩ := exists_hasSigned finiteRe
  obtain ⟨w, him⟩ := exists_hasSigned finiteIm
  have vanishes := Binary64.sum_mul_self_beq_zero_iff hre him
  rw [← value_eq_of_hasSigned hre, ← value_eq_of_hasSigned him] at vanishes
  have exit : a.quotient? ⟨re, im⟩ = none ↔ (re * re + im * im == 0) = true := by
    unfold quotient?
    split_ifs with zero
    · exact iff_of_true rfl zero
    · exact iff_of_false id zero
  exact exit.trans (vanishes.trans ⟨fun ⟨h, h'⟩ => ⟨h, h'⟩, fun ⟨h, h'⟩ => ⟨h, h'⟩⟩)

theorem isZero_iff_values : b.isZero = true ↔ value b.re = 0 ∧ value b.im = 0 := by
  obtain ⟨re, im⟩ := b
  obtain ⟨finiteRe, finiteIm⟩ := Bool.and_eq_true_iff.1 finite
  obtain ⟨v, hre⟩ := exists_hasSigned finiteRe
  obtain ⟨w, him⟩ := exists_hasSigned finiteIm
  have zero := Binary64.hasValue_zero.signed
  rw [value_eq_of_hasSigned hre, value_eq_of_hasSigned him, ← beq_iff_of_hasSigned hre zero,
    ← beq_iff_of_hasSigned him zero]
  exact Bool.and_eq_true_iff

theorem faint_of_isZero (zero : b.isZero = true) : b.Faint := by
  obtain ⟨re, im⟩ := (isZero_iff_values finite).1 zero
  have least : (0 * 0 : ℚ) ≤ 2 ^ (-1075 : ℤ) := (mul_zero 0).trans_le (Binary64.two_zpow_pos _).le
  exact ⟨re ▸ least, im ▸ least⟩

end Divisor

/-- A division takes its exit for zero divisors, and gives the singularity, exactly when the divisor is
faint. Zero is faint, so the exit is taken for zero; that it is taken for nothing else is true of just those
divisors that are zero or not faint. What is divided does not matter. -/
theorem quotient?_eq_none_iff {b : Complex Float} (finite : b.isFinite = true) (a : Complex Float) :
    a / b = (a.quotient? b).getD singularity ∧ (a.quotient? b = none ↔ b.Faint) ∧
      (b.isZero = true → b.Faint) ∧
      ((a.quotient? b = none ↔ b.isZero = true) ↔ (b.Faint → b.isZero = true)) := by
  have exit := quotient?_eq_none_iff_faint finite a
  have zero := faint_of_isZero finite
  refine ⟨div_eq_getD a b, exit, zero, ?_⟩
  rw [exit]
  exact ⟨Iff.mp, fun only => ⟨only, zero⟩⟩

/-- A divisor that is just large enough. -/
theorem quotient?_eq_none_iff_notFaint :
    let a : Complex Float := ⟨1, 0⟩
    let b : Complex Float := ⟨1.6e-162, -3e-170⟩
    b.isFinite = true ∧ a / b = (a.quotient? b).getD singularity ∧ a.quotient? b ≠ none ∧ ¬b.Faint ∧
      (a.quotient? b = none ↔ b.isZero = true) := by
  intro a b
  have finite : b.isFinite = true := by decide +kernel
  have some : a.quotient? b ≠ none := by decide +kernel
  obtain ⟨quotient, exit, -, only⟩ := quotient?_eq_none_iff finite a
  have large : ¬b.Faint := mt exit.2 some
  exact ⟨finite, quotient, some, large, only.2 fun faint => absurd faint large⟩

/-- A divisor that is not zero but is taken for it, and a quotient that would be `1 + i`. -/
theorem quotient?_faint :
    let a : Complex Float := ⟨1e-170, 1e-170⟩
    let b : Complex Float := ⟨1e-170, 0⟩
    (a.isFinite = true ∧ b.isFinite = true) ∧ b.isZero = false ∧ a.quotient? b = none ∧
      a / b = singularity := by
  decide +kernel

end DomainColoring.Complex
