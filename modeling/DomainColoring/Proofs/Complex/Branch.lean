import Mathlib.Analysis.Real.Pi.Bounds
import DomainColoring.Complex
import DomainColoring.Proofs.Scalar.Platform
import DomainColoring.Proofs.Scalar.Roots

/-!
# The branch cut

The logarithm and the square root have a cut along the negative real axis. A machine number is on one of its
sides by the sign of its imaginary part, which is a zero, so that the two sides are equal numbers with
different logarithms and square roots (`AcrossCut`). Elsewhere equal numbers have equal ones.
-/

namespace DomainColoring.Complex

open Binary64 (exactValue value HasValue HasSigned HasSign SameNumber OppositeZeros quarterTurn)

/-- Both components are equal. -/
structure SameNumbers (a b : Complex Float) : Prop where
  re : SameNumber a.re b.re
  im : SameNumber a.im b.im

/-- One number on the negative real axis, on different sides of it. -/
structure AcrossCut (a b : Complex Float) : Prop where
  left : a.re < 0
  re : a.re = b.re
  im : OppositeZeros a.im b.im

theorem AcrossCut.isZero_eq_false {a b : Complex Float} (finite : a.isFinite = true) (cut : AcrossCut a b) :
    a.isZero = false := by
  obtain ⟨v, hre⟩ := Binary64.exists_hasSigned (Bool.and_eq_true_iff.1 finite).1
  have zero := Binary64.hasValue_zero.signed
  have some : (a.re == 0) = false := by
    rw [Bool.eq_false_iff, Ne, Binary64.beq_iff_of_hasSigned hre zero]
    exact ((Binary64.lt_iff_of_hasSigned hre zero).1 cut.left).ne
  exact congrArg (· && (a.im == 0)) some

section Equality

variable {a b : Complex Float} (finite : a.isFinite = true) (same : (a == b) = true)

include finite same

theorem components_of_beq : (a.re = b.re ∨ OppositeZeros a.re b.re) ∧
    (a.im = b.im ∨ OppositeZeros a.im b.im) := by
  obtain ⟨finiteRe, finiteIm⟩ := Bool.and_eq_true_iff.1 finite
  obtain ⟨sameRe, sameIm⟩ := Bool.and_eq_true_iff.1 same
  exact ⟨Binary64.eq_or_oppositeZeros_of_beq finiteRe sameRe,
    Binary64.eq_or_oppositeZeros_of_beq finiteIm sameIm⟩

theorem hypot_eq_of_beq : Binary64.hypot a.re a.im = Binary64.hypot b.re b.im := by
  obtain ⟨re, im⟩ := components_of_beq finite same
  calc
    Binary64.hypot a.re a.im = Binary64.hypot b.re a.im := by
      rcases re with re | zeros
      · rw [re]
      · exact zeros.hypot_left a.im
    _ = Binary64.hypot b.re b.im := by
      rcases im with im | zeros
      · rw [im]
      · exact zeros.hypot_right b.re

theorem isZero_eq_of_beq : a.isZero = b.isZero := by
  have zeros {x y : Float} (h : x = y ∨ OppositeZeros x y) :
      (x == Scalar.ofNat 0) = (y == Scalar.ofNat 0) := by
    obtain rfl | ⟨rfl, rfl⟩ | ⟨rfl, rfl⟩ := h
    · rfl
    · decide +kernel
    · decide +kernel
  obtain ⟨re, im⟩ := components_of_beq finite same
  unfold isZero
  rw [zeros re, zeros im]

/-- Equal numbers other than zero differ in one zero at most, and so lie on one of the axes. -/
theorem sides_of_beq (some : a.isZero = false) : a = b ∨ AcrossCut a b ∨
    (0 < a.re ∧ a.re = b.re ∧ OppositeZeros a.im b.im) ∨
    ((a.im < 0 ∨ 0 < a.im) ∧ a.im = b.im ∧ OppositeZeros a.re b.re) := by
  have isZero {x y : Float} (zeros : OppositeZeros x y) : (x == 0) = true := by
    obtain ⟨rfl, rfl⟩ | ⟨rfl, rfl⟩ := zeros <;> decide +kernel
  have notZero {x : Float} (finite : x.isFinite = true) (some : (x == 0) = false) : x < 0 ∨ 0 < x := by
    rcases Binary64.cases_of_isFinite finite with below | rfl | rfl | above
    · exact .inl below
    · cases some
    · cases some
    · exact .inr above
  obtain ⟨finiteRe, finiteIm⟩ := Bool.and_eq_true_iff.1 finite
  have some : (a.re == 0 && a.im == 0) = false := some
  obtain ⟨re | re, im | im⟩ := components_of_beq finite same
  · left
    cases a
    cases b
    exact congrArg₂ mk re im
  · rw [isZero im, Bool.and_true] at some
    rcases notZero finiteRe some with left | right
    · exact .inr (.inl ⟨left, re, im⟩)
    · exact .inr (.inr (.inl ⟨right, re, im⟩))
  · rw [isZero re, Bool.true_and] at some
    exact .inr (.inr (.inr ⟨notZero finiteIm some, im, re⟩))
  · rw [isZero re, isZero im] at some
    cases some

end Equality

section Angle

variable {p : Platform} (standard : p.Standard) {a b : Complex Float}

include standard

/-- Only on the cut have equal numbers different angles, other than zeros. -/
theorem arg_of_beq (finite : a.isFinite = true) (some : a.isZero = false) (same : (a == b) = true)
    (off : ¬AcrossCut a b) : letI := p.elementary
    a.arg = b.arg ∨ (OppositeZeros a.arg b.arg ∧ 0 < a.re ∧ OppositeZeros a.im b.im) := by
  obtain ⟨finiteRe, finiteIm⟩ := Bool.and_eq_true_iff.1 finite
  rcases sides_of_beq finite same some with rfl | cut | ⟨right, re, im⟩ | ⟨away, im, re⟩
  · exact .inl rfl
  · exact absurd cut off
  · refine .inr ⟨?_, right, im⟩
    change OppositeZeros (p.atan2 a.im a.re) (p.atan2 b.im b.re)
    obtain ⟨positive, negative⟩ := standard.positiveAxis finiteRe right
    rw [← re]
    obtain ⟨upper, lower⟩ | ⟨lower, upper⟩ := im <;> rw [upper, lower, positive, negative]
    · exact .inl ⟨rfl, rfl⟩
    · exact .inr ⟨rfl, rfl⟩
  · left
    change p.atan2 a.im a.re = p.atan2 b.im b.re
    rw [← im]
    have vertical : p.atan2 a.im 0 = p.atan2 a.im (-0) := by
      rcases away with below | above
      · obtain ⟨first, second⟩ := standard.lowerAxis finiteIm below
        rw [first, second]
      · obtain ⟨first, second⟩ := standard.upperAxis finiteIm above
        rw [first, second]
    obtain ⟨first, second⟩ | ⟨first, second⟩ := re <;> rw [first, second, vertical]

/-- On the cut the angles are half a turn and its negative. -/
theorem AcrossCut.arg (finite : a.isFinite = true) (cut : AcrossCut a b) :
    (@arg Float p.elementary a = Elementary.pi ∧ @arg Float p.elementary b = -Elementary.pi) ∨
      (@arg Float p.elementary a = -Elementary.pi ∧ @arg Float p.elementary b = Elementary.pi) := by
  obtain ⟨positive, negative⟩ := standard.negativeAxis (Bool.and_eq_true_iff.1 finite).1 cut.left
  change (p.atan2 a.im a.re = Elementary.pi ∧ p.atan2 b.im b.re = -Elementary.pi) ∨
    (p.atan2 a.im a.re = -Elementary.pi ∧ p.atan2 b.im b.re = Elementary.pi)
  rw [← cut.re]
  obtain ⟨upper, lower⟩ | ⟨lower, upper⟩ := cut.im <;> rw [upper, lower]
  · exact .inl ⟨positive, negative⟩
  · exact .inr ⟨negative, positive⟩

section Range

variable (finite : a.isFinite = true)

include finite

/-- The angle is a number, and less than half a turn in either direction: the greatest angle is less than `π`
itself. -/
theorem exists_hasSigned_arg : ∃ u, HasSigned (exactValue (@arg Float p.elementary a)) u ∧
    |(u : ℝ)| < Real.pi := by
  obtain ⟨finiteRe, finiteIm⟩ := Bool.and_eq_true_iff.1 finite
  have half := (Binary64.hasValue_of_exactValue_eq Binary64.exactValue_pi).signed
  obtain ⟨least, most⟩ := standard.principal a.im a.re finiteIm finiteRe
  obtain ⟨u, angle, low, high⟩ := Binary64.exists_hasSigned_between half.opposite half least most
  have below : (((7074237752028440 : Nat) * 2 ^ (-51 : ℤ) : ℚ) : ℝ) < Real.pi := by
    refine lt_trans ?_ Real.pi_gt_d20
    norm_num
  refine ⟨u, angle, (abs_le.2 ⟨?_, ?_⟩).trans_lt below⟩
  · exact_mod_cast low
  · exact_mod_cast high

/-- What is not below a number above minus half a turn is above it. -/
theorem neg_pi_lt_arg_of_le {c : Float} (number : c.isFinite = true) (above : -(Elementary.pi : Float) < c)
    (le : c ≤ @arg Float p.elementary a) : -(Elementary.pi : Float) < @arg Float p.elementary a := by
  obtain ⟨u, angle, -⟩ := exists_hasSigned_arg standard finite
  obtain ⟨w, middle⟩ := Binary64.exists_hasSigned number
  have half := (Binary64.hasValue_of_exactValue_eq Binary64.exactValue_pi).signed.opposite
  rw [Binary64.lt_iff_of_hasSigned half middle] at above
  rw [Binary64.lt_iff_of_hasSigned half angle]
  exact above.trans_le ((Binary64.le_iff_of_hasSigned middle angle).1 le)

theorem arg_of_vertical (some : a.isZero = false) (axis : a.re = 0 ∨ a.re = -0) :
    @arg Float p.elementary a = quarterTurn ∨ @arg Float p.elementary a = -quarterTurn := by
  obtain ⟨re, im⟩ := a
  obtain ⟨-, finite⟩ := Bool.and_eq_true_iff.1 finite
  change p.atan2 im re = _ ∨ p.atan2 im re = _
  rcases Binary64.cases_of_isFinite finite with below | rfl | rfl | above
  · right
    obtain rfl | rfl := axis
    · exact (standard.lowerAxis finite below).1
    · exact (standard.lowerAxis finite below).2
  · obtain rfl | rfl := axis <;> exact absurd some (by decide +kernel)
  · obtain rfl | rfl := axis <;> exact absurd some (by decide +kernel)
  · left
    obtain rfl | rfl := axis
    · exact (standard.upperAxis finite above).1
    · exact (standard.upperAxis finite above).2

/-- Minus half a turn is not reached from above the negative real axis, nor anywhere to its right. -/
theorem neg_pi_lt_arg (some : a.isZero = false) (elsewhere : ¬(a.re < 0 ∧ (a.im < 0 ∨ a.im = -0))) :
    -(Elementary.pi : Float) < @arg Float p.elementary a := by
  obtain ⟨finiteRe, finiteIm⟩ := Bool.and_eq_true_iff.1 finite
  have quarter : -(Elementary.pi : Float) < -quarterTurn := by decide +kernel
  have vertical (axis : a.re = 0 ∨ a.re = -0) : -(Elementary.pi : Float) < @arg Float p.elementary a := by
    rcases arg_of_vertical standard finite some axis with angle | angle <;> rw [angle]
    · decide +kernel
    · exact quarter
  rcases Binary64.cases_of_isFinite finiteRe with left | zero | zero | right
  · rcases Binary64.cases_of_isFinite finiteIm with below | zero | zero | above
    · exact absurd ⟨left, .inl below⟩ elsewhere
    · have angle : @arg Float p.elementary a = Elementary.pi :=
        (congrArg (p.atan2 · a.re) zero).trans (standard.negativeAxis finiteRe left).1
      rw [angle]
      decide +kernel
    · exact absurd ⟨left, .inr zero⟩ elsewhere
    · exact neg_pi_lt_arg_of_le standard finite (by decide +kernel) (by decide +kernel)
        (standard.upper finiteIm finiteRe above)
  · exact vertical (.inl zero)
  · exact vertical (.inr zero)
  · exact neg_pi_lt_arg_of_le standard finite (by decide +kernel) quarter
      (standard.right finiteIm finiteRe right)

end Range

end Angle

section Functions

variable {p : Platform} (standard : p.Standard) {a b : Complex Float}

theorem sqrt_of_not_isZero (some : a.isZero = false) : @sqrt Float p.elementary a =
    ⟨(Binary64.hypot a.re a.im).sqrt * p.cos (p.atan2 a.im a.re / Scalar.ofNat 2),
      (Binary64.hypot a.re a.im).sqrt * p.sin (p.atan2 a.im a.re / Scalar.ofNat 2)⟩ :=
  if_neg (Bool.eq_false_iff.1 some)

section OffCut

variable (finite : a.isFinite = true) (some : a.isZero = false) (same : (a == b) = true)
  (off : ¬AcrossCut a b)

include standard finite some same off

theorem sameNumbers_log : letI := p.elementary
    SameNumbers a.log b.log := by
  refine ⟨.inl ?modulus, ?angle⟩
  case modulus => exact congrArg p.log (hypot_eq_of_beq finite same)
  case angle =>
    rcases arg_of_beq standard finite some same off with angle | ⟨zeros, -⟩
    · exact .inl angle
    · exact zeros.sameNumber

theorem sameNumbers_sqrt : letI := p.elementary
    SameNumbers a.sqrt b.sqrt := by
  rw [sqrt_of_not_isZero some, sqrt_of_not_isZero (isZero_eq_of_beq finite same ▸ some),
    ← hypot_eq_of_beq finite same]
  have angles := arg_of_beq standard finite some same off
  change p.atan2 a.im a.re = p.atan2 b.im b.re ∨
    (OppositeZeros (p.atan2 a.im a.re) (p.atan2 b.im b.re) ∧ _) at angles
  generalize p.atan2 a.im a.re = θ at angles ⊢
  generalize p.atan2 b.im b.re = θ' at angles ⊢
  rcases angles with rfl | ⟨zeros, right, axis⟩
  · exact ⟨.inl rfl, .inl rfl⟩
  · have axis : a.im = 0 ∨ a.im = -0 := axis.imp And.left And.left
    obtain ⟨r, -, root⟩ := Binary64.exists_sqrt_hypot (Bool.and_eq_true_iff.1 finite).1 (.inr right) axis
    have positive : (0 : Float) / Scalar.ofNat 2 = 0 := by decide +kernel
    have negative : (-0 : Float) / Scalar.ofNat 2 = -0 := by decide +kernel
    obtain ⟨sin, sin'⟩ := standard.sin_zero
    obtain ⟨cos, cos'⟩ := standard.cos_zero
    refine ⟨.inl ?real, OppositeZeros.sameNumber_mul root ?imaginary⟩
    case real => obtain ⟨rfl, rfl⟩ | ⟨rfl, rfl⟩ := zeros <;> rw [positive, negative, cos, cos']
    case imaginary =>
      obtain ⟨rfl, rfl⟩ | ⟨rfl, rfl⟩ := zeros <;> rw [positive, negative, sin, sin']
      · exact .inl ⟨rfl, rfl⟩
      · exact .inr ⟨rfl, rfl⟩

end OffCut

theorem hasSigned_half : HasSigned (exactValue 0.5) (1 / 2) := by
  have read : exactValue 0.5 = .finite .positive 4503599627370496 (-53) (by decide) := rfl
  have half := (Binary64.hasValue_of_exactValue_eq read).signed
  norm_num at half
  exact half

include standard in
/-- The sines of a right angle and of its negative have different signs, and so have their products with a
root. -/
theorem not_sameNumber_mul_sin {r : Float} {v : ℚ} (least : (2 : ℚ) ^ (-538 : ℤ) ≤ v)
    (root : HasValue (exactValue r) v) :
    ¬SameNumber (r * p.sin quarterTurn) (r * p.sin (-quarterTurn)) ∧
      ¬SameNumber (r * p.sin (-quarterTurn)) (r * p.sin quarterTurn) := by
  have one : HasSigned (exactValue 1) 1 := by exact_mod_cast Binary64.hasValue_one.signed
  obtain ⟨u, sin, low, -⟩ := Binary64.exists_hasSigned_between hasSigned_half one
    standard.sin_quarterTurn.1 standard.sin_quarterTurn.2
  obtain ⟨u', sin', -, high⟩ := Binary64.exists_hasSigned_between one.opposite hasSigned_half.opposite
    standard.sin_neg_quarterTurn.1 standard.sin_neg_quarterTurn.2
  have pos : 0 < v := (Binary64.two_zpow_pos _).trans_le least
  have worth {s : ℚ} (half : 1 / 2 ≤ s) : (2 : ℚ) ^ (-1074 : ℤ) ≤ v * s := calc
    (2 : ℚ) ^ (-1074 : ℤ) ≤ 2 ^ (-538 + -1 : ℤ) := zpow_le_zpow_right₀ one_le_two (by norm_num)
    _ = 2 ^ (-538 : ℤ) * (1 / 2) := by
      rw [Binary64.two_zpow_add, zpow_neg_one, one_div]
    _ ≤ v * s := mul_le_mul least half (by norm_num) pos.le
  have above := Binary64.hasSign_mul_pos pos (by linarith) root sin (worth low)
  have below := Binary64.hasSign_mul_neg pos (by linarith) root sin' (worth (by linarith))
  exact ⟨Binary64.not_sameNumber_of_hasSign above below, Binary64.not_sameNumber_of_hasSign below above⟩

section OnCut

variable (finite : a.isFinite = true) (cut : AcrossCut a b)

include standard finite cut

theorem not_sameNumbers_log : letI := p.elementary
    ¬SameNumbers a.log b.log := by
  intro same
  have angles : SameNumber (@arg Float p.elementary a) (@arg Float p.elementary b) := same.im
  have differ : ¬SameNumber (Elementary.pi : Float) (-Elementary.pi) ∧
      ¬SameNumber (-Elementary.pi : Float) Elementary.pi := by
    unfold SameNumber
    decide +kernel
  rcases cut.arg standard finite with ⟨first, second⟩ | ⟨first, second⟩ <;> rw [first, second] at angles
  · exact differ.1 angles
  · exact differ.2 angles

theorem not_sameNumbers_sqrt (same : (a == b) = true) : letI := p.elementary
    ¬SameNumbers a.sqrt b.sqrt := by
  have some := cut.isZero_eq_false finite
  rw [sqrt_of_not_isZero some, sqrt_of_not_isZero (isZero_eq_of_beq finite same ▸ some),
    ← hypot_eq_of_beq finite same]
  have axis : a.im = 0 ∨ a.im = -0 := cut.im.imp And.left And.left
  obtain ⟨r, least, root⟩ := Binary64.exists_sqrt_hypot (Bool.and_eq_true_iff.1 finite).1 (.inl cut.left) axis
  have angles := cut.arg standard finite
  change (p.atan2 a.im a.re = _ ∧ p.atan2 b.im b.re = _) ∨
    (p.atan2 a.im a.re = _ ∧ p.atan2 b.im b.re = _) at angles
  have half : (Elementary.pi : Float) / Scalar.ofNat 2 = quarterTurn := rfl
  have half' : (-Elementary.pi : Float) / Scalar.ofNat 2 = -quarterTurn := by decide +kernel
  obtain ⟨differ, differ'⟩ := not_sameNumber_mul_sin standard least root
  intro roots
  have parts := roots.im
  rcases angles with ⟨first, second⟩ | ⟨first, second⟩ <;>
    rw [first, second, half, half'] at parts
  · exact differ parts
  · exact differ' parts

end OnCut

end Functions

/-- The conjugate of a number on the negative real axis is on the other side of the cut. -/
theorem acrossCut_conj {a : Complex Float} (left : a.re < 0) (axis : a.im = 0) : AcrossCut a a.conj :=
  ⟨left, rfl, .inl ⟨axis, congrArg Neg.neg axis⟩⟩

/-- The angle of a number other than zero is the imaginary part of its logarithm. It is from minus half a turn
to half a turn, and less than `π` in either direction. On the negative real axis the sign of the zero that is
the imaginary part decides between the two; minus half a turn is reached there and possibly below it, where
the angle is rounded, but nowhere else. Equal numbers have equal logarithms and equal square roots exactly
if they are not across the cut. -/
theorem principal_off_cut {p : Platform} (standard : p.Standard) {a : Complex Float}
    (finite : a.isFinite = true) (some : a.isZero = false) :
    let θ := @arg Float p.elementary a
    (@log Float p.elementary a).im = θ ∧
      (-(Elementary.pi : Float) ≤ θ ∧ θ ≤ Elementary.pi ∧ |(value θ : ℝ)| < Real.pi) ∧
      (a.re < 0 → (a.im = 0 → θ = Elementary.pi) ∧ (a.im = -0 → θ = -Elementary.pi)) ∧
      (¬(a.re < 0 ∧ (a.im < 0 ∨ a.im = -0)) → -(Elementary.pi : Float) < θ) ∧
      ∀ b, (a == b) = true →
        (SameNumbers (@log Float p.elementary a) (@log Float p.elementary b) ↔ ¬AcrossCut a b) ∧
        (SameNumbers (@sqrt Float p.elementary a) (@sqrt Float p.elementary b) ↔ ¬AcrossCut a b) := by
  obtain ⟨finiteRe, finiteIm⟩ := Bool.and_eq_true_iff.1 finite
  obtain ⟨least, most⟩ := standard.principal a.im a.re finiteIm finiteRe
  obtain ⟨u, angle, less⟩ := exists_hasSigned_arg standard finite
  refine ⟨rfl, ⟨least, most, ?_⟩, ?axis, neg_pi_lt_arg standard finite some, fun b same => ⟨?log, ?sqrt⟩⟩
  · rwa [Binary64.value_eq_of_hasSigned angle]
  case axis =>
    intro left
    obtain ⟨upper, lower⟩ := standard.negativeAxis finiteRe left
    exact ⟨fun zero => (congrArg (p.atan2 · a.re) zero).trans upper,
      fun zero => (congrArg (p.atan2 · a.re) zero).trans lower⟩
  case log =>
    exact ⟨fun equal cut => not_sameNumbers_log standard finite cut equal,
      sameNumbers_log standard finite some same⟩
  case sqrt =>
    exact ⟨fun equal cut => not_sameNumbers_sqrt standard finite cut same equal,
      sameNumbers_sqrt standard finite some same⟩

/-- Off the cut, on the positive real axis: the angles and the imaginary parts of the roots are zeros of
different signs, which are equal. -/
theorem principal_off_cut_one :
    let p := Platform.realUnits
    let a : Complex Float := ⟨1, 0⟩
    let b : Complex Float := ⟨1, -0⟩
    (p.Standard ∧ a.isFinite = true ∧ a.isZero = false) ∧ (a == b) = true ∧ ¬AcrossCut a b ∧
      -(Elementary.pi : Float) < @arg Float p.elementary a ∧
      SameNumbers (@log Float p.elementary a) (@log Float p.elementary b) ∧
      SameNumbers (@sqrt Float p.elementary a) (@sqrt Float p.elementary b) := by
  intro p a b
  have standard := Platform.standard_realUnits
  have finite : a.isFinite = true := by decide +kernel
  have some : a.isZero = false := by decide +kernel
  have same : (a == b) = true := by decide +kernel
  have right : ¬a.re < 0 := by decide
  have off : ¬AcrossCut a b := fun cut => right cut.left
  obtain ⟨-, -, -, above, equal⟩ := principal_off_cut standard finite some
  obtain ⟨log, sqrt⟩ := equal b same
  exact ⟨⟨standard, finite, some⟩, same, off, above fun left => right left.1, log.2 off, sqrt.2 off⟩

/-- On the cut: the number -1 and its conjugate are equal, but have different logarithms and square roots, and
the angle of the conjugate is minus half a turn. -/
theorem across_cut_minusOne :
    let p := Platform.realUnits
    let a : Complex Float := ⟨-1, 0⟩
    (p.Standard ∧ a.isFinite = true ∧ a.isZero = false) ∧ (a == a.conj) = true ∧
      @arg Float p.elementary a = Elementary.pi ∧
      ¬-(Elementary.pi : Float) < @arg Float p.elementary a.conj ∧
      ¬SameNumbers (@log Float p.elementary a) (@log Float p.elementary a.conj) ∧
      ¬SameNumbers (@sqrt Float p.elementary a) (@sqrt Float p.elementary a.conj) := by
  intro p a
  have standard := Platform.standard_realUnits
  have finite : a.isFinite = true := by decide +kernel
  have same : (a == a.conj) = true := by decide +kernel
  have cut : AcrossCut a a.conj := acrossCut_conj (by decide) rfl
  exact ⟨⟨standard, finite, cut.isZero_eq_false finite⟩, same, by decide +kernel, by decide +kernel,
    not_sameNumbers_log standard finite cut, not_sameNumbers_sqrt standard finite cut same⟩

end DomainColoring.Complex
