import DomainColoring.Proofs.Complex.Exact

/-!
# Identities of the elementary functions

The complex functions are written out as products of real functions. With exact numbers they obey the
identities that define them (`elementary_identities`), whatever the real functions are, if those obey
theirs (`Elementary.Identities`). Each identity is shown for both components: the identities of the real
functions leave polynomials in the same real values on both sides.
-/

namespace DomainColoring

/-- The usual identities of the real functions: addition theorems, parity, the two between squares, what is
inverse to what, and the polar form. -/
structure Elementary.Identities (E : Elementary ℝ) : Prop where
  exp_add : ∀ x y : ℝ, E.exp (x + y) = E.exp x * E.exp y
  sin_add : ∀ x y : ℝ, E.sin (x + y) = E.sin x * E.cos y + E.cos x * E.sin y
  cos_add : ∀ x y : ℝ, E.cos (x + y) = E.cos x * E.cos y - E.sin x * E.sin y
  sinh_add : ∀ x y : ℝ, E.sinh (x + y) = E.sinh x * E.cosh y + E.cosh x * E.sinh y
  cosh_add : ∀ x y : ℝ, E.cosh (x + y) = E.cosh x * E.cosh y + E.sinh x * E.sinh y
  sinh_neg : ∀ x : ℝ, E.sinh (-x) = -E.sinh x
  cosh_neg : ∀ x : ℝ, E.cosh (-x) = E.cosh x
  sin_sq_add_cos_sq : ∀ x : ℝ, E.sin x ^ 2 + E.cos x ^ 2 = 1
  cosh_sq_sub_sinh_sq : ∀ x : ℝ, E.cosh x ^ 2 - E.sinh x ^ 2 = 1
  exp_eq_cosh_add_sinh : ∀ x : ℝ, E.exp x = E.cosh x + E.sinh x
  exp_log : ∀ x : ℝ, 0 < x → E.exp (E.log x) = x
  sqrt_mul_self : ∀ x : ℝ, 0 ≤ x → E.sqrt x * E.sqrt x = x
  hypot_nonneg : ∀ x y : ℝ, 0 ≤ E.hypot x y
  hypot_mul_cos : ∀ x y : ℝ, E.hypot x y * E.cos (E.atan2 y x) = x
  hypot_mul_sin : ∀ x y : ℝ, E.hypot x y * E.sin (E.atan2 y x) = y

/-- The real functions themselves obey them. -/
theorem Elementary.identities_ofReal (log1p : ℝ → ℝ) : (Elementary.ofReal log1p).Identities where
  exp_add := Real.exp_add
  sin_add := Real.sin_add
  cos_add := Real.cos_add
  sinh_add := Real.sinh_add
  cosh_add := Real.cosh_add
  sinh_neg := Real.sinh_neg
  cosh_neg := Real.cosh_neg
  sin_sq_add_cos_sq := Real.sin_sq_add_cos_sq
  cosh_sq_sub_sinh_sq := Real.cosh_sq_sub_sinh_sq
  exp_eq_cosh_add_sinh x := (Real.cosh_add_sinh x).symm
  exp_log _ := Real.exp_log
  sqrt_mul_self _ := Real.mul_self_sqrt
  hypot_nonneg _ _ := Real.sqrt_nonneg _
  hypot_mul_cos x y := by
    have polar := Complex.norm_mul_cos_arg ⟨x, y⟩
    rwa [Complex.norm_eq_sqrt_sq_add_sq] at polar
  hypot_mul_sin x y := by
    have polar := Complex.norm_mul_sin_arg ⟨x, y⟩
    rwa [Complex.norm_eq_sqrt_sq_add_sq] at polar

namespace Complex

theorem eq_of_components {α : Type} {a b : Complex α} (re : a.re = b.re) (im : a.im = b.im) : a = b := by
  cases a
  cases b
  exact congrArg₂ Complex.mk re im

section Components

open scoped Scalar.Exact

variable (a b : Complex ℝ)

theorem re_add : (a + b).re = a.re + b.re := rfl

theorem im_add : (a + b).im = a.im + b.im := rfl

theorem re_sub : (a - b).re = a.re - b.re := rfl

theorem im_sub : (a - b).im = a.im - b.im := rfl

theorem re_mul : (a * b).re = a.re * b.re - a.im * b.im := rfl

theorem im_mul : (a * b).im = a.re * b.im + a.im * b.re := rfl

theorem zero_eq : (zero : Complex ℝ) = ⟨0, 0⟩ := toNumber_injective (toNumber_zero.trans rfl)

theorem one_eq : (one : Complex ℝ) = ⟨1, 0⟩ := toNumber_injective (toNumber_one.trans rfl)

/-- The product with the imaginary unit is a quarter turn. -/
theorem unit_mul : unit * a = ⟨-a.im, a.re⟩ := by
  apply eq_of_components
  · change ((0 : Nat) : ℝ) * a.re - ((1 : Nat) : ℝ) * a.im = -a.im
    simp
  · change ((0 : Nat) : ℝ) * a.im + ((1 : Nat) : ℝ) * a.re = a.re
    simp

variable {a b}

theorem isZero_eq_false_iff : a.isZero = false ↔ a ≠ ⟨0, 0⟩ := by
  rw [← zero_eq, ← Bool.not_eq_true, isZero_iff]

theorem isZero_eq_false_of_re (some : a.re ≠ 0) : a.isZero = false :=
  isZero_eq_false_iff.2 fun none => some (congrArg Complex.re none)

/-- A quotient by a number that is not zero. -/
theorem div_mul_self (some : b.isZero = false) : a / b * b = a := by
  have some : toNumber b ≠ 0 := by rwa [ne_eq, toNumber_eq_zero_iff, ← isZero_iff, Bool.not_eq_true]
  apply toNumber_injective
  rw [toNumber_mul, toNumber_div, div_mul_cancel₀ _ some]

end Components

section Functions

variable {E : Elementary ℝ} (z w : Complex ℝ)

theorem exp_overReals : letI := E.overReals
    exp z = ⟨E.exp z.re * E.cos z.im, E.exp z.re * E.sin z.im⟩ := rfl

theorem log_overReals : letI := E.overReals
    log z = ⟨E.log (E.hypot z.re z.im), E.atan2 z.im z.re⟩ := rfl

theorem sin_overReals : letI := E.overReals
    sin z = ⟨E.sin z.re * E.cosh z.im, E.cos z.re * E.sinh z.im⟩ := rfl

theorem cos_overReals : letI := E.overReals
    cos z = ⟨E.cos z.re * E.cosh z.im, -E.sin z.re * E.sinh z.im⟩ := rfl

theorem sinh_overReals : letI := E.overReals
    sinh z = ⟨E.sinh z.re * E.cos z.im, E.cosh z.re * E.sin z.im⟩ := rfl

theorem cosh_overReals : letI := E.overReals
    cosh z = ⟨E.cosh z.re * E.cos z.im, E.sinh z.re * E.sin z.im⟩ := rfl

theorem ofPolar_overReals (r θ : ℝ) : letI := E.overReals
    ofPolar r θ = ⟨r * E.cos θ, r * E.sin θ⟩ := rfl

theorem sqrt_overReals_zero : letI := E.overReals
    sqrt (⟨0, 0⟩ : Complex ℝ) = ⟨0, 0⟩ := by
  have none : @isZero ℝ E.overReals.toScalar ⟨0, 0⟩ = true := (isZero_iff _).2 zero_eq.symm
  unfold sqrt
  rw [if_pos none]
  exact zero_eq

theorem exists_sqrt_overReals {z : Complex ℝ} (some : z ≠ ⟨0, 0⟩) : letI := E.overReals
    ∃ half : ℝ, half + half = E.atan2 z.im z.re ∧ sqrt z = ofPolar (E.sqrt (E.hypot z.re z.im)) half := by
  have some : @isZero ℝ E.overReals.toScalar z = false := isZero_eq_false_iff.2 some
  unfold sqrt
  rw [some, if_neg Bool.false_ne_true]
  exact ⟨_, add_halves _, rfl⟩

variable (usual : E.Identities)

include usual

theorem exp_add_overReals : letI := E.overReals
    exp (z + w) = exp z * exp w := by
  apply eq_of_components
  · simp only [exp_overReals, re_mul, re_add, im_add]
    rw [usual.exp_add, usual.cos_add]
    ring
  · simp only [exp_overReals, im_mul, re_add, im_add]
    rw [usual.exp_add, usual.sin_add]
    ring

theorem sin_add_overReals : letI := E.overReals
    sin (z + w) = sin z * cos w + cos z * sin w := by
  apply eq_of_components
  · simp only [sin_overReals, cos_overReals, re_mul, re_add, im_add]
    rw [usual.sin_add, usual.cosh_add]
    ring
  · simp only [sin_overReals, cos_overReals, im_mul, re_add, im_add]
    rw [usual.cos_add, usual.sinh_add]
    ring

theorem cos_add_overReals : letI := E.overReals
    cos (z + w) = cos z * cos w - sin z * sin w := by
  apply eq_of_components
  · simp only [sin_overReals, cos_overReals, re_mul, re_add, im_add, re_sub]
    rw [usual.cos_add, usual.cosh_add]
    ring
  · simp only [sin_overReals, cos_overReals, im_mul, re_add, im_add, im_sub]
    rw [usual.sin_add, usual.sinh_add]
    ring

theorem sin_mul_add_cos_mul : letI := E.overReals
    sin z * sin z + cos z * cos z = one := by
  have circle := usual.sin_sq_add_cos_sq z.re
  have hyperbola := usual.cosh_sq_sub_sinh_sq z.im
  rw [one_eq]
  apply eq_of_components
  · simp only [sin_overReals, cos_overReals, re_mul, re_add]
    linear_combination (E.cosh z.im ^ 2 - E.sinh z.im ^ 2) * circle + hyperbola
  · simp only [sin_overReals, cos_overReals, im_mul, im_add]
    ring

theorem cosh_mul_sub_sinh_mul : letI := E.overReals
    cosh z * cosh z - sinh z * sinh z = one := by
  have hyperbola := usual.cosh_sq_sub_sinh_sq z.re
  have circle := usual.sin_sq_add_cos_sq z.im
  rw [one_eq]
  apply eq_of_components
  · simp only [sinh_overReals, cosh_overReals, re_mul, re_sub]
    linear_combination (E.cosh z.re ^ 2 - E.sinh z.re ^ 2) * circle + hyperbola
  · simp only [sinh_overReals, cosh_overReals, im_mul, im_sub]
    ring

theorem sinh_unit_mul : letI := E.overReals
    sinh (unit * z) = unit * sin z := by
  rw [unit_mul, unit_mul]
  simp only [sinh_overReals, sin_overReals]
  rw [usual.sinh_neg, usual.cosh_neg]
  apply eq_of_components
  · ring
  · ring

theorem cosh_unit_mul : letI := E.overReals
    cosh (unit * z) = cos z := by
  rw [unit_mul]
  simp only [cosh_overReals, cos_overReals]
  rw [usual.sinh_neg, usual.cosh_neg]
  apply eq_of_components
  · ring
  · ring

theorem exp_eq_cosh_add_sinh : letI := E.overReals
    exp z = cosh z + sinh z := by
  apply eq_of_components
  · simp only [exp_overReals, cosh_overReals, sinh_overReals, re_add]
    rw [usual.exp_eq_cosh_add_sinh, add_mul]
  · simp only [exp_overReals, cosh_overReals, sinh_overReals, im_add]
    rw [usual.exp_eq_cosh_add_sinh]
    ring

/-- By the polar form, only zero has modulus zero. -/
theorem hypot_pos {z : Complex ℝ} (some : z ≠ ⟨0, 0⟩) : 0 < E.hypot z.re z.im := by
  refine lt_of_le_of_ne (usual.hypot_nonneg z.re z.im) fun none => some (eq_of_components ?_ ?_)
  · have re := usual.hypot_mul_cos z.re z.im
    rw [← none, zero_mul] at re
    exact re.symm
  · have im := usual.hypot_mul_sin z.re z.im
    rw [← none, zero_mul] at im
    exact im.symm

theorem exp_log_overReals {z : Complex ℝ} (some : z ≠ ⟨0, 0⟩) : letI := E.overReals
    exp (log z) = z := by
  simp only [exp_overReals, log_overReals]
  rw [usual.exp_log _ (hypot_pos usual some), usual.hypot_mul_cos, usual.hypot_mul_sin]

/-- A square root of the modulus at half the angle, squared. -/
theorem polar_mul_polar {r : ℝ} (nonneg : 0 ≤ r) (half : ℝ) : letI := E.overReals
    ofPolar (E.sqrt r) half * ofPolar (E.sqrt r) half =
      ⟨r * E.cos (half + half), r * E.sin (half + half)⟩ := by
  have square := usual.sqrt_mul_self r nonneg
  apply eq_of_components
  · simp only [ofPolar_overReals, re_mul]
    rw [usual.cos_add]
    linear_combination (E.cos half * E.cos half - E.sin half * E.sin half) * square
  · simp only [ofPolar_overReals, im_mul]
    rw [usual.sin_add]
    linear_combination 2 * E.sin half * E.cos half * square

theorem sqrt_mul_sqrt : letI := E.overReals
    sqrt z * sqrt z = z := by
  by_cases none : z = ⟨0, 0⟩
  · rw [none, sqrt_overReals_zero]
    apply eq_of_components
    · rw [re_mul, mul_zero, sub_zero]
    · rw [im_mul, mul_zero, add_zero]
  · obtain ⟨half, angle, root⟩ := exists_sqrt_overReals none
    have nonneg := usual.hypot_nonneg z.re z.im
    rw [root, polar_mul_polar usual nonneg, angle, usual.hypot_mul_cos, usual.hypot_mul_sin]

end Functions

/-- With exact numbers, and real functions that obey the usual identities: the addition theorems of the
exponential function, the sine and the cosine; the two identities between squares; the hyperbolic functions
as the circular ones turned by a quarter; tangents as quotients; and the exponential function and the square
as inverses of the logarithm and the square root. -/
theorem elementary_identities (E : Elementary ℝ) (usual : E.Identities) :
    letI := E.overReals
    (∀ z w : Complex ℝ, exp (z + w) = exp z * exp w ∧
      sin (z + w) = sin z * cos w + cos z * sin w ∧
      cos (z + w) = cos z * cos w - sin z * sin w) ∧
    (∀ z : Complex ℝ, sin z * sin z + cos z * cos z = one ∧
      cosh z * cosh z - sinh z * sinh z = one) ∧
    (∀ z : Complex ℝ, sinh (unit * z) = unit * sin z ∧ cosh (unit * z) = cos z ∧
      exp z = cosh z + sinh z) ∧
    (∀ z : Complex ℝ, ((cos z).isZero = false → tan z * cos z = sin z) ∧
      ((cosh z).isZero = false → tanh z * cosh z = sinh z)) ∧
    ∀ z : Complex ℝ, z.isZero = false → exp (log z) = z ∧ sqrt z * sqrt z = z := by
  refine ⟨fun z w => ⟨?_, ?_, ?_⟩, fun z => ⟨?_, ?_⟩, fun z => ⟨?_, ?_, ?_⟩, fun z => ⟨?_, ?_⟩,
    fun z some => ⟨?_, ?_⟩⟩
  · exact exp_add_overReals z w usual
  · exact sin_add_overReals z w usual
  · exact cos_add_overReals z w usual
  · exact sin_mul_add_cos_mul z usual
  · exact cosh_mul_sub_sinh_mul z usual
  · exact sinh_unit_mul z usual
  · exact cosh_unit_mul z usual
  · exact exp_eq_cosh_add_sinh z usual
  · exact div_mul_self
  · exact div_mul_self
  · exact exp_log_overReals usual (isZero_eq_false_iff.1 some)
  · exact sqrt_mul_sqrt z usual

/-- The real functions themselves, at a number in the third quadrant. -/
theorem elementary_identities_thirdQuadrant :
    let E : Elementary ℝ := Elementary.ofReal fun x => Real.log (1 + x)
    letI := E.overReals
    let z : Complex ℝ := ⟨-1, -1⟩
    (E.Identities ∧ (cos z).isZero = false ∧ (cosh z).isZero = false ∧ z.isZero = false) ∧
      (sin (z + unit) = sin z * cos unit + cos z * sin unit ∧ sinh (unit * z) = unit * sin z) ∧
      tan z * cos z = sin z ∧ tanh z * cosh z = sinh z ∧ exp (log z) = z ∧ sqrt z * sqrt z = z := by
  intro E z
  have usual : E.Identities := Elementary.identities_ofReal _
  have cosine : Real.cos (-1) * Real.cosh (-1) ≠ 0 := by
    rw [Real.cos_neg]
    exact (mul_pos Real.cos_one_pos (Real.cosh_pos _)).ne'
  have circular : (cos z).isZero = false := isZero_eq_false_of_re cosine
  have hyperbolic : (cosh z).isZero = false := isZero_eq_false_of_re ((mul_comm _ _).trans_ne cosine)
  have some : z.isZero = false := isZero_eq_false_of_re (neg_ne_zero.2 one_ne_zero)
  obtain ⟨sums, -, turns, tangents, inverses⟩ := elementary_identities E usual
  exact ⟨⟨usual, circular, hyperbolic, some⟩, ⟨(sums z unit).2.1, (turns z).1⟩,
    (tangents z).1 circular, (tangents z).2 hyperbolic, inverses z some⟩

end Complex

end DomainColoring
