import DomainColoring.Proofs.Scalar.UnitInterval

/-!
# Numbers of either sign

Finite machine numbers are compared by their values, whatever their signs. Equal ones are the same number
unless they are the two zeros (`eq_or_oppositeZeros_of_beq`). A product has the sign of its factors also where
it is infinite (`hasSign_mul`).
-/

namespace DomainColoring.Binary64

open Float.Model (UnpackedFloat)
open Float.Model.UnpackedFloat

section Order

variable {x y : Float} {v w : ℚ} (hx : HasSigned (exactValue x) v) (hy : HasSigned (exactValue y) w)

include hx

theorem HasSigned.opposite : HasSigned (exactValue (-x)) (-v) := exactValue_neg x ▸ hx.neg

theorem value_eq_of_hasSigned : value x = v := by
  unfold value
  generalize exactValue x = a at hx ⊢
  cases hx with
  | zero s => rfl
  | @finite s m e pos canonical =>
    cases s with
    | positive => rfl
    | negative =>
      have opposite : ((Sign.negative.apply m : ℤ) : ℚ) = -m := Int.cast_neg (m : ℤ)
      rw [opposite, neg_mul]

include hy

theorem beq_iff_of_hasSigned : (x == y) = true ↔ v = w := by
  obtain ⟨o, compared, order⟩ := hx.exists_compare hy
  exact beq_iff_of_compares compared order

theorem lt_iff_of_hasSigned : x < y ↔ v < w := by
  obtain ⟨o, compared, order⟩ := hx.exists_compare hy
  exact lt_iff_of_compares compared order

theorem le_iff_of_hasSigned : x ≤ y ↔ v ≤ w := by
  obtain ⟨o, compared, order⟩ := hx.exists_compare hy
  exact le_iff_of_compares compared order

end Order

section Equality

variable {x y : Float} {v : ℚ}

theorem neg_neg_eq (x : Float) : - -x = x := by
  apply eq_of_exactValue_eq
  rw [exactValue_neg, exactValue_neg]
  cases exactValue x with
  | notANumber => rfl
  | infinity s => cases s <;> rfl
  | zero s => cases s <;> rfl
  | finite s => cases s <;> rfl

/-- Finite numbers other than zero are told apart by their values. -/
theorem eq_of_hasSigned (some : v ≠ 0) (hx : HasSigned (exactValue x) v)
    (hy : HasSigned (exactValue y) v) : x = y := by
  rcases some.lt_or_gt with below | above
  · have opposite : -x = -y := eq_of_hasValue (neg_pos.2 below)
      (hx.opposite.hasValue (neg_nonneg.2 below.le)) (hy.opposite.hasValue (neg_nonneg.2 below.le))
    rw [← neg_neg_eq x, opposite, neg_neg_eq]
  · exact eq_of_hasValue above (hx.hasValue above.le) (hy.hasValue above.le)

theorem eq_zero_or_of_hasSigned (h : HasSigned (exactValue x) 0) : x = 0 ∨ x = -0 := by
  obtain ⟨s, zero⟩ := (h.hasValue le_rfl).exists_zero
  cases s with
  | positive => exact .inl (eq_of_exactValue_eq zero)
  | negative => exact .inr (eq_of_exactValue_eq zero)

/-- What is equal to a finite number is finite. -/
theorem isFinite_of_beq (finite : x.isFinite = true) (same : (x == y) = true) : y.isFinite = true := by
  obtain ⟨v, hx⟩ := exists_hasSigned finite
  have same : (exactValue x).beq (exactValue y) = true := same
  change (exactValue y).isFinite = true
  generalize exactValue x = a at hx same
  generalize exactValue y = b at same ⊢
  cases b with
  | zero => rfl
  | finite => rfl
  | notANumber => cases hx <;> cases same
  | infinity s => cases s <;> cases hx <;> cases same

/-- The two zeros, in any order. -/
def OppositeZeros (x y : Float) : Prop := (x = 0 ∧ y = -0) ∨ (x = -0 ∧ y = 0)

/-- Equal numbers are the same unless they are zeros of different signs. -/
theorem eq_or_oppositeZeros_of_beq (finite : x.isFinite = true) (same : (x == y) = true) :
    x = y ∨ OppositeZeros x y := by
  obtain ⟨v, hx⟩ := exists_hasSigned finite
  obtain ⟨w, hy⟩ := exists_hasSigned (isFinite_of_beq finite same)
  obtain rfl : v = w := (beq_iff_of_hasSigned hx hy).1 same
  by_cases zero : v = 0
  · subst zero
    rcases eq_zero_or_of_hasSigned hx with rfl | rfl <;> rcases eq_zero_or_of_hasSigned hy with rfl | rfl
    · exact .inl rfl
    · exact .inr (.inl ⟨rfl, rfl⟩)
    · exact .inr (.inr ⟨rfl, rfl⟩)
    · exact .inl rfl
  · exact .inl (eq_of_hasSigned zero hx hy)

/-- The two zeros lie between the negative and the positive numbers. -/
theorem cases_of_isFinite (finite : x.isFinite = true) : x < 0 ∨ x = 0 ∨ x = -0 ∨ 0 < x := by
  obtain ⟨v, hx⟩ := exists_hasSigned finite
  have zero := hasValue_zero.signed
  rcases lt_trichotomy v 0 with below | rfl | above
  · exact .inl ((lt_iff_of_hasSigned hx zero).2 below)
  · rcases eq_zero_or_of_hasSigned hx with zero | zero
    · exact .inr (.inl zero)
    · exact .inr (.inr (.inl zero))
  · exact .inr (.inr (.inr ((lt_iff_of_hasSigned zero hx).2 above)))

theorem not_neg_of_pos (finite : x.isFinite = true) (pos : 0 < x) : ¬x < 0 := by
  obtain ⟨v, hx⟩ := exists_hasSigned finite
  have zero := hasValue_zero.signed
  rw [lt_iff_of_hasSigned hx zero]
  exact ((lt_iff_of_hasSigned zero hx).1 pos).not_gt

end Equality

/-- Equal numbers; what is no number is taken to be equal to itself. -/
def SameNumber (x y : Float) : Prop := x = y ∨ (x == y) = true

theorem OppositeZeros.sameNumber {x y : Float} (zeros : OppositeZeros x y) : SameNumber x y := by
  obtain ⟨rfl, rfl⟩ | ⟨rfl, rfl⟩ := zeros <;> exact .inr (by decide +kernel)

/-- A finite number times either zero is zero. -/
theorem OppositeZeros.sameNumber_mul {r x y : Float} {v : ℚ} (h : HasValue (exactValue r) v)
    (zeros : OppositeZeros x y) : SameNumber (r * x) (r * y) := by
  have zero : HasValue (exactValue 0) (0 : ℚ) := .zero .positive
  have negative : HasValue (exactValue (-0)) (0 : ℚ) := .zero .negative
  right
  obtain ⟨rfl, rfl⟩ | ⟨rfl, rfl⟩ := zeros
  · exact (beq_iff_of_hasValue (hasValue_mul_zero h zero) (hasValue_mul_zero h negative)).2 rfl
  · exact (beq_iff_of_hasValue (hasValue_mul_zero h negative) (hasValue_mul_zero h zero)).2 rfl

section Signs

variable {x y : Float} {s : Sign}

/-- Numbers of different signs are different, infinite ones too. -/
theorem not_sameNumber_of_hasSign (hx : HasSign s (exactValue x)) (hy : HasSign (-s) (exactValue y)) :
    ¬SameNumber x y := by
  have differ : (exactValue x).beq (exactValue y) = false ∧ exactValue x ≠ exactValue y := by
    rcases hx with hx | ⟨m, e, pos, hx⟩ <;> rcases hy with hy | ⟨m', e', pos', hy⟩ <;> rw [hx, hy] <;>
      cases s <;> exact ⟨rfl, nofun⟩
  rintro (rfl | same)
  · exact differ.2 rfl
  · exact Bool.false_ne_true (differ.1.symm.trans same)

/-- What is not too small to be stored has its first digit among the places that are kept. -/
theorem le_log2_add {m : Nat} {e : Int} (worth : (2 : ℚ) ^ (-1074 : ℤ) ≤ m * 2 ^ e) :
    -1074 ≤ (m.log2 : ℤ) + e := by
  have short : (m : ℚ) < 2 ^ (m.log2 + 1 : ℤ) := by exact_mod_cast Nat.lt_log2_self
  have bound : (2 : ℚ) ^ (-1074 : ℤ) < 2 ^ (m.log2 + 1 + e : ℤ) := calc
    (2 : ℚ) ^ (-1074 : ℤ) ≤ m * 2 ^ e := worth
    _ < 2 ^ (m.log2 + 1 : ℤ) * 2 ^ e := mul_lt_mul_of_pos_right short (two_zpow_pos e)
    _ = 2 ^ (m.log2 + 1 + e : ℤ) := (two_zpow_add _ _).symm
  have order := (zpow_lt_zpow_iff_right₀ one_lt_two).1 bound
  omega

variable {v w : ℚ}

/-- The product of a positive number with another, if it is not too small to be stored. -/
theorem hasSign_mul {m₁ m₂ : Nat} {e₁ e₂ : Int} {some₁ : 0 < m₁} {some₂ : 0 < m₂}
    (hx : exactValue x = .finite .positive m₁ e₁ some₁) (hy : exactValue y = .finite s m₂ e₂ some₂)
    (worth : (2 : ℚ) ^ (-1074 : ℤ) ≤ m₁ * 2 ^ e₁ * (m₂ * 2 ^ e₂)) : HasSign s (exactValue (x * y)) := by
  have exact : (m₁ * 2 ^ e₁ * (m₂ * 2 ^ e₂) : ℚ) = (m₁ * m₂ : Nat) * 2 ^ (e₁ + e₂) := by
    rw [two_zpow_add]
    push_cast
    ring
  have product : mul .binary64 (exactValue x) (exactValue y) =
      roundWithAccuracy .binary64 s (m₁ * m₂) (e₁ + e₂) .exact := by
    rw [hx, hy]
    cases s <;> rfl
  change HasSign s (Float.Model.pack (mul .binary64 (exactValue x) (exactValue y))).unpack
  rw [product]
  exact hasSign_of_round s .exact (Nat.mul_pos some₁ some₂) (le_log2_add (exact ▸ worth))

/-- A product with a number of either sign has its sign. -/
theorem hasSign_mul_pos (posX : 0 < v) (posY : 0 < w) (hx : HasValue (exactValue x) v)
    (hy : HasSigned (exactValue y) w) (worth : (2 : ℚ) ^ (-1074 : ℤ) ≤ v * w) :
    HasSign .positive (exactValue (x * y)) := by
  obtain ⟨m₁, e₁, some₁, readX, -, rfl⟩ := hx.exists_finite posX
  obtain ⟨m₂, e₂, some₂, readY, -, rfl⟩ := (hy.hasValue posY.le).exists_finite posY
  exact hasSign_mul readX readY worth

theorem hasSign_mul_neg (posX : 0 < v) (negY : w < 0) (hx : HasValue (exactValue x) v)
    (hy : HasSigned (exactValue y) w) (worth : (2 : ℚ) ^ (-1074 : ℤ) ≤ v * -w) :
    HasSign .negative (exactValue (x * y)) := by
  have above := neg_pos.2 negY
  obtain ⟨m₁, e₁, some₁, readX, -, rfl⟩ := hx.exists_finite posX
  obtain ⟨m₂, e₂, some₂, opposite, -, same⟩ := (hy.opposite.hasValue above.le).exists_finite above
  have readY : exactValue y = .finite .negative m₂ e₂ some₂ := by
    rw [← neg_neg_eq y, exactValue_neg, opposite]
    rfl
  exact hasSign_mul readX readY (same ▸ worth)

end Signs

end DomainColoring.Binary64
