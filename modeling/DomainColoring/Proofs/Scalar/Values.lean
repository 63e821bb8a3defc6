import DomainColoring.Proofs.Scalar.Quotient
import DomainColoring.Proofs.Scalar.Rounding

/-!
# Values of machine numbers

The value of a number that is not below zero, with infinity above all others. Comparing numbers compares
their values, and numbers above zero with one value are the same.
-/

namespace DomainColoring.Binary64

open Float.Model (Format UnpackedFloat totalExponent)
open Float.Model.UnpackedFloat

/-- The exact value of a number; 0 for what has none. -/
def value (x : Float) : ℚ :=
  match exactValue x with
  | .finite .positive m e _ => m * 2 ^ e
  | .finite .negative m e _ => -(m * 2 ^ e)
  | _ => 0

/-- The value of what is not below zero; infinity is above all others. -/
inductive HasValue : UnpackedFloat → WithTop ℚ → Prop
  | zero (s : Sign) : HasValue (.zero s) (0 : ℚ)
  | finite {m : Nat} {e : Int} {pos : 0 < m} (canonical : Canonical m e) :
    HasValue (.finite .positive m e pos) (m * 2 ^ e : ℚ)
  | infinity : HasValue (.infinity .positive) ⊤

section Inversion

variable {a : UnpackedFloat} {v : ℚ}

theorem HasValue.exists_finite (pos : 0 < v) (h : HasValue a v) :
    ∃ m e, ∃ some : 0 < m, a = .finite .positive m e some ∧ Canonical m e ∧ v = m * 2 ^ e := by
  generalize same : (v : WithTop ℚ) = u at h
  cases h with
  | zero => exact absurd (WithTop.coe_injective same) pos.ne'
  | infinity => exact absurd same WithTop.coe_ne_top
  | @finite m e some canonical =>
    exact ⟨m, e, some, rfl, canonical, WithTop.coe_injective same⟩

theorem HasValue.exists_zero (h : HasValue a (0 : ℚ)) : ∃ s, a = .zero s := by
  generalize same : ((0 : ℚ) : WithTop ℚ) = u at h
  cases h with
  | zero s => exact ⟨s, rfl⟩
  | infinity => exact absurd same WithTop.coe_ne_top
  | @finite m e some =>
    have positive : (0 : ℚ) < m * 2 ^ e := mul_pos (Nat.cast_pos.2 some) (two_zpow_pos e)
    exact absurd (WithTop.coe_injective same) positive.ne

theorem HasValue.eq_infinity (h : HasValue a ⊤) : a = .infinity .positive := by
  generalize same : (⊤ : WithTop ℚ) = u at h
  cases h with
  | zero => exact absurd same.symm WithTop.coe_ne_top
  | finite => exact absurd same.symm WithTop.coe_ne_top
  | infinity => rfl

theorem HasValue.nonneg {w : WithTop ℚ} (h : HasValue a w) : 0 ≤ w := by
  cases h with
  | zero => exact le_rfl
  | @finite m e some =>
    exact WithTop.coe_le_coe.2 (mul_nonneg m.cast_nonneg (two_zpow_pos e).le)
  | infinity => exact le_top

theorem HasValue.coe_nonneg (h : HasValue a v) : 0 ≤ v := WithTop.coe_nonneg.1 h.nonneg

theorem HasValue.short (h : HasValue a v) : Short v := by
  generalize same : (v : WithTop ℚ) = u at h
  cases h with
  | infinity => exact absurd same WithTop.coe_ne_top
  | zero s =>
    rw [WithTop.coe_injective same]
    exact ⟨0, 0, by norm_num, by norm_num, by simp⟩
  | @finite m e some canonical =>
    have length := canonical.log2_le
    exact ⟨m, e, (Nat.log2_lt (Nat.ne_of_gt some)).1 (by omega), canonical.exponent.1,
      WithTop.coe_injective same⟩

/-- A number with a finite value is a zero or is above it. -/
theorem HasValue.zero_or_finite (h : HasValue a v) : (∃ s, a = .zero s ∧ v = 0) ∨
    ∃ m e, ∃ some : 0 < m, a = .finite .positive m e some ∧ Canonical m e ∧ v = m * 2 ^ e := by
  rcases h.coe_nonneg.eq_or_lt with rfl | pos
  · obtain ⟨s, zero⟩ := h.exists_zero
    exact .inl ⟨s, zero, rfl⟩
  · exact .inr (h.exists_finite pos)

theorem HasValue.lt_two_zpow (h : HasValue a v) : v < 2 ^ (1024 : ℤ) := by
  rcases h.zero_or_finite with ⟨-, -, rfl⟩ | ⟨m, e, pos, -, canonical, rfl⟩
  · exact two_zpow_pos _
  · have length := canonical.log2_le
    exact mul_two_zpow_lt ((Nat.log2_lt (Nat.ne_of_gt pos)).1 (by omega)) canonical.le

end Inversion

/-- What a result is stored as: rounded, or infinity if that is too large. -/
def stored (x : ℚ) : WithTop ℚ := if rounded x < 2 ^ (1024 : ℤ) then rounded x else ⊤

section Stored

variable {x y : ℚ}

theorem stored_zero : stored 0 = (0 : ℚ) := by
  rw [stored, rounded_zero, if_pos (two_zpow_pos _)]

/-- A larger result is stored as nothing smaller. -/
theorem stored_mono (nonneg : 0 ≤ x) (le : x ≤ y) : stored x ≤ stored y := by
  have order := rounded_mono nonneg le
  unfold stored
  split_ifs with small large large
  · exact WithTop.coe_le_coe.2 order
  · exact le_top
  · exact absurd (order.trans_lt large) small
  · exact le_rfl

/-- The value of a machine number is stored as it is. -/
theorem stored_of_hasValue {a : UnpackedFloat} (h : HasValue a x) : stored x = x := by
  rw [stored, rounded_eq_self h.short, if_pos h.lt_two_zpow]

/-- What is too large to be stored is larger than any number. -/
theorem min_stored (small : y < 2 ^ (1024 : ℤ)) :
    min (stored x) (y : WithTop ℚ) = (min (rounded x) y : ℚ) := by
  unfold stored
  split_ifs with stays
  · exact (WithTop.coe_min _ _).symm
  · rw [min_eq_right le_top, min_eq_right (small.le.trans (not_lt.1 stays))]

end Stored

section Compare

variable {a b : UnpackedFloat} {v w : WithTop ℚ}

/-- The larger exponent is that of the larger number. -/
theorem Canonical.mul_lt_mul {m₁ m₂ : Nat} {e₁ e₂ : Int} (h₁ : Canonical m₁ e₁)
    (h₂ : Canonical m₂ e₂) (pos : 0 < m₂) (less : e₁ < e₂) : (m₁ * 2 ^ e₁ : ℚ) < m₂ * 2 ^ e₂ := by
  obtain ⟨least, -⟩ := h₁.exponent
  have full : m₂.log2 = 52 := by
    by_contra notFull
    have same := h₂.exponent.2
    rw [if_neg notFull] at same
    omega
  have short := h₁.log2_le
  have top : (2 : ℚ) ^ 52 ≤ m₂ := by
    exact_mod_cast full ▸ Nat.log2_self_le (Nat.ne_of_gt pos)
  have bottom : (m₁ : ℚ) < 2 ^ 53 := by
    exact_mod_cast Nat.lt_log2_self.trans_le (Nat.pow_le_pow_right (by decide) (by omega))
  calc
    (m₁ * 2 ^ e₁ : ℚ) < 2 ^ 53 * 2 ^ e₁ := mul_lt_mul_of_pos_right bottom (two_zpow_pos _)
    _ = 2 ^ 52 * 2 ^ (1 + e₁) := by rw [two_zpow_add]; ring
    _ ≤ 2 ^ 52 * 2 ^ e₂ :=
      mul_le_mul_of_nonneg_left (zpow_le_zpow_right₀ one_le_two (by omega)) (by norm_num)
    _ ≤ m₂ * 2 ^ e₂ := mul_le_mul_of_nonneg_right top (two_zpow_pos _).le

theorem compares_finite {m₁ m₂ : Nat} {e₁ e₂ : Int} (h₁ : Canonical m₁ e₁) (h₂ : Canonical m₂ e₂)
    (pos₁ : 0 < m₁) (pos₂ : 0 < m₂) :
    ((compare e₁ e₂).then (compare m₁ m₂)).Compares (m₁ * 2 ^ e₁ : ℚ) (m₂ * 2 ^ e₂) := by
  rcases lt_trichotomy e₁ e₂ with less | rfl | more
  · rw [compare_lt_iff_lt.2 less]
    exact h₁.mul_lt_mul h₂ pos₂ less
  · have unit := two_zpow_pos e₁
    rw [compare_eq_iff_eq.2 rfl]
    rcases lt_trichotomy m₁ m₂ with less | rfl | more
    · rw [compare_lt_iff_lt.2 less]
      exact mul_lt_mul_of_pos_right (Nat.cast_lt.2 less) unit
    · rw [compare_eq_iff_eq.2 rfl]
      rfl
    · rw [compare_gt_iff_gt.2 more]
      exact mul_lt_mul_of_pos_right (Nat.cast_lt.2 more) unit
  · rw [compare_gt_iff_gt.2 more]
    exact h₂.mul_lt_mul h₁ pos₁ more

/-- Comparing numbers compares their values. -/
theorem HasValue.exists_compare (ha : HasValue a v) (hb : HasValue b w) :
    ∃ o, a.compare b = some o ∧ o.Compares v w := by
  have positive : ∀ {m : Nat} {e : Int}, 0 < m → (0 : WithTop ℚ) < (m * 2 ^ e : ℚ) := by
    intro m e pos
    exact WithTop.coe_lt_coe.2 (mul_pos (Nat.cast_pos.2 pos) (two_zpow_pos e))
  cases ha with
  | zero s =>
    cases hb with
    | zero => exact ⟨.eq, rfl, rfl⟩
    | @finite m e pos => exact ⟨.lt, rfl, positive pos⟩
    | infinity => exact ⟨.lt, rfl, WithTop.coe_lt_top _⟩
  | @finite m₁ e₁ pos₁ h₁ =>
    cases hb with
    | zero => exact ⟨.gt, rfl, positive pos₁⟩
    | @finite m₂ e₂ pos₂ h₂ =>
      refine ⟨_, rfl, ?_⟩
      have order := compares_finite h₁ h₂ pos₁ pos₂
      generalize (compare e₁ e₂).then (compare m₁ m₂) = o at order ⊢
      cases o with
      | lt => exact WithTop.coe_lt_coe.2 order
      | eq => exact congrArg _ order
      | gt => exact WithTop.coe_lt_coe.2 order
    | infinity => exact ⟨.lt, rfl, WithTop.coe_lt_top _⟩
  | infinity =>
    cases hb with
    | zero => exact ⟨.gt, rfl, WithTop.coe_lt_top _⟩
    | finite => exact ⟨.gt, rfl, WithTop.coe_lt_top _⟩
    | infinity => exact ⟨.eq, rfl, rfl⟩

end Compare

section Numbers

variable {x y : Float} {v w : WithTop ℚ}

section Ordered

variable {α : Type} [LinearOrder α] {v w : α} {o : Ordering}
  (compared : (exactValue x).compare (exactValue y) = some o) (order : o.Compares v w)

include compared order

theorem beq_iff_of_compares : (x == y) = true ↔ v = w := by
  change (exactValue x).beq (exactValue y) = true ↔ _
  rw [Float.Model.UnpackedFloat.beq, compared, beq_iff_eq, Option.some_inj, order.eq_eq]

theorem lt_iff_of_compares : x < y ↔ v < w := by
  have less : x < y ↔ (exactValue x).lt (exactValue y) = true := decide_eq_true_iff
  rw [less, Float.Model.UnpackedFloat.lt, compared, beq_iff_eq, Option.some_inj, order.eq_lt]

theorem le_iff_of_compares : x ≤ y ↔ v ≤ w := by
  have least : x ≤ y ↔ (exactValue x).le (exactValue y) = true := decide_eq_true_iff
  rw [least, Float.Model.UnpackedFloat.le, compared, Option.any_some, ← not_lt, ← order.eq_gt]
  cases o <;> simp

end Ordered

theorem beq_iff_of_hasValue (hx : HasValue (exactValue x) v) (hy : HasValue (exactValue y) w) :
    (x == y) = true ↔ v = w := by
  obtain ⟨o, compared, order⟩ := hx.exists_compare hy
  exact beq_iff_of_compares compared order

theorem lt_iff_of_hasValue (hx : HasValue (exactValue x) v) (hy : HasValue (exactValue y) w) :
    x < y ↔ v < w := by
  obtain ⟨o, compared, order⟩ := hx.exists_compare hy
  exact lt_iff_of_compares compared order

theorem le_iff_of_hasValue (hx : HasValue (exactValue x) v) (hy : HasValue (exactValue y) w) :
    x ≤ y ↔ v ≤ w := by
  obtain ⟨o, compared, order⟩ := hx.exists_compare hy
  exact le_iff_of_compares compared order

theorem hasValue_least (hx : HasValue (exactValue x) v) (hy : HasValue (exactValue y) w) :
    HasValue (exactValue (Scalar.least x y)) (min v w) := by
  have less : x < y ↔ v < w := lt_iff_of_hasValue hx hy
  unfold Scalar.least
  by_cases smaller : v < w
  · rw [if_pos (less.2 smaller), min_eq_left smaller.le]
    exact hx
  · rw [if_neg (mt less.1 smaller), min_eq_right (not_lt.1 smaller)]
    exact hy

theorem value_eq_of_hasValue {v : ℚ} (h : HasValue (exactValue x) v) : value x = v := by
  unfold value
  generalize exactValue x = a at h ⊢
  generalize same : (v : WithTop ℚ) = w at h
  cases h with
  | zero s => exact (WithTop.coe_injective same).symm
  | finite => exact (WithTop.coe_injective same).symm
  | infinity => exact absurd same WithTop.coe_ne_top

/-- A number that is read as a positive one. -/
theorem hasValue_of_exactValue_eq {m : Nat} {e : Int} {pos : 0 < m}
    (read : exactValue x = .finite .positive m e pos) : HasValue (exactValue x) (m * 2 ^ e : ℚ) :=
  read ▸ .finite (canonical_of_unpack read)

theorem eq_of_exactValue_eq (same : exactValue x = exactValue y) : x = y := by
  have packed : x.toModel = y.toModel := by
    rw [← pack_unpack x.toModel, ← pack_unpack y.toModel]
    exact congrArg _ same
  exact congrArg Float.ofModel packed

/-- Numbers above zero are told apart by their values. -/
theorem eq_of_hasValue {v : ℚ} (pos : 0 < v) (hx : HasValue (exactValue x) v)
    (hy : HasValue (exactValue y) v) : x = y := by
  apply eq_of_exactValue_eq
  obtain ⟨m₁, e₁, some₁, readX, h₁, first⟩ := hx.exists_finite pos
  obtain ⟨m₂, e₂, some₂, readY, h₂, second⟩ := hy.exists_finite pos
  have same : (m₁ * 2 ^ e₁ : ℚ) = m₂ * 2 ^ e₂ := first.symm.trans second
  obtain rfl : e₁ = e₂ := by
    rcases lt_trichotomy e₁ e₂ with less | equal | more
    · exact absurd same (h₁.mul_lt_mul h₂ some₂ less).ne
    · exact equal
    · exact absurd same (h₂.mul_lt_mul h₁ some₁ more).ne'
  obtain rfl : m₁ = m₂ := Nat.cast_injective (mul_right_cancel₀ (two_zpow_pos e₁).ne' same)
  rw [readX, readY]

end Numbers

end DomainColoring.Binary64
