import DomainColoring.Proofs.Scalar.Arithmetic

/-!
# Sums and differences

Values of numbers of either sign. A sum that is not below zero is the exact one rounded once, whatever
the signs of what is added (`hasValue_add`), and a difference is the sum with the negation
(`sub_eq_add`).
-/

namespace DomainColoring.Binary64

open Float.Model (Format UnpackedFloat totalExponent)
open Float.Model.UnpackedFloat

/-- The value of a number of either sign, unless it is infinite. -/
inductive HasSigned : UnpackedFloat → ℚ → Prop
  | zero (s : Sign) : HasSigned (.zero s) 0
  | finite (s : Sign) {m : Nat} {e : Int} {pos : 0 < m} (canonical : Canonical m e) :
    HasSigned (.finite s m e pos) ((s.apply m : ℤ) * 2 ^ e)

theorem apply_neg (s : Sign) (n : Int) : (-s).apply n = -s.apply n := by
  cases s with
  | negative => exact (Int.neg_neg n).symm
  | positive => rfl

section Signed

variable {a b : UnpackedFloat} {v w : ℚ}

theorem HasSigned.neg (h : HasSigned a v) : HasSigned a.neg (-v) := by
  cases h with
  | zero s =>
    rw [neg_zero]
    exact .zero (-s)
  | @finite s m e pos canonical =>
    have opposite : -(((s.apply m : ℤ) : ℚ) * 2 ^ e) = ((-s).apply m : ℤ) * 2 ^ e := by
      rw [apply_neg, Int.cast_neg, neg_mul]
    rw [opposite]
    exact .finite (-s) canonical

theorem HasValue.signed (h : HasValue a v) : HasSigned a v := by
  rcases h.zero_or_finite with ⟨s, rfl, rfl⟩ | ⟨m, e, pos, rfl, canonical, rfl⟩
  · exact .zero s
  · exact .finite .positive canonical

theorem HasSigned.hasValue (h : HasSigned a v) (nonneg : 0 ≤ v) : HasValue a v := by
  cases h with
  | zero s => exact .zero s
  | @finite s m e pos canonical =>
    cases s with
    | positive => exact .finite canonical
    | negative =>
      have below : ((Sign.negative.apply m : ℤ) * 2 ^ e : ℚ) < 0 :=
        mul_neg_of_neg_of_pos (Int.cast_lt_zero.2 (Int.neg_neg_of_pos (Int.natCast_pos.2 pos)))
          (two_zpow_pos e)
      exact absurd nonneg below.not_ge

/-- Comparing numbers of either sign compares their values. -/
theorem HasSigned.exists_compare (ha : HasSigned a v) (hb : HasSigned b w) :
    ∃ o, a.compare b = some o ∧ o.Compares v w := by
  have above : ∀ {m : Nat} {e : Int}, 0 < m → (0 : ℚ) < (Sign.positive.apply m : ℤ) * 2 ^ e :=
    fun pos => mul_pos (Int.cast_pos.2 (Int.natCast_pos.2 pos)) (two_zpow_pos _)
  have below : ∀ {m : Nat} {e : Int}, 0 < m → ((Sign.negative.apply m : ℤ) * 2 ^ e : ℚ) < 0 :=
    fun pos => mul_neg_of_neg_of_pos
      (Int.cast_lt_zero.2 (Int.neg_neg_of_pos (Int.natCast_pos.2 pos))) (two_zpow_pos _)
  cases ha with
  | zero s =>
    cases hb with
    | zero t => exact ⟨.eq, rfl, rfl⟩
    | @finite t m e pos =>
      cases t with
      | positive => exact ⟨.lt, rfl, above pos⟩
      | negative => exact ⟨.gt, rfl, below pos⟩
  | @finite s m₁ e₁ pos₁ h₁ =>
    cases hb with
    | zero t =>
      cases s with
      | positive => exact ⟨.gt, rfl, above pos₁⟩
      | negative => exact ⟨.lt, rfl, below pos₁⟩
    | @finite t m₂ e₂ pos₂ h₂ =>
      have order := compares_finite h₁ h₂ pos₁ pos₂
      cases s with
      | positive =>
        cases t with
        | positive => exact ⟨_, rfl, order⟩
        | negative => exact ⟨.gt, rfl, (below pos₂).trans (above pos₁)⟩
      | negative =>
        cases t with
        | positive => exact ⟨.lt, rfl, (below pos₁).trans (above pos₂)⟩
        | negative =>
          refine ⟨_, rfl, ?_⟩
          have opposite (m : Nat) (e : Int) :
              ((Sign.negative.apply m : ℤ) * 2 ^ e : ℚ) = -(m * 2 ^ e) := by
            rw [← neg_mul]
            exact congrArg (· * 2 ^ e) (Int.cast_neg (m : ℤ))
          rw [opposite, opposite]
          generalize (compare e₁ e₂).then (compare m₁ m₂) = o at order ⊢
          cases o with
          | lt => exact neg_lt_neg order
          | eq => exact congrArg _ order
          | gt => exact neg_lt_neg order

theorem HasSigned.le (ha : HasSigned a v) (hb : HasSigned b w) (le : a.le b = true) : v ≤ w := by
  obtain ⟨o, compared, order⟩ := ha.exists_compare hb
  rw [Float.Model.UnpackedFloat.le, compared, Option.any_some] at le
  rw [← not_lt, ← order.eq_gt]
  rintro rfl
  cases le

theorem exists_hasSigned {x : Float} (finite : x.isFinite = true) :
    ∃ v, HasSigned (exactValue x) v := by
  have finite : (exactValue x).isFinite = true := finite
  cases read : exactValue x with
  | infinity s =>
    rw [read] at finite
    cases finite
  | notANumber =>
    rw [read] at finite
    cases finite
  | zero s => exact ⟨0, .zero s⟩
  | finite s m e pos => exact ⟨_, .finite s (canonical_of_unpack read)⟩

/-- What lies between two finite numbers is finite. -/
theorem HasSigned.isFinite_between {c : UnpackedFloat} (ha : HasSigned a v) (hb : HasSigned b w)
    (least : a.le c = true) (most : c.le b = true) : c.isFinite = true := by
  cases c with
  | zero => rfl
  | finite => rfl
  | notANumber => cases most
  | infinity s =>
    cases s with
    | positive => cases hb <;> cases most
    | negative => cases ha <;> cases least

theorem exists_hasSigned_between {x low high : Float} (hl : HasSigned (exactValue low) v)
    (hh : HasSigned (exactValue high) w) (least : low ≤ x) (most : x ≤ high) :
    ∃ u, HasSigned (exactValue x) u ∧ v ≤ u ∧ u ≤ w := by
  have least : (exactValue low).le (exactValue x) = true := of_decide_eq_true least
  have most : (exactValue x).le (exactValue high) = true := of_decide_eq_true most
  obtain ⟨u, h⟩ := exists_hasSigned (x := x) (hl.isFinite_between hh least most)
  exact ⟨u, h, hl.le h least, h.le hh most⟩

end Signed

section Sum

variable {a b : UnpackedFloat} {x y : Float} {v w : ℚ}

/-- A machine number is stored as itself. -/
theorem HasSigned.hasValue_pack (h : HasSigned a v) (nonneg : 0 ≤ v) :
    HasValue (Float.Model.pack a).unpack (stored v) := by
  have value := h.hasValue nonneg
  have kept : (Float.Model.pack a).unpack = a := by
    cases h with
    | zero s => cases s <;> rfl
    | finite s canonical => exact unpack_pack_of_canonical s _ canonical
  rw [kept, stored_of_hasValue value]
  exact value

/-- A smaller exponent makes the significand longer and leaves the value. -/
theorem apply_decreaseExponent (s : Sign) (m : Nat) {e t : Int} (le : t ≤ e) :
    ((s.apply (decreaseExponent m e t).1 : ℤ) * 2 ^ t : ℚ) = (s.apply m : ℤ) * 2 ^ e := by
  obtain ⟨k, rfl⟩ := Int.le.dest le
  have amount : (t + k - t).toNat = k := by omega
  have scaled : s.apply (m <<< k : Nat) = s.apply m * 2 ^ k := by
    rw [Nat.shiftLeft_eq]
    cases s <;> simp [Sign.apply]
  rw [decreaseExponent, amount, scaled, two_zpow_add]
  push_cast
  rw [zpow_natCast]
  ring

/-- The sum of numbers of any sign is that of their values, rounded once, if it is not below zero. -/
theorem HasSigned.hasValue_add (ha : HasSigned a v) (hb : HasSigned b w) (nonneg : 0 ≤ v + w) :
    HasValue (Float.Model.pack (add .binary64 a b)).unpack (stored (v + w)) := by
  cases ha with
  | zero s =>
    cases hb with
    | zero t =>
      rw [add_zero, stored_zero]
      cases s <;> cases t <;> exact hasValue_pack_zero _
    | finite t canonical =>
      rw [zero_add] at nonneg ⊢
      exact (HasSigned.finite t canonical).hasValue_pack nonneg
  | @finite s m₁ e₁ pos₁ h₁ =>
    cases hb with
    | zero t =>
      rw [add_zero] at nonneg ⊢
      exact (HasSigned.finite s h₁).hasValue_pack nonneg
    | @finite t m₂ e₂ pos₂ h₂ =>
      -- both are written with the smaller exponent, and the significands are added
      change HasValue (Float.Model.pack (UnpackedFloat.normalize .binary64
        (s.apply (decreaseExponent m₁ e₁ (min e₁ e₂)).1 + t.apply (decreaseExponent m₂ e₂ (min e₁ e₂)).1)
        (min e₁ e₂) .positive)).unpack _
      rw [← apply_decreaseExponent s m₁ (min_le_left e₁ e₂),
        ← apply_decreaseExponent t m₂ (min_le_right e₁ e₂), ← add_mul, ← Int.cast_add] at nonneg ⊢
      exact hasValue_normalize _ (by exact_mod_cast nonneg_of_mul_nonneg_left nonneg (two_zpow_pos _))

/-- A difference is the sum with the negation. -/
theorem sub_eq_add (spec : Format) (a b : UnpackedFloat) : sub spec a b = add spec a b.neg := by
  cases a <;> cases b <;> simp only [sub, add, UnpackedFloat.neg, apply_neg, Int.sub_eq_add_neg]

theorem hasValue_add (hx : HasSigned (exactValue x) v) (hy : HasSigned (exactValue y) w)
    (nonneg : 0 ≤ v + w) : HasValue (exactValue (x + y)) (stored (v + w)) :=
  hx.hasValue_add hy nonneg

/-- The difference of numbers is that of their values, rounded once. -/
theorem hasValue_sub (hx : HasSigned (exactValue x) v) (hy : HasSigned (exactValue y) w)
    (le : w ≤ v) : HasValue (exactValue (x - y)) (stored (v - w)) := by
  change HasValue (Float.Model.pack (sub .binary64 (exactValue x) (exactValue y))).unpack _
  rw [sub_eq_add, sub_eq_add_neg]
  exact hx.hasValue_add hy.neg (by linarith)

end Sum

end DomainColoring.Binary64
