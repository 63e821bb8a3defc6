import DomainColoring.Proofs.Decimal.Literal
import DomainColoring.Proofs.Scalar.Canonical

/-!
# Numbers are read back

The shortest decimal of a positive machine number is read as that number (`shortest_readsAs`).
What the search accepts on a grid was tried; all the digits, which it falls back on, are read
exactly: the product or quotient that reading them computes has no remainder and is rounded to its
canonical form.
-/

namespace DomainColoring.Decimal

open Float.Model (Format UnpackedFloat totalExponent)
open Float.Model.UnpackedFloat
open Binary64 (Canonical)

section Exact

variable {m : Nat} {e : Int}

/-- Whole numbers are read as a product by `10 ^ 0`. -/
theorem ofScientific_whole (pos : 0 < m) (h : Canonical m e) (whole : 0 ≤ e) :
    ofScientific .binary64 (m * 2 ^ e.toNat) 0 = .finite .positive m e pos := by
  have some : m * 2 ^ e.toNat ≠ 0 := Nat.ne_of_gt (Nat.mul_pos pos (Nat.two_pow_pos _))
  have shifted : (m * 2 ^ e.toNat) <<< 53 * 10 ^ (0 : Int).toNat = m * 2 ^ (e.toNat + 53) := by
    rw [Nat.shiftLeft_eq, Int.toNat_zero, pow_zero, mul_one, pow_add, mul_assoc]
  have exponent : -((53 : Nat) : Int) + 0 = e - (e.toNat + 53 : Nat) := by omega
  have range : (2 : Int) ^ Format.binary64.exponentBits = 2048 := rfl
  unfold ofScientific
  rw [dif_neg some, if_neg (by decide), if_neg (by omega), if_pos (Int.le_refl 0)]
  simp only [mul, Binary64.mantissaBits_eq, shifted, exponent]
  exact Binary64.round_of_canonical .positive pos h (e.toNat + 53)

theorem log2_mul_le {a b : Nat} (ha : 0 < a) (hb : 0 < b) : (a * b).log2 ≤ a.log2 + b.log2 + 1 := by
  have some : a * b ≠ 0 := Nat.ne_of_gt (Nat.mul_pos ha hb)
  have below : a * b < 2 ^ (a.log2 + 1) * 2 ^ (b.log2 + 1) :=
    Nat.mul_lt_mul'' Nat.lt_log2_self Nat.lt_log2_self
  rw [← Nat.pow_add] at below
  have short : (a * b).log2 < a.log2 + 1 + (b.log2 + 1) := (Nat.log2_lt some).2 below
  omega

/-- A quotient by `10 ^ k` is computed with at least `k` binary places, and those are enough for
`m / 2 ^ k`. -/
theorem divCore_exact {k : Nat} (pos : 0 < m) (h : Canonical m (-k)) :
    ∃ j : Nat,
      divCore .binary64 (m * 5 ^ k) 0 (10 ^ k) 0 = (m * 2 ^ j, -(k : Int) - j, .exact) := by
  have five : 0 < 5 ^ k := Nat.pow_pos (by decide)
  have ten : 10 ^ k = 5 ^ k * 2 ^ k := by rw [← Nat.mul_pow]
  have top : (m * 5 ^ k).log2 ≤ m.log2 + (5 ^ k).log2 + 1 := log2_mul_le pos five
  have bottom : (10 ^ k).log2 = (5 ^ k).log2 + k := by
    rw [ten, Binary64.log2_mul_two_pow five]
  -- the estimate of the quotient's size errs to the low side, if at all
  have low : min (0 - 0) (Format.binary64.targetExponent
      (totalExponent (m * 5 ^ k) 0 - totalExponent (10 ^ k) 0)) ≤ -(k : Int) := by
    have target := h.target
    rw [Binary64.targetExponent_eq] at target ⊢
    simp only [totalExponent] at target ⊢
    omega
  obtain ⟨j, least⟩ := Int.le.dest low
  refine ⟨j, ?_⟩
  rw [← eq_sub_iff_add_eq] at least
  have places : (0 - 0 - (-(k : Int) - j)).toNat = k + j := by omega
  have dividend : (m * 5 ^ k) <<< (k + j) = 10 ^ k * (m * 2 ^ j) := by
    rw [Nat.shiftLeft_eq, ten, pow_add]
    ring
  have quotient : 10 ^ k * (m * 2 ^ j) / 10 ^ k = m * 2 ^ j :=
    Nat.mul_div_cancel_left _ (Nat.pow_pos (by decide))
  simp only [divCore, least, places, dividend, quotient, Nat.mul_mod_right]
  rfl

theorem ofScientific_fraction {k : Nat} (pos : 0 < m) (h : Canonical m (-k)) (some : 0 < k) :
    ofScientific .binary64 (m * 5 ^ k) (-k) = .finite .positive m (-k) pos := by
  have digits : m * 5 ^ k ≠ 0 := Nat.ne_of_gt (Nat.mul_pos pos (Nat.pow_pos (by decide)))
  have near : (k : Int) ≤ 1074 := by
    have target := h.target
    rw [Binary64.targetExponent_eq] at target
    omega
  have places : (-(-(k : Int))).toNat = k := by omega
  obtain ⟨j, quotient⟩ := divCore_exact pos h
  have range : (2 : Int) ^ Format.binary64.exponentBits = 2048 := rfl
  unfold ofScientific
  rw [dif_neg digits, if_neg (by omega), if_neg (by omega), if_neg (by omega)]
  simp only [div, places, quotient]
  exact Binary64.round_of_canonical .positive pos h j

end Exact

section Search

variable {x : Float} {m : Nat} {e : Int} {pos : 0 < m}

/-- All the digits of a machine number are read as the number. -/
theorem exact_readsAs (h : Binary64.exactValue x = .finite .positive m e pos) :
    (exact m e).readsAs x = true := by
  have canonical : Canonical m e := Binary64.canonical_of_unpack h
  have together : Float.Model.pack (.finite .positive m e pos) = x.toModel := by
    rw [← h]
    exact Binary64.pack_unpack x.toModel
  suffices read : ofScientific .binary64 (exact m e).expand.digits (exact m e).expand.exponent =
      .finite .positive m e pos by
    refine decide_eq_true ?_
    rw [toFloat, Float.Model.ofScientific, read, together]
  rcases Int.lt_or_le e 0 with fraction | whole
  · obtain ⟨k, rfl⟩ : ∃ k : Nat, e = -k := ⟨(-e).toNat, by omega⟩
    have places : (-(-(k : Int))).toNat = k := by omega
    rw [exact, if_neg (by omega), expand, if_neg (by dsimp only; omega), places]
    exact ofScientific_fraction pos canonical (by omega)
  · rw [exact, if_pos whole, expand, if_pos (Int.le_refl 0)]
    simp only [Int.toNat_zero, Nat.pow_eq, pow_zero, mul_one]
    exact ofScientific_whole pos canonical whole

/-- A decimal that a grid offers was tried. -/
theorem readsAs_of_onGrid {tie : Tie} {g : Int} {d : Decimal} (h : onGrid tie x m e g = some d) :
    d.readsAs x = true := by
  unfold onGrid at h
  dsimp only at h
  split at h
  · next below above =>
    cases h
    -- rounding chooses between two decimals that were both tried
    have neighbour : roundDiv tie (ratio m e g).1 (ratio m e g).2 = _ ∨ _ :=
      roundDiv_eq tie (ratio_pos m e g)
    rcases neighbour with low | high
    · rwa [low]
    · rwa [high]
  · next below _ =>
    cases h
    exact below
  · next _ above =>
    cases h
    exact above
  · cases h

theorem search_readsAs (tie : Tie) (h : Binary64.exactValue x = .finite .positive m e pos) (n : Nat)
    (g : Int) : (search tie x m e n g).readsAs x = true := by
  induction n generalizing g with
  | zero => exact exact_readsAs h
  | succ n ih =>
    rw [search]
    cases hit : onGrid tie x m e g with
    | none => exact ih (g - 1)
    | some d => exact readsAs_of_onGrid hit

theorem shortest_readsAs (tie : Tie) (h : Binary64.exactValue x = .finite .positive m e pos) :
    (shortest tie x m e).readsAs x = true :=
  search_readsAs tie h 20 (coarsestGrid m e)

end Search

end DomainColoring.Decimal
