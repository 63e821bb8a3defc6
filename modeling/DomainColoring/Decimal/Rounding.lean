/-!
# Rounding quotients

The natural number nearest to a quotient. It is within half a unit of the quotient
(`two_mul_le_roundDiv`, `roundDiv_le_two_mul`), so it is one of the two numbers next to it
(`roundDiv_eq`); which of two equally near numbers it is, a `Tie` says.
-/

namespace DomainColoring.Decimal

/-- Which of two equally near numbers is chosen. -/
inductive Tie where
  /-- The larger. -/
  | up
  /-- The even one. -/
  | even
deriving DecidableEq, Repr

/-- Whether a number between `low` and `low + 1` rounds to `low`, for the order of its double and
the odd number between. -/
def roundsDown (tie : Tie) (low : Nat) : Ordering → Bool
  | .lt => true
  | .gt => false
  | .eq => tie = .even && low % 2 = 0

/-- The quotient rounded to the nearest natural number. -/
def roundDiv (tie : Tie) (num den : Nat) : Nat :=
  let low := num / den
  if roundsDown tie low (compare (2 * num) ((2 * low + 1) * den)) then low else low + 1

theorem le_of_roundsDown {tie : Tie} {low a b : Nat} (h : roundsDown tie low (compare a b) = true) :
    a ≤ b := by
  rcases Nat.lt_trichotomy a b with lt | rfl | gt
  · exact Nat.le_of_lt lt
  · exact Nat.le_refl a
  · rw [Nat.compare_eq_gt.2 gt] at h
    cases h

theorem ge_of_not_roundsDown {tie : Tie} {low a b : Nat}
    (h : ¬ roundsDown tie low (compare a b) = true) : b ≤ a := by
  rcases Nat.lt_or_ge a b with lt | ge
  · rw [Nat.compare_eq_lt.2 lt] at h
    exact absurd rfl h
  · exact ge

/-- Half a unit more than the rounded quotient is no less than the quotient. -/
theorem two_mul_le_roundDiv (tie : Tie) {num den : Nat} (h : 0 < den) :
    2 * num ≤ (2 * roundDiv tie num den + 1) * den := by
  unfold roundDiv
  dsimp only
  split
  · exact le_of_roundsDown (by assumption)
  · have lt := Nat.lt_mul_div_succ num h
    have le : (2 * (num / den + 1)) * den ≤ (2 * (num / den + 1) + 1) * den :=
      Nat.mul_le_mul_right den (Nat.le_succ _)
    rw [Nat.mul_comm den] at lt
    rw [Nat.mul_assoc] at le
    omega

/-- Half a unit less than the rounded quotient is no more than the quotient. -/
theorem roundDiv_le_two_mul (tie : Tie) (num den : Nat) :
    2 * roundDiv tie num den * den ≤ 2 * num + den := by
  unfold roundDiv
  dsimp only
  split
  · have le := Nat.div_mul_le_self num den
    rw [Nat.mul_assoc]
    omega
  · have ge := ge_of_not_roundsDown (by assumption)
    have expand : 2 * (num / den + 1) * den = (2 * (num / den) + 1) * den + den :=
      Nat.succ_mul (2 * (num / den) + 1) den
    omega

/-- What is within half a unit of a quotient is one of the two numbers next to it. -/
theorem roundDiv_eq (tie : Tie) {num den : Nat} (h : 0 < den) :
    roundDiv tie num den = num / den ∨ roundDiv tie num den = num / den + 1 := by
  have lower : 2 * num ≤ (2 * roundDiv tie num den + 1) * den := two_mul_le_roundDiv tie h
  have upper : 2 * roundDiv tie num den * den ≤ 2 * num + den := roundDiv_le_two_mul tie num den
  generalize roundDiv tie num den = r at lower upper ⊢
  have floor : 2 * (num / den) * den ≤ 2 * num := by
    rw [Nat.mul_assoc]
    exact Nat.mul_le_mul_left 2 (Nat.div_mul_le_self num den)
  have above : 2 * num + den < (2 * (num / den) + 3) * den := by
    have lt := Nat.lt_mul_div_succ num h
    have expand : (2 * (num / den) + 3) * den = 2 * ((num / den + 1) * den) + den := by
      rw [← Nat.mul_assoc]
      exact Nat.succ_mul (2 * (num / den + 1)) den
    rw [Nat.mul_comm] at lt
    omega
  have le : 2 * (num / den) ≤ 2 * r + 1 := Nat.le_of_mul_le_mul_right (Nat.le_trans floor lower) h
  have lt : 2 * r < 2 * (num / den) + 3 := Nat.lt_of_mul_lt_mul_right (Nat.lt_of_le_of_lt upper above)
  omega

end DomainColoring.Decimal
