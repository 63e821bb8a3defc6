import DomainColoring.Proofs.Scalar.Signed

/-!
# Functions of the platform

The logarithm, the sine, the cosine and the angle of a vector are the platform's, so statements about them
take them as parameters (`Platform`), with what the C standard says of their signs, their ranges and their
values on the axes (`Platform.Standard`).
-/

namespace DomainColoring

open Binary64 (exactValue)

theorem Binary64.exactValue_pi :
    exactValue (Elementary.pi : Float) = .finite .positive 7074237752028440 (-51) (by decide) := rfl

/-- The angle of a finite vector is from minus half a turn to half a turn. -/
def Principal (atan2 : Float → Float → Float) : Prop :=
  ∀ y x, y.isFinite = true → x.isFinite = true →
    -(Elementary.pi : Float) ≤ atan2 y x ∧ atan2 y x ≤ Elementary.pi

/-- A right angle. -/
def Binary64.quarterTurn : Float := Elementary.pi / Scalar.ofNat 2

/-- Functions that are not computed from the exact values of numbers. -/
structure Platform where
  log : Float → Float
  sin : Float → Float
  cos : Float → Float
  atan2 : Float → Float → Float

namespace Platform

open Binary64 (quarterTurn)

/-- Machine numbers with the functions of a platform. -/
abbrev elementary (p : Platform) : Elementary Float :=
  { (inferInstance : Elementary Float) with log := p.log, sin := p.sin, cos := p.cos, atan2 := p.atan2 }

/-- The platform that programs run on. -/
def native : Platform := ⟨Float.log, Float.sin, Float.cos, Float.atan2⟩

/-- With its functions, machine numbers are those of every program. -/
theorem elementary_native : native.elementary = (inferInstance : Elementary Float) := rfl

/-- What the C standard says of these functions: zeros keep their signs, the signs of both components decide
the quadrant of an angle, and angles on the axes are multiples of a right angle. Of the sine of a right angle
it is enough that it is nearer to one than to zero. -/
structure Standard (p : Platform) : Prop where
  principal : Principal p.atan2
  upper {y x : Float} : y.isFinite = true → x.isFinite = true → 0 < y → 0 ≤ p.atan2 y x
  right {y x : Float} : y.isFinite = true → x.isFinite = true → 0 < x → -quarterTurn ≤ p.atan2 y x
  negativeAxis {x : Float} : x.isFinite = true → x < 0 →
    p.atan2 0 x = Elementary.pi ∧ p.atan2 (-0) x = -Elementary.pi
  positiveAxis {x : Float} : x.isFinite = true → 0 < x → p.atan2 0 x = 0 ∧ p.atan2 (-0) x = -0
  upperAxis {y : Float} : y.isFinite = true → 0 < y →
    p.atan2 y 0 = quarterTurn ∧ p.atan2 y (-0) = quarterTurn
  lowerAxis {y : Float} : y.isFinite = true → y < 0 →
    p.atan2 y 0 = -quarterTurn ∧ p.atan2 y (-0) = -quarterTurn
  sin_zero : p.sin 0 = 0 ∧ p.sin (-0) = -0
  cos_zero : p.cos 0 = 1 ∧ p.cos (-0) = 1
  sin_quarterTurn : 0.5 ≤ p.sin quarterTurn ∧ p.sin quarterTurn ≤ 1
  sin_neg_quarterTurn : -1 ≤ p.sin (-quarterTurn) ∧ p.sin (-quarterTurn) ≤ -0.5

/-- A platform that is right about the numbers 1 and -1. -/
def realUnits : Platform where
  log _ := 0
  sin x := if x < 0 then -1 else if 0 < x then 1 else x
  cos x := if x == 0 then 1 else 6.123233995736766e-17
  atan2 y x :=
    if y = 0 then if x < 0 then Elementary.pi else 0
    else if y = -0 then if x < 0 then -Elementary.pi else -0
    else if y < 0 then -quarterTurn else quarterTurn

theorem atan2_realUnits_of_neg {y : Float} (below : y < 0) (x : Float) :
    realUnits.atan2 y x = -quarterTurn := by
  have notZero : y ≠ 0 ∧ y ≠ -0 := ⟨fun h => absurd (h ▸ below) (by decide),
    fun h => absurd (h ▸ below) (by decide +kernel)⟩
  change (if y = 0 then _ else if y = -0 then _ else _) = _
  rw [if_neg notZero.1, if_neg notZero.2, if_pos below]

theorem atan2_realUnits_of_pos {y : Float} (finite : y.isFinite = true) (above : 0 < y) (x : Float) :
    realUnits.atan2 y x = quarterTurn := by
  have notZero : y ≠ 0 ∧ y ≠ -0 := ⟨fun h => absurd (h ▸ above) (by decide),
    fun h => absurd (h ▸ above) (by decide +kernel)⟩
  change (if y = 0 then _ else if y = -0 then _ else _) = _
  rw [if_neg notZero.1, if_neg notZero.2, if_neg (Binary64.not_neg_of_pos finite above)]

theorem standard_realUnits : realUnits.Standard where
  principal y x _ _ := by
    change -(Elementary.pi : Float) ≤ (if y = 0 then _ else if y = -0 then _ else _) ∧
      (if y = 0 then _ else if y = -0 then _ else _) ≤ (Elementary.pi : Float)
    split_ifs <;> decide +kernel
  upper finite _ above := by
    rw [atan2_realUnits_of_pos finite above]
    decide +kernel
  right {y x} _ finite above := by
    have notNeg := Binary64.not_neg_of_pos finite above
    change -quarterTurn ≤ (if y = 0 then _ else if y = -0 then _ else _)
    rw [if_neg notNeg, if_neg notNeg]
    split_ifs <;> decide +kernel
  negativeAxis _ left := ⟨if_pos left, if_pos left⟩
  positiveAxis finite right :=
    have notNeg := Binary64.not_neg_of_pos finite right
    ⟨if_neg notNeg, if_neg notNeg⟩
  upperAxis finite above := ⟨atan2_realUnits_of_pos finite above 0, atan2_realUnits_of_pos finite above (-0)⟩
  lowerAxis _ below := ⟨atan2_realUnits_of_neg below 0, atan2_realUnits_of_neg below (-0)⟩
  sin_zero := by decide +kernel
  cos_zero := by decide +kernel
  sin_quarterTurn := by decide +kernel
  sin_neg_quarterTurn := by decide +kernel

end Platform

end DomainColoring
