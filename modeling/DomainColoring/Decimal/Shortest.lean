import DomainColoring.Decimal
import DomainColoring.Decimal.Rounding
import DomainColoring.Scalar.Binary64

/-!
# Shortest decimals

The decimal number with the fewest digits that reads back as a given machine number. Grids of
decimal numbers are tried from the coarsest on; on each only the two neighbours of the value can be
the answer, and a neighbour is accepted only if reading its positional text gives the number back.
-/

namespace DomainColoring.Decimal

/-- Whether positional text for `d` is read as `x`. -/
def readsAs (d : Decimal) (x : Float) : Bool := decide (d.expand.toFloat = x)

/-- The quotient of `m · 2 ^ e` by `10 ^ g`, as a numerator and a denominator. -/
def ratio (m : Nat) (e g : Int) : Nat × Nat :=
  (m * Nat.pow 2 e.toNat * Nat.pow 10 (-g).toNat, Nat.pow 2 (-e).toNat * Nat.pow 10 g.toNat)

theorem ratio_pos (m : Nat) (e g : Int) : 0 < (ratio m e g).2 :=
  Nat.mul_pos (Nat.pow_pos Nat.two_pos) (Nat.pow_pos (by decide))

/-- The multiple of `10 ^ g` that reads as `x`, which is `m · 2 ^ e`; the nearer if two do. -/
def onGrid (tie : Tie) (x : Float) (m : Nat) (e g : Int) : Option Decimal :=
  let (num, den) := ratio m e g
  let low := num / den
  let below : Decimal := ⟨low, g⟩
  let above : Decimal := ⟨low + 1, g⟩
  match below.readsAs x, above.readsAs x with
  | true, true => some ⟨roundDiv tie num den, g⟩
  | true, false => some below
  | false, true => some above
  | false, false => none

/-- All the digits of `m · 2 ^ e`. -/
def exact (m : Nat) (e : Int) : Decimal :=
  if 0 ≤ e then ⟨m * Nat.pow 2 e.toNat, 0⟩ else ⟨m * Nat.pow 5 (-e).toNat, e⟩

/-- The first hit on the grids of `10 ^ g`, `10 ^ (g - 1)`, …; all the digits after the last. -/
def search (tie : Tie) (x : Float) (m : Nat) (e : Int) : Nat → Int → Decimal
  | 0, _ => exact m e
  | n + 1, g => (onGrid tie x m e g).getD (search tie x m e n (g - 1))

/-- A power of ten above `m · 2 ^ e` and near it: a binary digit is worth 0.30103 decimal ones. -/
def coarsestGrid (m : Nat) (e : Int) : Int := ((m.log2 + 1 + e) * 30103) / 100000 + 1

/-- The shortest decimal that reads as `x`, which is `m · 2 ^ e`. Seventeen digits tell all machine
numbers apart, and the first of them is at most two grids below the coarsest. -/
def shortest (tie : Tie) (x : Float) (m : Nat) (e : Int) : Decimal :=
  search tie x m e 20 (coarsestGrid m e)

end DomainColoring.Decimal
