import DomainColoring.Decimal
import DomainColoring.Scalar

/-!
# JSON numbers

A number as it is written, and the machine number that it is read as: the digits make a significand
that a machine word holds, and machine arithmetic multiplies it by a power of ten. The significand,
the power and the product are each rounded, so the value is the nearest machine number whenever the
first two are exact.
-/

namespace DomainColoring

/-- A number as written. -/
structure JsonNumber where
  negative : Bool
  whole : List Char
  /-- The digits after the point, if there is one. -/
  fraction : Option (List Char)
  exponent : Option Int
deriving DecidableEq, Repr

namespace JsonNumber

/-- Appends digits to `n` for as long as a machine word holds the number, and leaves the others. -/
def appendDigits (n : Nat) : List Char → Nat × List Char
  | [] => (n, [])
  | c :: cs =>
    let longer := 10 * n + (c.toNat - '0'.toNat)
    if longer ≤ maxCount then appendDigits longer cs else (n, c :: cs)

/-- The significand and its power of ten. Digits that do not fit count as zeros before the point and
as nothing after it. -/
def scaled (n : JsonNumber) : Decimal :=
  let (whole, left) := appendDigits 0 n.whole
  let fraction := n.fraction.getD []
  let (digits, dropped) := appendDigits whole fraction
  ⟨digits, left.length - (fraction.length - dropped.length : Nat) + n.exponent.getD 0⟩

/-- Largest power of ten that is a machine number. -/
def maxPower : Nat := 308

/-- The machine number nearest to a power of ten. -/
def powerOfTen (n : Nat) : Float := Decimal.toFloat ⟨1, n⟩

/-- Divides by `10 ^ n`, by one machine number after the other. -/
def divideByTens (x : Float) (n : Nat) : Float :=
  if n ≤ maxPower then x / powerOfTen n
  else if x == 0 then x
  else divideByTens (x / powerOfTen maxPower) (n - maxPower)
termination_by n
decreasing_by
  simp only [maxPower] at *
  omega

/-- The value without its sign; infinite beyond the largest machine number. -/
def magnitude (n : JsonNumber) : Float :=
  let d := n.scaled
  let x := d.digits.toFloat
  if d.digits = 0 then x
  else if d.exponent < 0 then divideByTens x d.exponent.natAbs
  else x * powerOfTen d.exponent.toNat

/-- The value, if it is finite. -/
def toFloat? (n : JsonNumber) : Option Float :=
  let x := n.magnitude
  if x.isFinite then some (if n.negative then -x else x) else none

/-- The number as a word, if it is written as a natural number and fits. -/
def toUInt32? (n : JsonNumber) : Option UInt32 :=
  if n.negative || n.fraction.isSome || n.exponent.isSome then none
  else
    let value := Decimal.ofDigits n.whole
    if value < UInt32.size then some (UInt32.ofNat value) else none

end JsonNumber

end DomainColoring
