/-!
# Scalars

The numbers a plot is computed with. Everything geometric in this library is written once over a
`Scalar`, so that it can be run on machine numbers and reasoned about over an ordered field; the
complex functions need an `Elementary` scalar, which also has the real functions they are made of.
-/

namespace DomainColoring

/-- Numbers with the four operations, an order and the tests that tell machine numbers apart. -/
class Scalar (α : Type) extends Add α, Sub α, Mul α, Div α, Neg α, BEq α, LT α, LE α where
  decidableLT : DecidableLT α
  decidableLE : DecidableLE α
  /-- The number nearest to a natural number. -/
  ofNat : Nat → α
  /-- What stands for the value of an operation that has none. -/
  undefined : α
  isNaN : α → Bool
  isFinite : α → Bool
  /-- Positive, finite and large enough that the reciprocal is finite too. -/
  isScale : α → Bool
  /-- The integer part, toward zero. -/
  trunc : α → α
  /-- The largest natural number not above; 0 for what is negative or no number. -/
  floorNat : α → Nat
  /-- The least natural number not below; 0 for what is negative or no number. -/
  ceilNat : α → Nat

attribute [reducible, instance] Scalar.decidableLT Scalar.decidableLE

/-- Scalars with the elementary real functions. -/
class Elementary (α : Type) extends Scalar α where
  pi : α
  sqrt : α → α
  exp : α → α
  /-- The natural logarithm. -/
  log : α → α
  /-- The natural logarithm of one more than the argument. -/
  log1p : α → α
  sin : α → α
  cos : α → α
  sinh : α → α
  cosh : α → α
  /-- `pow x y` is `x` to the real power `y`. -/
  pow : α → α → α
  /-- `hypot x y` is the length of the vector `(x, y)`. -/
  hypot : α → α → α
  /-- `atan2 y x` is the angle of the vector `(x, y)`, measured from the positive first axis. -/
  atan2 : α → α → α

/-- The largest count a machine word holds. -/
def maxCount : Nat := UInt64.size - 1

namespace Scalar

variable {α : Type} [Scalar α]

/-- What remains of a number without its integer part; it has the sign of the number. -/
def fract (x : α) : α := x - trunc x

/-- The integer part as an integer. -/
def toInt (x : α) : Int := if x < ofNat 0 then -(floorNat (-x) : Int) else floorNat x

/-- The position of `x` within its unit interval: `x` less the integer below it. -/
def wrap (x : α) : α :=
  let r := fract x
  if r < ofNat 0 then r + ofNat 1 else r

/-- The nearest point of the unit interval; 0 for what is no number. -/
def unit (x : α) : α :=
  if isNaN x then ofNat 0
  else if x < ofNat 0 then ofNat 0
  else if ofNat 1 < x then ofNat 1
  else x

/-- The smaller of two numbers. -/
def least (x y : α) : α := if x < y then x else y

end Scalar

end DomainColoring
