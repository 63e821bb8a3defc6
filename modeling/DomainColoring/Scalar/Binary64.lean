import DomainColoring.Scalar

/-!
# Machine numbers

`Float` as an `Elementary` scalar, and the exact readings of `Float` and `Float32` that the rest of
the library uses. Rounding to integers, the length of a vector and the two conversions between
widths are defined on the exact value of a number, so each is the nearest representable result.
The transcendental functions are the platform's.
-/

namespace DomainColoring.Binary64

open Float.Model (UnpackedFloat Format)

/-- The exact value of a number: a signed zero, `± m · 2 ^ e`, an infinity or no number. -/
def exactValue (x : Float) : UnpackedFloat := x.toModel.unpack

/-- The number nearest to an exact value `± m · 2 ^ e`. -/
def nearest : UnpackedFloat → Float
  | .finite s m e _ => .ofModel (.pack (.round .binary64 s m e))
  | x => .ofModel (.pack x)

/-- Single precision: the nearest `Float32`. -/
def narrow (x : Float) : Float32 :=
  match exactValue x with
  | .finite s m e _ => .ofModel (.pack (.round .binary32 s m e))
  | v => .ofModel (.pack v)

/-- Every `Float32` is a `Float` of the same value. -/
def widen (x : Float32) : Float := nearest x.toModel.unpack

/-- The least positive number whose significand is full: `2 ^ -1022`. -/
def minNormal : Float := Float.ofBits 0x0010000000000000

def infinity : Float := Float.ofBits 0x7FF0000000000000

def notANumber : Float := Float.ofBits 0x7FF8000000000000

/-- Integers are all that is left from `2 ^ 53` on. -/
def trunc (x : Float) : Float :=
  if x.abs < (1 <<< 53 : Nat).toFloat then
    if x < 0 then -(-x).toUInt64.toFloat else x.toUInt64.toFloat
  else x

/-- Rounds down, and stays within a machine word. -/
def floorNat (x : Float) : Nat := x.toUInt64.toNat

/-- Rounds up, and stays within a machine word. -/
def ceilNat (x : Float) : Nat :=
  let n := x.toUInt64
  if n.toFloat < x then min (n.toNat + 1) maxCount else n.toNat

/-- `m₁ · 2 ^ e₁` squared and `m₂ · 2 ^ e₂` squared, added up over one exponent. -/
def sumOfSquares (m₁ : Nat) (e₁ : Int) (m₂ : Nat) (e₂ : Int) : Nat × Int :=
  let e := min e₁ e₂
  let n₁ := m₁ <<< (e₁ - e).toNat
  let n₂ := m₂ <<< (e₂ - e).toNat
  (n₁ * n₁ + n₂ * n₂, 2 * e)

/-- The number nearest to the square root of `m · 2 ^ e`. -/
def nearestSqrt (m : Nat) (e : Int) : Float :=
  if h : 0 < m then .ofModel (.pack (.sqrt .binary64 (.finite .positive m e h))) else 0

/-- The number nearest to `√(x² + y²)`; no intermediate result overflows. -/
def hypot (x y : Float) : Float :=
  match exactValue x, exactValue y with
  | .infinity _, _ => infinity
  | _, .infinity _ => infinity
  | .notANumber, _ => notANumber
  | _, .notANumber => notANumber
  | .zero _, _ => y.abs
  | _, .zero _ => x.abs
  | .finite _ m₁ e₁ _, .finite _ m₂ e₂ _ =>
    let (m, e) := sumOfSquares m₁ e₁ m₂ e₂
    nearestSqrt m e

/-- `log (1 + x)` without the loss of the low digits of `x`: the rounding of `1 + x` is undone by
the factor `x / ((1 + x) - 1)`. -/
def log1p (x : Float) : Float :=
  let u := 1 + x
  if u == 1 then x
  else if u.isInf then Float.log u
  else Float.log u * (x / (u - 1))

instance : Scalar Float where
  decidableLT := inferInstance
  decidableLE := inferInstance
  ofNat n := n.toFloat
  undefined := notANumber
  isNaN := Float.isNaN
  isFinite := Float.isFinite
  isScale x := x.isFinite && minNormal ≤ x
  trunc := trunc
  floorNat := floorNat
  ceilNat := ceilNat

instance : Elementary Float where
  pi := 3.141592653589793
  sqrt := Float.sqrt
  exp := Float.exp
  log := Float.log
  log1p := log1p
  sin := Float.sin
  cos := Float.cos
  sinh := Float.sinh
  cosh := Float.cosh
  pow := Float.pow
  hypot := hypot
  atan2 := Float.atan2

end DomainColoring.Binary64
