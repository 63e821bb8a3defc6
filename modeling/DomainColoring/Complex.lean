import DomainColoring.Scalar

/-!
# Complex numbers

Pairs of scalars with the arithmetic and the elementary functions that a formula may use. Every
operation is total: where a function has no value (division by zero, the logarithm of zero) some
component is not finite.
-/

namespace DomainColoring

/-- `re + im · i`. -/
structure Complex (α : Type) where
  re : α
  im : α
deriving DecidableEq, Repr, Inhabited

namespace Complex

section Arithmetic

variable {α : Type} [Scalar α]

/-- A number on the real axis. -/
def real (x : α) : Complex α := ⟨x, Scalar.ofNat 0⟩

def zero : Complex α := real (Scalar.ofNat 0)

def one : Complex α := real (Scalar.ofNat 1)

/-- The imaginary unit. -/
def unit : Complex α := ⟨Scalar.ofNat 0, Scalar.ofNat 1⟩

/-- The value of a quotient by zero. -/
def singularity : Complex α := ⟨Scalar.undefined, Scalar.undefined⟩

/-- Numeric equality of both components: signed zeros are equal, and what is no number differs
from itself. -/
instance : BEq (Complex α) := ⟨fun a b => a.re == b.re && a.im == b.im⟩

def isZero (a : Complex α) : Bool := a.re == Scalar.ofNat 0 && a.im == Scalar.ofNat 0

def isFinite (a : Complex α) : Bool := Scalar.isFinite a.re && Scalar.isFinite a.im

instance : Add (Complex α) := ⟨fun a b => ⟨a.re + b.re, a.im + b.im⟩⟩

instance : Sub (Complex α) := ⟨fun a b => ⟨a.re - b.re, a.im - b.im⟩⟩

instance : Neg (Complex α) := ⟨fun a => ⟨-a.re, -a.im⟩⟩

instance : Mul (Complex α) :=
  ⟨fun a b => ⟨a.re * b.re - a.im * b.im, a.re * b.im + a.im * b.re⟩⟩

/-- The square of the modulus. -/
def normSq (a : Complex α) : α := a.re * a.re + a.im * a.im

/-- The quotient is the singularity when the squared modulus of the divisor is zero. -/
instance : Div (Complex α) :=
  ⟨fun a b =>
    let d := normSq b
    if d == Scalar.ofNat 0 then singularity
    else ⟨(a.re * b.re + a.im * b.im) / d, (a.im * b.re - a.re * b.im) / d⟩⟩

def conj (a : Complex α) : Complex α := ⟨a.re, -a.im⟩

def scale (a : Complex α) (factor : α) : Complex α := ⟨a.re * factor, a.im * factor⟩

/-- Multiplies `acc` by the `n`-th power of `base`, by repeated squaring. -/
def powAcc (acc base : Complex α) (n : Nat) : Complex α :=
  if n = 0 then acc
  else powAcc (if n % 2 = 1 then acc * base else acc) (base * base) (n / 2)
termination_by n

/-- Integer powers; a negative power is the reciprocal of the positive one. -/
def powInt (a : Complex α) (n : Int) : Complex α :=
  let power := powAcc one a n.natAbs
  if n < 0 then one / power else power

/-- Largest integer exponent for which `pow` multiplies repeatedly. -/
def maxRepeatedExponent : Nat := 64

/-- Whether an exponent is a small integer. -/
def isSmallInteger (w : Complex α) : Bool :=
  w.im == Scalar.ofNat 0 && Scalar.fract w.re == Scalar.ofNat 0
    && decide (-(Scalar.ofNat maxRepeatedExponent) ≤ w.re)
    && decide (w.re ≤ Scalar.ofNat maxRepeatedExponent)

end Arithmetic

section Functions

variable {α : Type} [Elementary α]

/-- The number of modulus `r` and argument `θ`. -/
def ofPolar (r θ : α) : Complex α := ⟨r * Elementary.cos θ, r * Elementary.sin θ⟩

/-- The modulus. -/
def norm (a : Complex α) : α := Elementary.hypot a.re a.im

/-- The principal argument. -/
def arg (a : Complex α) : α := Elementary.atan2 a.im a.re

def exp (a : Complex α) : Complex α := ofPolar (Elementary.exp a.re) a.im

/-- The principal logarithm. -/
def log (a : Complex α) : Complex α := ⟨Elementary.log (norm a), arg a⟩

/-- Powers with any exponent, `exp (w · log a)`; zero has power zero for every exponent, and a small
integer exponent is repeated multiplication, which keeps squares exact. -/
def pow (a w : Complex α) : Complex α :=
  if a.isZero then zero
  else if w.isSmallInteger then a.powInt (Scalar.toInt w.re)
  else exp (w * log a)

/-- The principal square root. -/
def sqrt (a : Complex α) : Complex α :=
  if a.isZero then zero
  else ofPolar (Elementary.sqrt (norm a)) (arg a / Scalar.ofNat 2)

def sin (a : Complex α) : Complex α :=
  ⟨Elementary.sin a.re * Elementary.cosh a.im, Elementary.cos a.re * Elementary.sinh a.im⟩

def cos (a : Complex α) : Complex α :=
  ⟨Elementary.cos a.re * Elementary.cosh a.im, -Elementary.sin a.re * Elementary.sinh a.im⟩

def tan (a : Complex α) : Complex α := sin a / cos a

def sinh (a : Complex α) : Complex α :=
  ⟨Elementary.sinh a.re * Elementary.cos a.im, Elementary.cosh a.re * Elementary.sin a.im⟩

def cosh (a : Complex α) : Complex α :=
  ⟨Elementary.cosh a.re * Elementary.cos a.im, Elementary.sinh a.re * Elementary.sin a.im⟩

def tanh (a : Complex α) : Complex α := sinh a / cosh a

end Functions

end Complex

end DomainColoring
