import DomainColoring.Color.Rgb
import DomainColoring.Complex

/-!
# The colour of a complex number

The hue shows the argument. The modulus shows as brightness, and in one of the two modes as loss of
saturation beyond half the ramp. What is not finite has a colour of its own.
-/

namespace DomainColoring

/-- How the modulus is shown. -/
inductive ColorMode where
  /-- The value is `log (1 + k · m) / s`, at full saturation. -/
  | logBrightness
  /-- With `t = log (1 + m) / s`, the value rises until `t` is a half, and then the saturation falls
  to white. -/
  | twoSegmentRamp
deriving DecidableEq, Repr

structure ColorSettings (α : Type) where
  mode : ColorMode
  /-- Gain on the modulus; the ramp has none. -/
  k : α
  /-- Divisor of the logarithm. -/
  s : α
deriving DecidableEq, Repr

def ColorSettings.standard : ColorSettings Float := ⟨.logBrightness, 3, 1.5⟩

/-- The colour of singular values. -/
def singularColor {α : Type} [Scalar α] : Rgb α :=
  ⟨Scalar.ofNat 0, Scalar.ofNat 0, Scalar.ofNat 0⟩

namespace ColorSettings

variable {α : Type} [Elementary α]

/-- The position of the modulus `m` on the two-segment ramp. -/
def rampPosition (c : ColorSettings α) (m : α) : α := Elementary.log1p m / c.s

/-- Saturation and value for the modulus `m`. -/
def tone (c : ColorSettings α) (m : α) : α × α :=
  let one := Scalar.ofNat 1
  let two := Scalar.ofNat 2
  match c.mode with
  | .logBrightness => (one, Scalar.unit (Elementary.log1p (c.k * m) / c.s))
  | .twoSegmentRamp =>
    let t := c.rampPosition m
    if Scalar.isNaN t then (one, Scalar.ofNat 0)
    else if t < one / two then (one, Scalar.unit (two * t))
    else (Scalar.unit (one - two * (t - one / two)), one)

/-- The hue for an argument: half a turn for the positive real axis. -/
def hue (arg : α) : α := (arg + Elementary.pi) / (Scalar.ofNat 2 * Elementary.pi)

/-- The colour of a number. -/
def colorOf (c : ColorSettings α) (a : Complex α) : Rgb α :=
  if !a.isFinite then singularColor
  else
    let (saturation, value) := c.tone a.norm
    Hsv.toRgb ⟨hue a.arg, saturation, value⟩

end ColorSettings

/-- The colour of a number in single precision. -/
def ColorSettings.paint (c : ColorSettings Float) (a : Complex Float) : Rgb Float32 :=
  (c.colorOf a).narrow

end DomainColoring
