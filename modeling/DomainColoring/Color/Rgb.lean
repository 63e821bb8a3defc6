import DomainColoring.Scalar.Binary64

/-!
# Red, green and blue

Colours by their three channels, and the six-sector conversion from hue, saturation and value.
-/

namespace DomainColoring

structure Rgb (α : Type) where
  r : α
  g : α
  b : α
deriving DecidableEq, Repr

/-- A colour by hue, saturation and value; one turn of hue goes once around the colour circle. -/
structure Hsv (α : Type) where
  hue : α
  saturation : α
  value : α
deriving DecidableEq, Repr

/-- The three channels. Without saturation the hue does not matter; otherwise it falls into one of
six sectors, in each of which one channel has the value, one the least of the three, and one goes
from one to the other. -/
def Hsv.toRgb {α : Type} [Scalar α] (c : Hsv α) : Rgb α :=
  let v := c.value
  if c.saturation == Scalar.ofNat 0 then ⟨v, v, v⟩
  else
    let h := Scalar.wrap c.hue * Scalar.ofNat 6
    let f := Scalar.fract h
    let p := v * (Scalar.ofNat 1 - c.saturation)
    let q := v * (Scalar.ofNat 1 - c.saturation * f)
    let t := v * (Scalar.ofNat 1 - c.saturation * (Scalar.ofNat 1 - f))
    match Scalar.floorNat h % 6 with
    | 0 => ⟨v, t, p⟩
    | 1 => ⟨q, v, p⟩
    | 2 => ⟨p, v, t⟩
    | 3 => ⟨p, q, v⟩
    | 4 => ⟨t, p, v⟩
    | _ => ⟨v, p, q⟩

/-- Channels in single precision. -/
def Rgb.narrow (c : Rgb Float) : Rgb Float32 :=
  ⟨Binary64.narrow c.r, Binary64.narrow c.g, Binary64.narrow c.b⟩

/-- A colour with opacity, a byte for each. -/
structure Rgba8 where
  r : UInt8
  g : UInt8
  b : UInt8
  a : UInt8
deriving DecidableEq, Repr

/-- A channel as a byte: clamped to the unit interval, and rounded with a half going up. -/
def channelByte (x : Float32) : UInt8 :=
  let y := (if x < 0 then 0 else if 1 < x then 1 else x) * 255
  (Binary64.widen y + 0.5).toUInt8

/-- An opaque colour in bytes. -/
def Rgb.toRgba8 (c : Rgb Float32) : Rgba8 :=
  ⟨channelByte c.r, channelByte c.g, channelByte c.b, 255⟩

end DomainColoring
