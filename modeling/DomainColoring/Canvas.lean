import DomainColoring.Scalar

/-!
# The canvas

The rectangle of pixels that a plot fills, and its coordinates: pixels from the top left corner with
y down, offsets from the centre with y up, and the normalised square from -1 to 1 with y up.
-/

namespace DomainColoring

/-- A position or a displacement in the plane. -/
structure Point (α : Type) where
  x : α
  y : α
deriving DecidableEq, Repr, Inhabited

/-- Whether both coordinates are finite. -/
def Point.isFinite {α : Type} [Scalar α] (p : Point α) : Bool :=
  Scalar.isFinite p.x && Scalar.isFinite p.y

/-- A canvas by its size in pixels. -/
structure Canvas where
  width : UInt32
  height : UInt32
deriving DecidableEq, Repr, Inhabited

namespace Canvas

/-- The number of pixels. -/
def area (c : Canvas) : Nat := c.width.toNat * c.height.toNat

/-- Whether there is nothing to draw on. -/
def isEmpty (c : Canvas) : Bool := c.width == 0 || c.height == 0

variable {α : Type} [Scalar α]

/-- The distance from the centre to either side, in pixels. -/
def half (c : Canvas) : Point α :=
  ⟨Scalar.ofNat c.width.toNat / Scalar.ofNat 2, Scalar.ofNat c.height.toNat / Scalar.ofNat 2⟩

/-- The offset of a pixel from the centre, with y up. -/
def centerOffset (c : Canvas) (pixel : Point α) : Point α :=
  ⟨pixel.x - c.half.x, c.half.y - pixel.y⟩

/-- Pixels from the left edge, normalised. -/
def normalX (c : Canvas) (x : α) : α :=
  x / Scalar.ofNat c.width.toNat * Scalar.ofNat 2 - Scalar.ofNat 1

/-- Pixels from the top edge, normalised. -/
def normalY (c : Canvas) (y : α) : α :=
  Scalar.ofNat 1 - y / Scalar.ofNat c.height.toNat * Scalar.ofNat 2

end Canvas

end DomainColoring
