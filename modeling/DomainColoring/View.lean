import DomainColoring.Canvas
import DomainColoring.Complex
import DomainColoring.Decimal.Text

/-!
# The view

Which part of the complex plane the canvas shows. The centre of the canvas, moved by `pan` pixels
and multiplied by `scale`, is the number shown there. Every operation refuses an input that would
leave the pan infinite or the scale without a finite reciprocal.
-/

namespace DomainColoring

/-- Why an input that would change the view or the canvas is refused. -/
inductive InputError (α : Type) where
  | invalidZoomFactor (factor : α)
  | nonFiniteOffset (offset : Point α)
  | scaleOutOfRange (scale : α)
  /-- The canvas needs more mesh vertices than the limit. -/
  | meshTooLarge (canvas : Canvas) (vertices limit : Nat)
deriving DecidableEq, Repr

namespace InputError

def message : InputError Float → String
  | invalidZoomFactor factor =>
    s!"zoom factor must be finite and positive, got {numberText factor}"
  | nonFiniteOffset offset =>
    s!"offset must be finite, got ({numberText offset.x}, {numberText offset.y})"
  | scaleOutOfRange scale => s!"zoom would move scale out of range: {numberText scale}"
  | meshTooLarge canvas vertices limit =>
    s!"a {canvas.width}x{canvas.height} canvas needs {vertices} mesh vertices, limit is {limit}"

end InputError

structure View (α : Type) where
  /-- Offset of the window in pixels, y up. -/
  pan : Point α
  /-- Complex units per pixel. -/
  scale : α
deriving DecidableEq, Repr

namespace View

variable {α : Type} [Scalar α]

/-- The view with a given pan and scale. -/
def make (pan : Point α) (scale : α) : Except (InputError α) (View α) :=
  if !pan.isFinite then .error (.nonFiniteOffset pan)
  else if !Scalar.isScale scale then .error (.scaleOutOfRange scale)
  else .ok ⟨pan, scale⟩

/-- Moves the window by some pixels; an error names the displacement. -/
def panBy (v : View α) (d : Point α) : Except (InputError α) (View α) :=
  let pan : Point α := ⟨v.pan.x + d.x, v.pan.y + d.y⟩
  if !pan.isFinite then .error (.nonFiniteOffset d) else .ok { v with pan }

/-- The scale after a zoom. -/
def zoomedScale (v : View α) (factor : α) : Except (InputError α) α :=
  if !Scalar.isFinite factor || decide (factor ≤ Scalar.ofNat 0) then
    .error (.invalidZoomFactor factor)
  else
    let scale := v.scale * factor
    if !Scalar.isScale scale then .error (.scaleOutOfRange scale) else .ok scale

/-- Multiplies the scale; a factor above 1 widens the visible region. -/
def zoomBy (v : View α) (factor : α) : Except (InputError α) (View α) := do
  let scale ← v.zoomedScale factor
  .ok { v with scale }

/-- The pan that keeps the number at `cursor` in place when the scale is multiplied by `factor`: the
solution of `(cursor + pan) · scale = (cursor + pan') · scale · factor`. -/
def anchoredPan (v : View α) (factor : α) (cursor : Point α) : Point α :=
  ⟨(cursor.x + v.pan.x) / factor - cursor.x, (cursor.y + v.pan.y) / factor - cursor.y⟩

/-- Multiplies the scale and keeps the number at `cursor`, an offset from the centre, in place. -/
def zoomAt (v : View α) (factor : α) (cursor : Point α) : Except (InputError α) (View α) :=
  if !cursor.isFinite then .error (.nonFiniteOffset cursor)
  else do
    let scale ← v.zoomedScale factor
    let pan := v.anchoredPan factor cursor
    if !pan.isFinite then .error (.nonFiniteOffset pan) else .ok ⟨pan, scale⟩

/-- Multiplies the scale and keeps the number at a pixel of the canvas in place. -/
def zoomAtPixel (v : View α) (canvas : Canvas) (factor : α) (pixel : Point α) :
    Except (InputError α) (View α) :=
  v.zoomAt factor (canvas.centerOffset pixel)

/-- The number shown at a normalised position. -/
def toComplex (v : View α) (canvas : Canvas) (p : Point α) : Complex α :=
  ⟨(p.x * canvas.half.x + v.pan.x) * v.scale, (p.y * canvas.half.y + v.pan.y) * v.scale⟩

end View

/-- Complex units per pixel of the standard view. -/
def standardScale : Float := 0.01

/-- The origin in the centre, at the standard scale. -/
def View.standard : View Float := ⟨⟨0, 0⟩, standardScale⟩

end DomainColoring
