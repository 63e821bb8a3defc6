import DomainColoring.Edit
import DomainColoring.View

/-!
# Moving the view in place

The operations on views as edits: each reads the view, checks what it is about to write, and then
writes one number after the other.
-/

namespace DomainColoring.View.Edit

variable {α : Type} [Scalar α]

/-- Puts the window at an offset. -/
def moveTo (pan : Point α) : Edit (InputError α) (View α) Unit := do
  modify fun v => { v with pan.x := pan.x }
  modify fun v => { v with pan.y := pan.y }

/-- Moves the window by some pixels. -/
def panBy (d : Point α) : Edit (InputError α) (View α) Unit := do
  let v ← get
  let pan : Point α := ⟨v.pan.x + d.x, v.pan.y + d.y⟩
  if !pan.isFinite then throw (.nonFiniteOffset d)
  moveTo pan

/-- Multiplies the scale. -/
def zoomBy (factor : α) : Edit (InputError α) (View α) Unit := do
  let v ← get
  let scale ← MonadExcept.ofExcept (v.zoomedScale factor)
  modify fun v => { v with scale }

/-- Multiplies the scale and keeps the number at `cursor` in place. -/
def zoomAt (factor : α) (cursor : Point α) : Edit (InputError α) (View α) Unit := do
  if !cursor.isFinite then throw (.nonFiniteOffset cursor)
  let v ← get
  let scale ← MonadExcept.ofExcept (v.zoomedScale factor)
  -- worked out from the pan and the scale as they were
  let pan := v.anchoredPan factor cursor
  if !pan.isFinite then throw (.nonFiniteOffset pan)
  moveTo pan
  modify fun v => { v with scale }

end DomainColoring.View.Edit
