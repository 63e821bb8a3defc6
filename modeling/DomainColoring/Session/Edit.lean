import DomainColoring.Session
import DomainColoring.View.Edit

/-!
# Changing a session in place

The changes of a session as edits: each works on the view, or checks what it is given and writes the
fields one after the other, and asks for a rebuild at its end.
-/

namespace DomainColoring.Session.Edit

/-- Work on the view of a session. -/
def onView (e : Edit (InputError Float) (View Float) Unit) : Edit (InputError Float) Session Unit :=
  e.within Session.view fun s view => { s with view }

def pan (d : Point Float) : Edit (InputError Float) Session Unit := do
  onView (View.Edit.panBy d)
  modify marked

def zoom (factor : Float) : Edit (InputError Float) Session Unit := do
  onView (View.Edit.zoomBy factor)
  modify marked

/-- Zooms and keeps the number at a pixel in place. -/
def zoomAt (factor : Float) (pixel : Point Float) : Edit (InputError Float) Session Unit := do
  let s ← get
  onView (View.Edit.zoomAt factor (s.canvas.centerOffset pixel))
  modify marked

/-- Zooms by notches of the wheel, out if positive. -/
def zoomNotches (notches : Float) (pixel : Point Float) : Edit (InputError Float) Session Unit := do
  let s ← get
  zoomAt (Elementary.pow s.preset.zoomStep notches) pixel

/-- Changes the canvas, within the budget. -/
def resize (canvas : Canvas) : Edit (InputError Float) Session Unit := do
  let s ← get
  MonadExcept.ofExcept (checkBudget s.preset canvas)
  modify fun s => { s with canvas }
  modify marked

/-- Installs the function that a text stands for. -/
def commit (text : String) : Edit SyntaxError Session Unit := do
  let s ← get
  let expression ← MonadExcept.ofExcept (compile s.preset.compile text)
  modify fun s => { s with expression }
  modify fun s => { s with source := text }
  modify marked

def setColors (colors : ColorSettings Float) : Edit SessionError Session Unit := do
  modify fun s => { s with colors }
  modify marked

/-- Returns to the view and the colours of the preset; the formula stays. -/
def reset : Edit SessionError Session Unit := do
  modify fun s => { s with view := s.preset.defaultView }
  modify fun s => { s with colors := s.preset.colors }
  modify marked

/-- What an event asks for. -/
def apply : Event → Edit SessionError Session Unit
  | .pan d => (pan d).adaptExcept .input
  | .zoom factor => (zoom factor).adaptExcept .input
  | .zoomAt factor pixel => (zoomAt factor pixel).adaptExcept .input
  | .resize canvas => (resize canvas).adaptExcept .input
  | .commit text => (commit text).adaptExcept .formula
  | .setColors settings => setColors settings
  | .reset => reset

/-- What the event that a text encodes asks for. -/
def dispatch (text : String) : Edit SessionError Session Unit :=
  match Event.ofText? text with
  | some e => apply e
  | none => throw .malformedEvent

end DomainColoring.Session.Edit
