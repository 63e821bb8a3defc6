import DomainColoring.Canvas
import DomainColoring.Color.Settings

/-!
# Input events

What the pointer, the wheel and the text box ask of a plot.
-/

namespace DomainColoring

inductive Event where
  /-- A drag by some pixels, y up. -/
  | pan (d : Point Float)
  | zoom (factor : Float)
  /-- A zoom that keeps the number at a pixel in place. -/
  | zoomAt (factor : Float) (pixel : Point Float)
  | resize (canvas : Canvas)
  /-- A formula was submitted. -/
  | commit (text : String)
  | setColors (settings : ColorSettings Float)
  /-- Back to the view and the colours of the preset. -/
  | reset
deriving DecidableEq, Repr

end DomainColoring
