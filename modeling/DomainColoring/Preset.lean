import DomainColoring.Color.Settings
import DomainColoring.Expr.Compile
import DomainColoring.View

/-!
# Presets

What a plot starts from: the first formula and view, the fineness of the mesh and its budget, and
the settings that a reset returns to.
-/

namespace DomainColoring

structure Preset where
  id : String
  displayName : String
  defaultExpression : String
  /-- Edge of a grid cell in pixels. -/
  meshUnit : Float
  /-- Most vertices that a canvas may need. -/
  maxVertices : Nat
  defaultPan : Point Float
  defaultScale : Float
  /-- Zoom factor of one notch of the wheel. -/
  zoomStep : Float
  colors : ColorSettings Float
  compile : CompileOptions
deriving DecidableEq, Repr

namespace Preset

/-- The first view, or the standard one if the preset's own is refused. -/
def defaultView (p : Preset) : View Float :=
  match View.make p.defaultPan p.defaultScale with
  | .ok view => view
  | .error _ => View.standard

/-- Room for a canvas of 3840 by 2160 pixels with cells of 2.5. -/
def standardMaxVertices : Nat := 8000000

/-- The identity over ±4 on a canvas 800 pixels wide. -/
def standard : Preset where
  id := "default"
  displayName := "Default"
  defaultExpression := "z"
  meshUnit := 5
  maxVertices := standardMaxVertices
  defaultPan := ⟨0, 0⟩
  defaultScale := standardScale
  zoomStep := 1.1
  colors := ColorSettings.standard
  compile := CompileOptions.standard

/-- A wider view with a coarser mesh and the two-segment ramp. -/
def wide : Preset where
  id := "wide"
  displayName := "Wide"
  defaultExpression := "z"
  meshUnit := 8
  maxVertices := standardMaxVertices
  defaultPan := ⟨0, 0⟩
  defaultScale := 0.05
  zoomStep := 1.25
  colors := ⟨.twoSegmentRamp, 3, 3⟩
  compile := CompileOptions.standard

def all : List Preset := [standard, wide]

def find? (id : String) : Option Preset := all.find? (·.id == id)

end Preset

end DomainColoring
