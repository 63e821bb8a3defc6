import DomainColoring.Color.Settings
import DomainColoring.Expr
import DomainColoring.Grid
import DomainColoring.View

/-!
# The mesh

The picture of a function: the triangles of the grid with a colour at each corner. The function is
evaluated once at every corner of the grid, and cells that share a corner share its vertex.
-/

namespace DomainColoring

/-- A corner of a triangle, in normalised coordinates. -/
structure Vertex where
  position : Point Float32
  color : Rgb Float32
  alpha : Float32
deriving DecidableEq, Repr

/-- Triangles as three vertices each, in the order of drawing. -/
structure Mesh where
  vertices : Array Vertex
  columns : Nat
  rows : Nat
  /-- Corners of the grid at which the function is not finite. -/
  singular : Nat
deriving DecidableEq, Repr

namespace Mesh

def empty : Mesh := ⟨#[], 0, 0, 0⟩

def vertexCount (m : Mesh) : Nat := m.vertices.size

/-- The number of vertices as a word of 32 bits, which is what drawing is asked for. -/
def drawCount (m : Mesh) : UInt32 := m.vertexCount.toUInt32

def triangleCount (m : Mesh) : Nat := m.vertices.size / 3

def quadCount (m : Mesh) : Nat := m.columns * m.rows

def isEmpty (m : Mesh) : Bool := m.vertices.isEmpty

/-- Two coordinates for each vertex. -/
def positions (m : Mesh) : List Float32 :=
  m.vertices.toList.flatMap fun v => [v.position.x, v.position.y]

/-- Three channels and the opacity for each vertex. -/
def colors (m : Mesh) : List Float32 :=
  m.vertices.toList.flatMap fun v => [v.color.r, v.color.g, v.color.b, v.alpha]

/-- The weights of the three corners of a triangle at those corners. -/
def cornerWeights : List Float32 := [1, 0, 0, 0, 1, 0, 0, 0, 1]

/-- Corner weights for each triangle. -/
def barycentrics (m : Mesh) : List Float32 :=
  (List.range m.triangleCount).flatMap fun _ => cornerWeights

/-- A function's value at a corner of the grid. -/
structure Sample where
  position : Point Float
  value : Complex Float
deriving DecidableEq, Repr

/-- The value of `f` at a normalised position. -/
def sample (f : Expr) (view : View Float) (canvas : Canvas) (x y : Float) : Sample where
  position := ⟨x, y⟩
  value := f.eval (view.toComplex canvas ⟨x, y⟩)

/-- An opaque vertex in the colour that `paint` gives the value. -/
def Sample.vertexIn (paint : Complex Float → Rgb Float32) (s : Sample) : Vertex where
  position := ⟨Binary64.narrow s.position.x, Binary64.narrow s.position.y⟩
  color := paint s.value
  alpha := 1

/-- An opaque vertex in the colour of the value. -/
def Sample.vertex (colors : ColorSettings Float) (s : Sample) : Vertex := s.vertexIn colors.paint

/-- The picture of `f` on a canvas, in the colours that `paint` gives its values. -/
def draw (paint : Complex Float → Rgb Float32) (f : Expr) (view : View Float) (canvas : Canvas)
    (unit : Float) : Mesh :=
  let grid := Grid.ofCanvas canvas unit
  if h : grid.hasCells then
    let samples := grid.table h (sample f view canvas)
    { vertices := (samples.map (Sample.vertexIn paint)).triangles.toArray
      columns := grid.columns
      rows := grid.rows
      singular := samples.values.countP fun s => !s.value.isFinite }
  else empty

/-- The picture of `f` on a canvas. -/
def generate (f : Expr) (view : View Float) (canvas : Canvas) (unit : Float)
    (colors : ColorSettings Float) : Mesh :=
  draw colors.paint f view canvas unit

end Mesh

end DomainColoring
