import DomainColoring.Proofs.Mesh.Tiling

/-!
# Meshes without their colours

The cells of a mesh and where its corners are (`Mesh.Outline`) come from the canvas and the unit alone,
although positions and colours are worked out together. Everything that is handed to a renderer besides
the colours is a function of the outline. The buffers hold a fixed number of entries for each vertex, and
the corner weights begin anew with every triangle.
-/

namespace DomainColoring.Mesh

/-- A mesh without its colours. -/
structure Outline where
  columns : Nat
  rows : Nat
  corners : List (Point Float32)
deriving DecidableEq, Repr

def outline (m : Mesh) : Outline := ⟨m.columns, m.rows, m.vertices.toList.map Vertex.position⟩

section Observations

variable {m n : Mesh} (same : m.outline = n.outline)
include same

theorem columns_eq_of_outline_eq : m.columns = n.columns := congrArg Outline.columns same

theorem rows_eq_of_outline_eq : m.rows = n.rows := congrArg Outline.rows same

theorem positions_eq_of_outline_eq : m.positions = n.positions := by
  have listed (k : Mesh) : k.positions = k.outline.corners.flatMap fun p => [p.x, p.y] := by
    rw [outline, List.flatMap_map, positions]
  rw [listed, listed, same]

theorem vertexCount_eq_of_outline_eq : m.vertexCount = n.vertexCount := by
  have counted (k : Mesh) : k.vertexCount = k.outline.corners.length := by
    rw [outline, List.length_map, Array.length_toList, vertexCount]
  rw [counted, counted, same]

theorem barycentrics_eq_of_outline_eq : m.barycentrics = n.barycentrics := by
  have triangles : m.triangleCount = n.triangleCount :=
    congrArg (· / 3) (vertexCount_eq_of_outline_eq same)
  rw [barycentrics, barycentrics, triangles]

end Observations

/-- What is drawn has the corners of the grid, whatever is drawn there and in whatever colours. -/
theorem outline_draw (paint : Complex Float → Rgb Float32) (f : Expr) (view : View Float)
    (canvas : Canvas) (unit : Float) :
    (draw paint f view canvas unit).outline =
      let grid := Grid.ofCanvas canvas unit
      if h : grid.hasCells then
        ⟨grid.columns, grid.rows, (grid.table h fun x y => narrow ⟨x, y⟩).triangles⟩
      else ⟨0, 0, []⟩ := by
  unfold draw
  dsimp only
  split
  · rw [outline, ← CornerTable.triangles_map, Grid.map_table, Grid.map_table]
    rfl
  · rfl

/-- Pictures of any two functions, in any views and colours, have one outline. -/
theorem outline_generate (f g : Expr) (view view' : View Float) (canvas : Canvas) (unit : Float)
    (colors colors' : ColorSettings Float) :
    (generate f view canvas unit colors).outline = (generate g view' canvas unit colors').outline := by
  rw [generate, generate, outline_draw, outline_draw]

section Buffers

variable (m : Mesh)

theorem length_positions : m.positions.length = 2 * m.vertexCount := by
  have pairs : ∀ v ∈ m.vertices.toList, [v.position.x, v.position.y].length = 2 := fun _ _ => rfl
  rw [positions, length_flatMap_of_length pairs, Array.length_toList, Nat.mul_comm, vertexCount]

theorem length_colors : m.colors.length = 4 * m.vertexCount := by
  have parts : ∀ v ∈ m.vertices.toList, [v.color.r, v.color.g, v.color.b, v.alpha].length = 4 :=
    fun _ _ => rfl
  rw [colors, length_flatMap_of_length parts, Array.length_toList, Nat.mul_comm, vertexCount]

theorem length_cornerWeights : cornerWeights.length = 9 := rfl

theorem length_barycentrics : m.barycentrics.length = 9 * m.triangleCount := by
  rw [barycentrics, length_flatMap_of_length fun _ _ => length_cornerWeights, List.length_range,
    Nat.mul_comm]

/-- The weights at the `k`-th corner of a triangle are those of the `k`-th unit vector. -/
theorem getElem?_barycentrics {t : Nat} (here : t < m.triangleCount) (k w : Fin 3) :
    m.barycentrics[9 * t + 3 * k + w]? = some (if k = w then 1 else 0) := by
  have place : 9 * t + 3 * k.val + w.val = t * 9 + (3 * k.val + w.val) := by ring
  have weights : ∀ k w : Fin 3, cornerWeights[3 * k.val + w.val]? = some (if k = w then 1 else 0) := by
    decide
  rw [place, barycentrics, getElem?_flatMap_of_length (fun _ _ => length_cornerWeights) t (by omega),
    List.getElem?_range here, Option.bind_some, weights]

/-- The vertices of a generated mesh are those of whole triangles. -/
theorem three_mul_triangleCount_generate (f : Expr) (view : View Float) (canvas : Canvas) (unit : Float)
    (colors : ColorSettings Float) :
    3 * (generate f view canvas unit colors).triangleCount =
      (generate f view canvas unit colors).vertexCount := by
  have six := vertexCount_generate f view canvas colors unit
  have thirds : (generate f view canvas unit colors).triangleCount =
      (generate f view canvas unit colors).vertexCount / 3 := rfl
  rw [mul_assoc] at six
  omega

end Buffers

end DomainColoring.Mesh
