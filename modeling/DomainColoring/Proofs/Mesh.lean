import DomainColoring.Mesh
import DomainColoring.Proofs.Grid

/-!
# The mesh, vertex by vertex

Corners are evaluated once, kept in a table and read back by the triangles that share them. The
triangles show nothing else than if every vertex were computed by itself from the point it stands on.
-/

namespace DomainColoring.Mesh

open CornerTable (cornerStep)

variable (f : Expr) (view : View Float) (canvas : Canvas) (colors : ColorSettings Float)

/-- The vertex at a point, computed by itself. -/
def vertexAt (p : Point Float) : Vertex where
  position := ⟨Binary64.narrow p.x, Binary64.narrow p.y⟩
  color := colors.paint (f.eval (view.toComplex canvas p))
  alpha := 1

theorem vertex_sample (p : Point Float) :
    (sample f view canvas p.x p.y).vertex colors = vertexAt f view canvas colors p := rfl

/-- The corners of the triangles that the table of a grid is read into. -/
theorem getElem?_triangles_table (g : Grid Float) (h : g.hasCells) {i j : Nat} (hi : i < g.columns)
    (hj : j < g.rows) (k : Fin 6) :
    ((g.table h (sample f view canvas)).map (Sample.vertex colors)).triangles[
        6 * (i * g.rows + j) + k]? =
      (g.point? (i + (cornerStep k).1) (j + (cornerStep k).2)).map
        (vertexAt f view canvas colors) := by
  have below : j + (cornerStep k).2 ≤ g.rows := by
    have step : (cornerStep k).2 ≤ 1 := by revert k; decide
    omega
  rw [CornerTable.getElem?_triangles _ hi hj k, CornerTable.map, Array.getElem?_map,
    Grid.getElem?_table g h _ _ below, Option.map_map]
  exact congrArg (Option.map · _) (funext fun p => vertex_sample f view canvas colors p)

theorem generate_of_hasCells {unit : Float} (h : (Grid.ofCanvas canvas unit).hasCells) :
    generate f view canvas unit colors =
      { vertices := (((Grid.ofCanvas canvas unit).table h (sample f view canvas)).map
          (Sample.vertex colors)).triangles.toArray
        columns := (Grid.ofCanvas canvas unit).columns
        rows := (Grid.ofCanvas canvas unit).rows
        singular := ((Grid.ofCanvas canvas unit).table h (sample f view canvas)).values.countP
          fun s => !s.value.isFinite } :=
  dif_pos h

/-- The mesh that shares corners is the mesh computed vertex by vertex. With `c` columns and `r` rows
of cells it has `6 · c · r` vertices; the corners of the cell in column `i` and row `j` begin at
`6 · (i · r + j)`, and each is the vertex at its own point. Every corner is in the table, at the place
where it is looked up, and the singular points are those among the corners, each counted once. Without
cells the mesh is empty. -/
theorem generate_eq_vertexwise (unit : Float) :
    let grid : Grid Float := Grid.ofCanvas canvas unit
    let c := grid.columns
    let r := grid.rows
    let mesh := generate f view canvas unit colors
    if 0 < c ∧ 0 < r then
      mesh.vertexCount = 6 * c * r ∧
        (∀ i < c, ∀ j < r, ∀ k : Fin 6, ∃ p,
          grid.point? (i + (cornerStep k).1) (j + (cornerStep k).2) = some p ∧
            mesh.vertices[6 * (i * r + j) + k]? = some (vertexAt f view canvas colors p)) ∧
        (∀ h : grid.hasCells, ∀ i ≤ c, ∀ j ≤ r, ∃ p, grid.point? i j = some p ∧
          (grid.table h (sample f view canvas)).values[i * (r + 1) + j]? =
            some (sample f view canvas p.x p.y)) ∧
        mesh.singular = ((Finset.range (c + 1) ×ˢ Finset.range (r + 1)).filter fun ij =>
          (grid.point? ij.1 ij.2).any fun p => !(f.eval (view.toComplex canvas p)).isFinite).card
    else mesh = empty := by
  intro grid c r mesh
  by_cases positive : 0 < c ∧ 0 < r
  · rw [if_pos positive]
    have cells : grid.hasCells := grid.hasCells_iff.2 positive
    have built : mesh = _ := generate_of_hasCells f view canvas colors cells
    refine ⟨?count, ?vertex, ?lookup, ?singular⟩
    case count =>
      rw [built, vertexCount, List.size_toArray]
      exact CornerTable.length_triangles _
    case vertex =>
      intro i hi j hj k
      have step : (cornerStep k).1 ≤ 1 ∧ (cornerStep k).2 ≤ 1 := by revert k; decide
      obtain ⟨p, hp⟩ := Grid.exists_point? cells (i := i + (cornerStep k).1) (by omega)
        (j := j + (cornerStep k).2) (by omega)
      refine ⟨p, hp, ?_⟩
      rw [built, List.getElem?_toArray,
        getElem?_triangles_table f view canvas colors grid cells hi hj k, hp]
      rfl
    case lookup =>
      intro h i hi j hj
      obtain ⟨p, hp⟩ := Grid.exists_point? h hi hj
      refine ⟨p, hp, ?_⟩
      rw [Grid.getElem?_table grid h _ i hj, hp]
      rfl
    case singular =>
      rw [built]
      exact Grid.countP_table grid cells (sample f view canvas) fun s => !s.value.isFinite
  · rw [if_neg positive]
    exact dif_neg fun cells => positive (grid.hasCells_iff.1 cells)

end DomainColoring.Mesh
