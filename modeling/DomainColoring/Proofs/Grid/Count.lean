import DomainColoring.Proofs.Mesh
import DomainColoring.Proofs.Scalar.Quotient

/-!
# Counting before building

The vertices of a mesh are counted in two ways: from the sizes of the canvas alone, and by building
the mesh. The first is the second cut off at the largest count, although the one asks whether the
canvas is empty and the other whether a list of lines is (`Mesh.plannedVertexCount_eq_vertexCount`).
-/

namespace DomainColoring

section Lines

variable {α : Type} [Scalar α]

/-- The `i`-th line. -/
def gridLine (extent : UInt32) (unit : α) (i : Nat) : α :=
  Scalar.least (Scalar.ofNat i * unit) (Scalar.ofNat extent.toNat)

theorem toNat_pos {extent : UInt32} (visible : extent ≠ 0) : 0 < extent.toNat :=
  Nat.pos_of_ne_zero fun zero => visible (UInt32.toNat_inj.1 zero)

section Listed

variable {extent : UInt32} {unit : α} (visible : extent ≠ 0) (good : isGridUnit unit = true)
include visible good

theorem gridLines_eq_map :
    gridLines extent unit =
      (List.range (cellCount extent unit + 1)).map (gridLine extent unit) := by
  rw [gridLines, if_neg (by simp [visible, good])]
  rfl

theorem length_gridLines : (gridLines extent unit).length = cellCount extent unit + 1 := by
  rw [gridLines_eq_map visible good, List.length_map, List.length_range]

theorem head?_gridLines : (gridLines extent unit).head? = some (gridLine extent unit 0) := by
  rw [gridLines_eq_map visible good, List.head?_map, List.head?_range, if_neg (Nat.succ_ne_zero _),
    Option.map_some]

theorem getLast?_gridLines :
    (gridLines extent unit).getLast? = some (gridLine extent unit (cellCount extent unit)) := by
  rw [gridLines_eq_map visible good, List.getLast?_map, List.range_succ, List.getLast?_concat,
    Option.map_some]

end Listed

/-- An axis has as many cells as the quotient says, and none where it has no lines. -/
theorem length_gridLines_sub_one (extent : UInt32) (unit : α) :
    (gridLines extent unit).length - 1 =
      if extent = 0 || !isGridUnit unit then 0 else cellCount extent unit := by
  unfold gridLines
  split
  · rfl
  · rw [List.length_map, List.length_range, Nat.add_sub_cancel]

/-- An axis that is not empty has a cell, however far apart its lines are. -/
theorem one_le_length_gridLines_sub_one {extent : UInt32} {unit : Float} (some : extent ≠ 0)
    (good : isGridUnit unit = true) : 1 ≤ (gridLines extent unit).length - 1 := by
  rw [length_gridLines some good, Nat.add_sub_cancel]
  have positive : 0 < extent.toNat := toNat_pos some
  have small : extent.toNat < 2 ^ 53 := extent.toNat_lt.trans (by decide)
  rw [isGridUnit, Bool.and_eq_true, Bool.not_eq_true', decide_eq_false_iff_not] at good
  obtain ⟨m, e, pos, value⟩ := Binary64.exists_exactValue_of_pos good.1 good.2
  exact Binary64.one_le_ceilNat (Binary64.isPositive_toFloat_div positive small value)

theorem saturatingMul_saturatingMul (a b c : Nat) :
    saturatingMul (saturatingMul a b) c = min (c * a * b) maxCount := by
  have reorder : c * a * b = a * b * c := by ring
  unfold saturatingMul
  rw [reorder]
  rcases Nat.le_total (a * b) maxCount with fits | exceeds
  · rw [Nat.min_eq_left fits]
  · -- a first product that is cut off is too large with any factor but zero
    rw [Nat.min_eq_right exceeds]
    rcases Nat.eq_zero_or_pos c with rfl | positive
    · rfl
    · rw [Nat.min_eq_right (Nat.le_mul_of_pos_right _ positive),
        Nat.min_eq_right (exceeds.trans (Nat.le_mul_of_pos_right _ positive))]

/-- The planned count is six for each cell, cut off at the largest count. -/
theorem plannedVertexCount_eq_min (canvas : Canvas) (unit : α) :
    plannedVertexCount canvas unit =
      min (6 * ((gridLines canvas.width unit).length - 1) *
        ((gridLines canvas.height unit).length - 1)) maxCount := by
  rw [length_gridLines_sub_one, length_gridLines_sub_one]
  unfold plannedVertexCount Canvas.isEmpty
  cases isGridUnit unit with
  | false => simp
  | true =>
    by_cases width : canvas.width = 0
    · simp [width]
    by_cases height : canvas.height = 0
    · simp [height]
    simp [width, height, saturatingMul_saturatingMul]

end Lines

namespace Grid

variable {α : Type} [Scalar α] (canvas : Canvas) (unit : α)

theorem columns_ofCanvas :
    (ofCanvas canvas unit).columns = (gridLines canvas.width unit).length - 1 := by
  rw [columns, ofCanvas, List.length_map]

theorem rows_ofCanvas :
    (ofCanvas canvas unit).rows = (gridLines canvas.height unit).length - 1 := by
  rw [rows, ofCanvas, List.length_map]

end Grid

namespace Mesh

variable (f : Expr) (view : View Float) (canvas : Canvas) (colors : ColorSettings Float)

/-- A mesh has six vertices for each cell. -/
theorem vertexCount_generate (unit : Float) :
    (generate f view canvas unit colors).vertexCount =
      6 * ((gridLines canvas.width unit).length - 1) *
        ((gridLines canvas.height unit).length - 1) := by
  rw [← Grid.columns_ofCanvas, ← Grid.rows_ofCanvas]
  by_cases cells : (Grid.ofCanvas canvas unit).hasCells
  · rw [generate_of_hasCells f view canvas colors cells, vertexCount, List.size_toArray]
    exact CornerTable.length_triangles _
  · have none : (Grid.ofCanvas canvas unit).columns = 0 ∨ (Grid.ofCanvas canvas unit).rows = 0 := by
      rw [Grid.hasCells_iff] at cells
      omega
    have built : generate f view canvas unit colors = empty := dif_neg cells
    rw [built]
    rcases none with none | none <;> simp [none, empty, vertexCount]

/-- The planned count is that of the mesh, cut off at the largest count. -/
theorem plannedVertexCount_eq_vertexCount (unit : Float) :
    plannedVertexCount canvas unit =
      min (generate f view canvas unit colors).vertexCount maxCount := by
  rw [plannedVertexCount_eq_min, vertexCount_generate]

/-- A limit that can be exceeded bounds the mesh as soon as it bounds the plan. -/
theorem vertexCount_generate_le {unit : Float} {limit : Nat} (below : limit < maxCount)
    (within : plannedVertexCount canvas unit ≤ limit) :
    (generate f view canvas unit colors).vertexCount ≤ limit := by
  rw [plannedVertexCount_eq_vertexCount f view canvas colors] at within
  omega

end Mesh

end DomainColoring
