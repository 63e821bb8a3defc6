import DomainColoring.Canvas

/-!
# The grid

Lines a unit of pixels apart cut the canvas into cells; the last line of an axis is at its end, so
the last cell may be narrower. Each cell is cut into two triangles along one diagonal.
-/

namespace DomainColoring

section Lines

variable {α : Type} [Scalar α]

/-- Whether lines can be that far apart. -/
def isGridUnit (unit : α) : Bool := Scalar.isFinite unit && !decide (unit ≤ Scalar.ofNat 0)

/-- The number of cells along an axis. -/
def cellCount (extent : UInt32) (unit : α) : Nat :=
  Scalar.ceilNat (Scalar.ofNat extent.toNat / unit)

/-- Where the lines across an axis are, in pixels: none if the axis is empty or the unit is no
distance. -/
def gridLines (extent : UInt32) (unit : α) : List α :=
  if extent = 0 || !isGridUnit unit then []
  else
    (List.range (cellCount extent unit + 1)).map fun i =>
      Scalar.least (Scalar.ofNat i * unit) (Scalar.ofNat extent.toNat)

/-- A product of counts, at most the largest count. -/
def saturatingMul (a b : Nat) : Nat := min (a * b) maxCount

/-- How many triangle corners the grid of a canvas has, without building it. -/
def plannedVertexCount (canvas : Canvas) (unit : α) : Nat :=
  if canvas.isEmpty || !isGridUnit unit then 0
  else
    saturatingMul (saturatingMul (cellCount canvas.width unit) (cellCount canvas.height unit)) 6

end Lines

/-- The lines of both axes in normalised coordinates, from the left and from the top. -/
structure Grid (α : Type) where
  xs : List α
  ys : List α
deriving DecidableEq, Repr

namespace Grid

variable {α : Type}

def ofCanvas [Scalar α] (canvas : Canvas) (unit : α) : Grid α where
  xs := (gridLines canvas.width unit).map canvas.normalX
  ys := (gridLines canvas.height unit).map canvas.normalY

def columns (g : Grid α) : Nat := g.xs.length - 1

def rows (g : Grid α) : Nat := g.ys.length - 1

/-- Whether there is a cell. -/
def hasCells (g : Grid α) : Prop := 2 ≤ g.xs.length ∧ 2 ≤ g.ys.length

instance (g : Grid α) : Decidable g.hasCells := inferInstanceAs (Decidable (_ ∧ _))

end Grid

/-- A value for each corner of `columns · rows` cells: line after line from the left, each from the
top. -/
structure CornerTable (β : Type) (columns rows : Nat) where
  values : Array β
  size_values : values.size = (columns + 1) * (rows + 1)

namespace CornerTable

variable {β γ : Type} {columns rows : Nat}

theorem index_lt {i j : Nat} (hi : i < columns + 1) (hj : j < rows + 1) :
    i * (rows + 1) + j < (columns + 1) * (rows + 1) := by
  have h : i * (rows + 1) + (rows + 1) ≤ (columns + 1) * (rows + 1) := by
    rw [← Nat.succ_mul]
    exact Nat.mul_le_mul_right _ hi
  omega

/-- The value where the `i`-th line from the left meets the `j`-th from the top. -/
def get (t : CornerTable β columns rows) (i : Fin (columns + 1)) (j : Fin (rows + 1)) : β :=
  have h : i.val * (rows + 1) + j.val < t.values.size := t.size_values ▸ index_lt i.isLt j.isLt
  t.values[i.val * (rows + 1) + j.val]

def map (f : β → γ) (t : CornerTable β columns rows) : CornerTable γ columns rows where
  values := t.values.map f
  size_values := by rw [Array.size_map, t.size_values]

/-- The corners of the two triangles of a cell. They share the diagonal from the upper right to the
lower left corner. -/
def cell (t : CornerTable β columns rows) (i : Fin columns) (j : Fin rows) : List β :=
  let upperLeft := t.get i.castSucc j.castSucc
  let lowerLeft := t.get i.castSucc j.succ
  let upperRight := t.get i.succ j.castSucc
  let lowerRight := t.get i.succ j.succ
  [upperLeft, lowerLeft, upperRight, upperRight, lowerLeft, lowerRight]

/-- The corners of all triangles: column after column from the left, each from the top. -/
def triangles (t : CornerTable β columns rows) : List β :=
  (List.finRange columns).flatMap fun i => (List.finRange rows).flatMap fun j => t.cell i j

end CornerTable

namespace Grid

variable {α β : Type}

/-- A function of the coordinates at every corner. -/
def table (g : Grid α) (h : g.hasCells) (f : α → α → β) : CornerTable β g.columns g.rows where
  values := (g.xs.flatMap fun x => g.ys.map fun y => f x y).toArray
  size_values := by
    have hx : g.columns + 1 = g.xs.length := Nat.sub_add_cancel (Nat.le_of_succ_le h.1)
    have hy : g.rows + 1 = g.ys.length := Nat.sub_add_cancel (Nat.le_of_succ_le h.2)
    rw [hx, hy, List.size_toArray, List.length_flatMap]
    simp only [List.length_map, List.map_const', List.sum_replicate_nat]

end Grid

end DomainColoring
