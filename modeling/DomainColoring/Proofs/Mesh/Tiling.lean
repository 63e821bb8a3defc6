import DomainColoring.Proofs.Grid.Count
import DomainColoring.Proofs.Scalar.Exact
import DomainColoring.Proofs.Triangle
import DomainColoring.Proofs.View.Zoom

/-!
# The mesh tiles the square

The triangles of a mesh, read with exact numbers: the lines of each axis go from one side of the
normalised square to the other, so the cells between them fill it, and each cell is cut in two.
-/

namespace DomainColoring

section Steps

variable {K : Type} {n : Nat}

/-- A sequence that starts below a number and ends above it passes it in one of its steps. -/
theorem exists_step [LinearOrder K] (pos : 0 < n) (f : Fin (n + 1) → K) {t : K} (first : f 0 ≤ t)
    (last : t ≤ f (Fin.last n)) : ∃ i : Fin n, f i.castSucc ≤ t ∧ t ≤ f i.succ := by
  induction n with
  | zero => exact absurd pos (lt_irrefl 0)
  | succ n ih =>
    rcases le_total (f (Fin.last n).castSucc) t with passed | notYet
    · exact ⟨Fin.last n, passed, last⟩
    rcases Nat.eq_zero_or_pos n with rfl | some
    · exact ⟨0, first, last⟩
    · obtain ⟨i, low, high⟩ := ih some (fun i => f i.castSucc) first notYet
      exact ⟨i.castSucc, low, high⟩

/-- The steps of a sequence add up to the way from its start to its end. -/
theorem sum_steps [AddCommGroup K] (f : Fin (n + 1) → K) :
    ∑ i : Fin n, (f i.succ - f i.castSucc) = f (Fin.last n) - f 0 := by
  induction n with
  | zero => simp
  | succ n ih =>
    have earlier := ih fun i => f i.castSucc
    rw [Fin.castSucc_zero] at earlier
    rw [Fin.sum_univ_castSucc]
    simp only [Fin.succ_castSucc, Fin.succ_last]
    rw [earlier]
    abel

end Steps

section Lines

variable {extent : UInt32} {unit : ℚ}

theorem isGridUnit_rat (pos : 0 < unit) : isGridUnit unit = true := by
  simp [isGridUnit, pos]

theorem gridLine_rat (extent : UInt32) (unit : ℚ) (i : Nat) :
    gridLine extent unit i = min (i * unit) extent.toNat :=
  (min_def_lt _ _).symm

variable (visible : extent ≠ 0) (pos : 0 < unit)
include visible pos

/-- Lines are apart: only the last one is moved to the end of the axis. -/
theorem pairwise_gridLines_rat : (gridLines extent unit).Pairwise (· < ·) := by
  rw [gridLines_eq_map visible (isGridUnit_rat pos), List.pairwise_map]
  refine List.pairwise_lt_range.imp_of_mem fun {i j} _ counted before => ?_
  have counted : i < cellCount extent unit := by
    have := List.mem_range.1 counted
    omega
  have within : (i * unit : ℚ) < extent.toNat := (lt_div_iff₀ pos).1 (Nat.lt_ceil.1 counted)
  have further : (i * unit : ℚ) < j * unit := mul_lt_mul_of_pos_right (Nat.cast_lt.2 before) pos
  rw [gridLine_rat, gridLine_rat, min_eq_left within.le]
  exact lt_min further within

theorem head?_gridLines_rat : (gridLines extent unit).head? = some 0 := by
  rw [head?_gridLines visible (isGridUnit_rat pos), gridLine_rat]
  simp

/-- The last line is at the end of the axis. -/
theorem getLast?_gridLines_rat : (gridLines extent unit).getLast? = some (extent.toNat : ℚ) := by
  have beyond : (extent.toNat : ℚ) ≤ cellCount extent unit * unit :=
    (div_le_iff₀ pos).1 (Nat.le_ceil _)
  rw [getLast?_gridLines visible (isGridUnit_rat pos), gridLine_rat, min_eq_right beyond]

theorem two_le_length_gridLines_rat : 2 ≤ (gridLines extent unit).length := by
  have cells : 0 < cellCount extent unit :=
    Nat.ceil_pos.2 (div_pos (Nat.cast_pos.2 (toNat_pos visible)) pos)
  rw [length_gridLines visible (isGridUnit_rat pos)]
  exact Nat.succ_le_succ cells

end Lines

namespace Grid

section Places

variable {α β : Type} {g : Grid α} (h : g.hasCells)

/-- The `i`-th line from the left. -/
def x (i : Fin (g.columns + 1)) : α := g.xs.get (i.cast (length_xs h).symm)

/-- The `j`-th line from the top. -/
def y (j : Fin (g.rows + 1)) : α := g.ys.get (j.cast (length_ys h).symm)

theorem get_table (f : α → α → β) (i : Fin (g.columns + 1)) (j : Fin (g.rows + 1)) :
    (g.table h f).get i j = f (x h i) (y h j) := by
  have column : g.xs[i.val]? = some (x h i) := List.getElem?_eq_getElem _
  have row : g.ys[j.val]? = some (y h j) := List.getElem?_eq_getElem _
  have corner := g.getElem?_table h f i.val (Nat.le_of_lt_succ j.isLt)
  rw [CornerTable.getElem?_get, point?, column, row] at corner
  exact Option.some.inj corner

theorem x_zero : some (x h 0) = g.xs.head? := by
  rw [List.head?_eq_getElem?]
  exact (List.getElem?_eq_getElem _).symm

theorem x_last : some (x h (Fin.last _)) = g.xs.getLast? := by
  rw [List.getLast?_eq_getElem?]
  exact (List.getElem?_eq_getElem _).symm

theorem y_zero : some (y h 0) = g.ys.head? := by
  rw [List.head?_eq_getElem?]
  exact (List.getElem?_eq_getElem _).symm

theorem y_last : some (y h (Fin.last _)) = g.ys.getLast? := by
  rw [List.getLast?_eq_getElem?]
  exact (List.getElem?_eq_getElem _).symm

end Places

/-- The triangles of a grid, without the colours that a mesh gives their corners. -/
def triangles {α : Type} (g : Grid α) : List (Triangle α) :=
  if h : g.hasCells then Triangle.ofCorners (g.table h Point.mk).triangles else []

/-- The lines go across the normalised square, from its left to its right side and from its top to
its bottom. -/
structure Spans (g : Grid ℚ) : Prop where
  hasCells : g.hasCells
  rightward : g.xs.Pairwise (· < ·)
  downward : g.ys.Pairwise (· > ·)
  left : g.xs.head? = some (-1)
  right : g.xs.getLast? = some 1
  top : g.ys.head? = some 1
  bottom : g.ys.getLast? = some (-1)

namespace Spans

variable {g : Grid ℚ} (s : g.Spans)
include s

theorem strictMono_x : StrictMono (x s.hasCells) := fun _ _ before =>
  List.pairwise_iff_get.1 s.rightward _ _ before

theorem strictAnti_y : StrictAnti (y s.hasCells) := fun _ _ before =>
  List.pairwise_iff_get.1 s.downward _ _ before

theorem x_zero : x s.hasCells 0 = -1 := Option.some.inj ((Grid.x_zero _).trans s.left)

theorem x_last : x s.hasCells (Fin.last _) = 1 := Option.some.inj ((Grid.x_last _).trans s.right)

theorem y_zero : y s.hasCells 0 = 1 := Option.some.inj ((Grid.y_zero _).trans s.top)

theorem y_last : y s.hasCells (Fin.last _) = -1 :=
  Option.some.inj ((Grid.y_last _).trans s.bottom)

/-- The cell in the `i`-th column from the left and the `j`-th row from the top. -/
def cell (i : Fin g.columns) (j : Fin g.rows) : Rectangle where
  left := x s.hasCells i.castSucc
  right := x s.hasCells i.succ
  bottom := y s.hasCells j.succ
  top := y s.hasCells j.castSucc
  left_lt_right := s.strictMono_x Fin.castSucc_lt_succ
  bottom_lt_top := s.strictAnti_y Fin.castSucc_lt_succ

theorem triangles_eq :
    g.triangles = (List.finRange g.columns).flatMap fun i =>
      (List.finRange g.rows).flatMap fun j => (s.cell i j).halves := by
  rw [triangles, dif_pos s.hasCells, CornerTable.triangles, Triangle.ofCorners_flatMap]
  · refine List.flatMap_congr fun i _ => ?_
    rw [Triangle.ofCorners_flatMap fun j _ => by rw [CornerTable.length_cell]; decide]
    refine List.flatMap_congr fun j _ => ?_
    simp only [CornerTable.cell, get_table]
    rfl
  · intro i _
    rw [CornerTable.length_column]
    exact dvd_mul_of_dvd_right (by decide) _

theorem exists_cell_of_mem {t : Triangle ℚ} (ht : t ∈ g.triangles) :
    ∃ i j, t ∈ (s.cell i j).halves := by
  rw [s.triangles_eq] at ht
  obtain ⟨i, -, inColumn⟩ := List.mem_flatMap.1 ht
  obtain ⟨j, -, inCell⟩ := List.mem_flatMap.1 inColumn
  exact ⟨i, j, inCell⟩

theorem mem_triangles {i : Fin g.columns} {j : Fin g.rows} {t : Triangle ℚ}
    (ht : t ∈ (s.cell i j).halves) : t ∈ g.triangles := by
  rw [s.triangles_eq]
  exact List.mem_flatMap.2 ⟨i, List.mem_finRange i, List.mem_flatMap.2 ⟨j, List.mem_finRange j, ht⟩⟩

/-- Triangles are told apart by their column, by their row in it, or by the diagonal. -/
theorem disjoint_triangles :
    g.triangles.Pairwise fun t u => Disjoint (interior t.region) (interior u.region) := by
  rw [s.triangles_eq, List.pairwise_flatMap]
  refine ⟨fun i _ => ?column, (List.pairwise_lt_finRange _).imp fun {i i'} before t ht u hu => ?columns⟩
  case columns =>
    obtain ⟨j, -, ht⟩ := List.mem_flatMap.1 ht
    obtain ⟨j', -, hu⟩ := List.mem_flatMap.1 hu
    exact Rectangle.disjoint_of_right_le_left ht hu
      (s.strictMono_x.monotone (Fin.succ_le_castSucc_iff.2 before))
  case column =>
    rw [List.pairwise_flatMap]
    refine ⟨fun j _ => ?cell, (List.pairwise_lt_finRange _).imp fun {j j'} before t ht u hu => ?cells⟩
    case cells =>
      exact Rectangle.disjoint_of_top_le_bottom ht hu
        (s.strictAnti_y.antitone (Fin.succ_le_castSucc_iff.2 before))
    case cell =>
      exact List.pairwise_pair.2 (s.cell i j).disjoint_interior_upper_lower

/-- The cells lie within the square. -/
theorem region_cell_subset (i : Fin g.columns) (j : Fin g.rows) :
    (s.cell i j).region ⊆ Set.Icc (-1) 1 ×ˢ Set.Icc (-1) 1 := by
  have left : (-1 : ℚ) ≤ (s.cell i j).left := s.x_zero ▸ s.strictMono_x.monotone (Fin.zero_le _)
  have right : (s.cell i j).right ≤ 1 := s.x_last ▸ s.strictMono_x.monotone (Fin.le_last _)
  have bottom : (-1 : ℚ) ≤ (s.cell i j).bottom := s.y_last ▸ s.strictAnti_y.antitone (Fin.le_last _)
  have top : (s.cell i j).top ≤ 1 := s.y_zero ▸ s.strictAnti_y.antitone (Fin.zero_le _)
  apply Set.prod_mono <;> apply Set.Icc_subset_Icc <;> exact_mod_cast ‹_›

/-- Every point of the square is in a cell. -/
theorem exists_region_cell {p : ℝ × ℝ} (inside : p ∈ Set.Icc (-1 : ℝ) 1 ×ˢ Set.Icc (-1 : ℝ) 1) :
    ∃ i j, p ∈ (s.cell i j).region := by
  obtain ⟨⟨left, right⟩, bottom, top⟩ := inside
  have cells := g.hasCells_iff.1 s.hasCells
  have fromLeft : ((x s.hasCells 0 : ℚ) : ℝ) ≤ p.1 := by rw [s.x_zero]; exact_mod_cast left
  have toRight : p.1 ≤ (x s.hasCells (Fin.last _) : ℚ) := by rw [s.x_last]; exact_mod_cast right
  have fromTop : -((y s.hasCells 0 : ℚ) : ℝ) ≤ -p.2 := by
    rw [s.y_zero]
    exact neg_le_neg (by exact_mod_cast top)
  have toBottom : -p.2 ≤ -((y s.hasCells (Fin.last _) : ℚ) : ℝ) := by
    rw [s.y_last]
    exact neg_le_neg (by exact_mod_cast bottom)
  obtain ⟨i, passesX⟩ := exists_step cells.1 (fun i => ((x s.hasCells i : ℚ) : ℝ)) fromLeft toRight
  -- the lines of the rows come down, so they are followed upside down
  obtain ⟨j, passesY⟩ := exists_step cells.2 (fun j => -((y s.hasCells j : ℚ) : ℝ)) fromTop toBottom
  exact ⟨i, j, passesX, neg_le_neg_iff.1 passesY.2, neg_le_neg_iff.1 passesY.1⟩

theorem tiles : Tiles g.triangles (Set.Icc (-1) 1 ×ˢ Set.Icc (-1) 1) where
  area_pos t ht := by
    obtain ⟨i, j, inCell⟩ := s.exists_cell_of_mem ht
    exact Rectangle.area_pos_of_mem_halves inCell
  disjoint := s.disjoint_triangles
  cover := by
    apply Set.Subset.antisymm
    · refine Set.iUnion₂_subset fun t ht => ?_
      obtain ⟨i, j, inCell⟩ := s.exists_cell_of_mem ht
      exact (Rectangle.region_subset_of_mem_halves inCell).trans (s.region_cell_subset i j)
    · intro p inside
      obtain ⟨i, j, inCell⟩ := s.exists_region_cell inside
      obtain ⟨t, ht, covered⟩ := Rectangle.exists_mem_halves inCell
      exact Set.mem_iUnion₂.2 ⟨t, s.mem_triangles ht, covered⟩

theorem sum_area : (g.triangles.map Triangle.area).sum = 4 := by
  have width := sum_steps (x s.hasCells)
  have height := sum_steps fun j => -y s.hasCells j
  rw [s.x_last, s.x_zero] at width
  simp only [s.y_last, s.y_zero] at height
  have cells : (g.triangles.map Triangle.area).sum =
      ∑ i : Fin g.columns, ∑ j : Fin g.rows,
        (x s.hasCells i.succ - x s.hasCells i.castSucc) *
          (-y s.hasCells j.succ - -y s.hasCells j.castSucc) := by
    simp only [s.triangles_eq, List.flatMap_def, List.map_flatten, List.sum_flatten, List.map_map,
      Fin.sum_univ_def]
    refine congrArg List.sum (List.map_congr_left fun i _ => ?_)
    simp only [Function.comp_apply, List.map_flatten, List.sum_flatten, List.map_map]
    refine congrArg List.sum (List.map_congr_left fun j _ => ?_)
    rw [Function.comp_apply, Function.comp_apply, Rectangle.sum_area_halves]
    change (x s.hasCells i.succ - x s.hasCells i.castSucc) *
      (y s.hasCells j.castSucc - y s.hasCells j.succ) = _
    ring
  rw [cells, ← Finset.sum_mul_sum, width, height]
  norm_num

end Spans

/-- Lines of exact numbers go across the square, whatever the size of the canvas and the distance
between them. -/
theorem spans_ofCanvas {canvas : Canvas} {unit : ℚ} (visible : canvas.isEmpty = false)
    (pos : 0 < unit) : (ofCanvas canvas unit).Spans := by
  obtain ⟨width, height⟩ : canvas.width ≠ 0 ∧ canvas.height ≠ 0 := by
    simpa [Canvas.isEmpty] using visible
  obtain ⟨wide, high⟩ := Canvas.sides_ne_zero visible
  have rightward : StrictMono (canvas.normalX : ℚ → ℚ) := fun a b before => by
    have further := div_lt_div_of_pos_right before ((Nat.cast_nonneg _).lt_of_ne' wide)
    simp only [Canvas.normalX, Scalar.ofNat_rat]
    push_cast
    linarith only [further]
  have downward : StrictAnti (canvas.normalY : ℚ → ℚ) := fun a b before => by
    have further := div_lt_div_of_pos_right before ((Nat.cast_nonneg _).lt_of_ne' high)
    simp only [Canvas.normalY, Scalar.ofNat_rat]
    push_cast
    linarith only [further]
  refine ⟨⟨?columns, ?rows⟩, ?rightward, ?downward, ?left, ?right, ?top, ?bottom⟩
  case columns => exact (two_le_length_gridLines_rat width pos).trans_eq (List.length_map _).symm
  case rows => exact (two_le_length_gridLines_rat height pos).trans_eq (List.length_map _).symm
  case rightward =>
    exact List.pairwise_map.2 ((pairwise_gridLines_rat width pos).imp fun before => rightward before)
  case downward =>
    exact List.pairwise_map.2 ((pairwise_gridLines_rat height pos).imp fun before => downward before)
  case left =>
    rw [ofCanvas, List.head?_map, head?_gridLines_rat width pos]
    simp [Canvas.normalX]
  case right =>
    rw [ofCanvas, List.getLast?_map, getLast?_gridLines_rat width pos]
    simp [Canvas.normalX, div_self wide]
    norm_num
  case top =>
    rw [ofCanvas, List.head?_map, head?_gridLines_rat height pos]
    simp [Canvas.normalY]
  case bottom =>
    rw [ofCanvas, List.getLast?_map, getLast?_gridLines_rat height pos]
    simp [Canvas.normalY, div_self high]
    norm_num

theorem map_table {α β γ : Type} (g : Grid α) (h : g.hasCells) (f : α → α → β) (k : β → γ) :
    (g.table h f).map k = g.table h fun x y => k (f x y) := by
  simp only [table, CornerTable.map, List.map_toArray, List.map_flatMap, List.map_map]
  rfl

end Grid

theorem CornerTable.triangles_map {β γ : Type} {columns rows : Nat} (k : β → γ)
    (t : CornerTable β columns rows) : (t.map k).triangles = t.triangles.map k := by
  have get : ∀ i j, (t.map k).get i j = k (t.get i j) := by
    intro i j
    simp only [CornerTable.get, map, Array.getElem_map]
  simp only [triangles, cell, get, List.map_flatMap, List.map_cons, List.map_nil]

namespace Mesh

/-- The triangles that are drawn, without their colours. -/
def triangles (m : Mesh) : List (Triangle Float32) :=
  Triangle.ofCorners (m.vertices.toList.map Vertex.position)

/-- A point in single precision. -/
def narrow (p : Point Float) : Point Float32 := ⟨Binary64.narrow p.x, Binary64.narrow p.y⟩

/-- The triangles of a mesh are those of its grid. -/
theorem triangles_generate (f : Expr) (view : View Float) (canvas : Canvas) (unit : Float)
    (colors : ColorSettings Float) :
    (generate f view canvas unit colors).triangles =
      (Grid.ofCanvas canvas unit).triangles.map (Triangle.map narrow) := by
  by_cases cells : (Grid.ofCanvas canvas unit).hasCells
  · rw [generate_of_hasCells f view canvas colors cells, triangles, Grid.triangles, dif_pos cells,
      ← Triangle.ofCorners_map, ← CornerTable.triangles_map, ← CornerTable.triangles_map,
      Grid.map_table, Grid.map_table, Grid.map_table]
    rfl
  · have built : generate f view canvas unit colors = empty := dif_neg cells
    rw [built, Grid.triangles, dif_neg cells]
    rfl

/-- With exact numbers the triangles of a mesh tile the normalised square: each goes round
counter-clockwise, no two overlap, they cover the square and nothing else, and their areas add up to
its area. -/
theorem triangles_tile_square (canvas : Canvas) (unit : ℚ) (visible : canvas.isEmpty = false)
    (pos : 0 < unit) :
    let triangles := (Grid.ofCanvas canvas unit).triangles
    Tiles triangles (Set.Icc (-1) 1 ×ˢ Set.Icc (-1) 1) ∧ (triangles.map Triangle.area).sum = 4 ∧
      ∀ (f : Expr) (view : View Float) (step : Float) (colors : ColorSettings Float),
        (generate f view canvas step colors).triangles =
          (Grid.ofCanvas canvas step).triangles.map (Triangle.map narrow) := by
  intro triangles
  have spans := Grid.spans_ofCanvas visible pos
  exact ⟨spans.tiles, spans.sum_area, fun f view step colors =>
    triangles_generate f view canvas step colors⟩

/-- The last column is narrower than the others, and the only row is lower than a cell would be. -/
theorem triangles_tile_square_narrowed :
    let canvas : Canvas := ⟨7, 2⟩
    let grid : Grid ℚ := Grid.ofCanvas canvas (5 / 2)
    canvas.isEmpty = false ∧ grid.xs = [-1, -2 / 7, 3 / 7, 1] ∧ grid.ys = [1, -1] ∧
      Tiles grid.triangles (Set.Icc (-1) 1 ×ˢ Set.Icc (-1) 1) ∧
      (grid.triangles.map Triangle.area).sum = 4 := by
  have tiling := triangles_tile_square ⟨7, 2⟩ (5 / 2) (by decide) (by norm_num)
  exact ⟨by decide, by decide +kernel, by decide +kernel, tiling.1, tiling.2.1⟩

end Mesh

end DomainColoring
