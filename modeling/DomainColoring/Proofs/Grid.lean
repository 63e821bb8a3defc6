import DomainColoring.Grid
import Mathlib.Algebra.BigOperators.Fin
import Mathlib.Data.Finset.Prod
import Mathlib.Tactic.Ring

/-!
# Corners of the grid

Where a corner of the grid is in the table of corners, and where a corner of a triangle is in the list
of triangles. Both are lists of equal parts: each line of the table has a corner more than there are
rows, each column of cells has six corners for every row.
-/

namespace DomainColoring

section Parts

variable {α β : Type}

theorem length_flatMap_of_length {l : List α} {f : α → List β} {n : Nat}
    (parts : ∀ a ∈ l, (f a).length = n) : (l.flatMap f).length = l.length * n := by
  rw [List.length_flatMap, List.map_congr_left parts, List.map_const', List.sum_replicate_nat]

/-- The `k`-th element of the `i`-th part, where every part has `n` elements. -/
theorem getElem?_flatMap_of_length {l : List α} {f : α → List β} {n : Nat}
    (parts : ∀ a ∈ l, (f a).length = n) (i : Nat) {k : Nat} (hk : k < n) :
    (l.flatMap f)[i * n + k]? = l[i]?.bind fun a => (f a)[k]? := by
  -- each step leaves one part behind: the place moves back by `n`
  induction l generalizing i with
  | nil => simp
  | cons a l ih =>
    have first : (f a).length = n := parts a List.mem_cons_self
    rw [List.flatMap_cons]
    cases i with
    | zero =>
      rw [Nat.zero_mul, Nat.zero_add, List.getElem?_append_left (by omega)]
      rfl
    | succ i =>
      have beyond : (f a).length ≤ (i + 1) * n + k := by rw [first, Nat.succ_mul]; omega
      have back : (i + 1) * n + k - (f a).length = i * n + k := by rw [first, Nat.succ_mul]; omega
      rw [List.getElem?_append_right beyond, back]
      exact ih (fun b hb => parts b (List.mem_cons_of_mem a hb)) i

/-- A sum over positions is a sum over elements. -/
theorem sum_range_getElem? (l : List α) (f : Option α → Nat) :
    ∑ i ∈ Finset.range l.length, f l[i]? = (l.map fun a => f (some a)).sum := by
  induction l with
  | nil => rfl
  | cons a l ih =>
    rw [List.length_cons, Finset.sum_range_succ', List.map_cons, List.sum_cons, ← ih, Nat.add_comm]
    rfl

theorem sum_range_getElem?_getElem? (xs : List α) (ys : List β) (f : Option α → Option β → Nat) :
    ∑ i ∈ Finset.range xs.length, ∑ j ∈ Finset.range ys.length, f xs[i]? ys[j]? =
      (xs.map fun x => (ys.map fun y => f (some x) (some y)).sum).sum := by
  rw [sum_range_getElem? xs fun x => ∑ j ∈ Finset.range ys.length, f x ys[j]?]
  simp only [sum_range_getElem? ys]

theorem countP_eq_sum (p : α → Bool) (l : List α) :
    l.countP p = (l.map fun a => if p a then 1 else 0).sum := by
  induction l with
  | nil => rfl
  | cons a l ih => rw [List.countP_cons, List.map_cons, List.sum_cons, ih, Nat.add_comm]

end Parts

namespace Grid

variable {α β : Type}

/-- The point where the `i`-th line from the left meets the `j`-th from the top. -/
def point? (g : Grid α) (i j : Nat) : Option (Point α) :=
  g.xs[i]?.bind fun x => g.ys[j]?.map fun y => ⟨x, y⟩

theorem length_xs {g : Grid α} (h : g.hasCells) : g.xs.length = g.columns + 1 :=
  (Nat.sub_add_cancel (Nat.le_of_succ_le h.1)).symm

theorem length_ys {g : Grid α} (h : g.hasCells) : g.ys.length = g.rows + 1 :=
  (Nat.sub_add_cancel (Nat.le_of_succ_le h.2)).symm

theorem hasCells_iff (g : Grid α) : g.hasCells ↔ 0 < g.columns ∧ 0 < g.rows := by
  unfold hasCells columns rows
  omega

/-- Every line meets every other. -/
theorem exists_point? {g : Grid α} (h : g.hasCells) {i j : Nat} (hi : i ≤ g.columns)
    (hj : j ≤ g.rows) : ∃ p, g.point? i j = some p := by
  have hx : i < g.xs.length := by rw [length_xs h]; omega
  have hy : j < g.ys.length := by rw [length_ys h]; omega
  exact ⟨⟨g.xs[i], g.ys[j]⟩, by
    rw [point?, List.getElem?_eq_getElem hx, List.getElem?_eq_getElem hy]; rfl⟩

/-- The corner of two lines is at its place in the table. -/
theorem getElem?_table (g : Grid α) (h : g.hasCells) (f : α → α → β) (i : Nat) {j : Nat}
    (hj : j ≤ g.rows) :
    (g.table h f).values[i * (g.rows + 1) + j]? = (g.point? i j).map fun p => f p.x p.y := by
  have parts : ∀ x ∈ g.xs, (g.ys.map fun y => f x y).length = g.rows + 1 := by
    intro x _
    rw [List.length_map, length_ys h]
  rw [table, List.getElem?_toArray, getElem?_flatMap_of_length parts i (Nat.lt_succ_of_le hj), point?]
  cases g.xs[i]? with
  | none => rfl
  | some x => rw [Option.bind_some, Option.bind_some, List.getElem?_map, Option.map_map]; rfl

/-- Counting in the table counts corners, each once. -/
theorem countP_table (g : Grid α) (h : g.hasCells) (f : α → α → β) (p : β → Bool) :
    (g.table h f).values.countP p =
      ((Finset.range (g.columns + 1) ×ˢ Finset.range (g.rows + 1)).filter fun ij =>
        (g.point? ij.1 ij.2).any fun q => p (f q.x q.y)).card := by
  have corners := sum_range_getElem?_getElem? g.xs g.ys fun x y =>
    if (x.bind fun x => y.map fun y => (⟨x, y⟩ : Point α)).any (fun q => p (f q.x q.y)) then 1 else 0
  have lines : (g.xs.map fun x => (g.ys.map fun y => f x y).countP p).sum =
      (g.xs.map fun x => (g.ys.map fun y => if p (f x y) then 1 else 0).sum).sum := by
    simp only [countP_eq_sum, List.map_map, Function.comp_def]
  rw [Finset.card_filter, Finset.sum_product, ← length_xs h, ← length_ys h, table,
    List.countP_toArray, List.countP_flatMap]
  exact lines.trans corners.symm

end Grid

namespace CornerTable

variable {β γ : Type} {columns rows : Nat}

/-- How many lines to the right of and below the upper left corner of its cell the `k`-th corner of
the two triangles is. -/
def cornerStep : Fin 6 → Nat × Nat
  | 0 => (0, 0)
  | 1 => (0, 1)
  | 2 => (1, 0)
  | 3 => (1, 0)
  | 4 => (0, 1)
  | 5 => (1, 1)

theorem getElem?_get (t : CornerTable β columns rows) (i : Fin (columns + 1)) (j : Fin (rows + 1)) :
    t.values[i.val * (rows + 1) + j.val]? = some (t.get i j) :=
  Array.getElem?_eq_getElem _

theorem getElem?_cell (t : CornerTable β columns rows) (i : Fin columns) (j : Fin rows) (k : Fin 6) :
    (t.cell i j)[k.val]? =
      t.values[(i.val + (cornerStep k).1) * (rows + 1) + (j.val + (cornerStep k).2)]? := by
  match k with
  | 0 => exact (t.getElem?_get i.castSucc j.castSucc).symm
  | 1 => exact (t.getElem?_get i.castSucc j.succ).symm
  | 2 => exact (t.getElem?_get i.succ j.castSucc).symm
  | 3 => exact (t.getElem?_get i.succ j.castSucc).symm
  | 4 => exact (t.getElem?_get i.castSucc j.succ).symm
  | 5 => exact (t.getElem?_get i.succ j.succ).symm

theorem length_cell (t : CornerTable β columns rows) (i : Fin columns) (j : Fin rows) :
    (t.cell i j).length = 6 := rfl

theorem length_column (t : CornerTable β columns rows) (i : Fin columns) :
    ((List.finRange rows).flatMap fun j => t.cell i j).length = rows * 6 := by
  rw [length_flatMap_of_length fun j _ => t.length_cell i j, List.length_finRange]

theorem length_triangles (t : CornerTable β columns rows) :
    t.triangles.length = 6 * columns * rows := by
  rw [triangles, length_flatMap_of_length fun i _ => t.length_column i, List.length_finRange]
  ring

/-- Where a corner of a triangle comes from. -/
theorem getElem?_triangles (t : CornerTable β columns rows) {i j : Nat} (hi : i < columns)
    (hj : j < rows) (k : Fin 6) :
    t.triangles[6 * (i * rows + j) + k]? =
      t.values[(i + (cornerStep k).1) * (rows + 1) + (j + (cornerStep k).2)]? := by
  have place : 6 * (i * rows + j) + k.val = i * (rows * 6) + (j * 6 + k.val) := by ring
  have inColumn : j * 6 + k.val < rows * 6 := by omega
  have column : (List.finRange columns)[i]? = some ⟨i, hi⟩ := by simp [hi]
  have row : (List.finRange rows)[j]? = some ⟨j, hj⟩ := by simp [hj]
  rw [place, triangles, getElem?_flatMap_of_length (fun i _ => t.length_column i) i inColumn, column,
    Option.bind_some, getElem?_flatMap_of_length (fun j _ => t.length_cell ⟨i, hi⟩ j) j k.isLt, row,
    Option.bind_some]
  exact t.getElem?_cell ⟨i, hi⟩ ⟨j, hj⟩ k

end CornerTable

end DomainColoring
