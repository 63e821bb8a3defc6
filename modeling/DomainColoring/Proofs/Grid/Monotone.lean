import DomainColoring.Proofs.Grid.Lines

/-!
# Larger canvases need more vertices

The planned count grows with either side of the canvas, and shrinks as the lines are put farther apart.
A quotient is rounded twice, to a machine number and then up to a whole one, and cut off at the largest
word; the product is cut off twice more. None of this turns an order round (`cellCount_mono`).
-/

namespace DomainColoring

open Binary64

/-- No larger on either side. -/
def Canvas.FitsIn (c d : Canvas) : Prop := c.width ≤ d.width ∧ c.height ≤ d.height

instance (c d : Canvas) : Decidable (c.FitsIn d) := inferInstanceAs (Decidable (_ ∧ _))

theorem Canvas.FitsIn.rfl {c : Canvas} : c.FitsIn c :=
  ⟨UInt32.le_refl _, UInt32.le_refl _⟩

theorem ne_zero_of_le {short long : UInt32} (le : short ≤ long) (visible : short ≠ 0) : long ≠ 0 := by
  rintro rfl
  exact visible (UInt32.le_zero_iff.1 le)

section Counts

variable {short long : UInt32} {coarse fine : Float}

/-- A longer axis with lines no farther apart has no fewer cells. -/
theorem cellCount_mono (visible : short ≠ 0) (longer : short ≤ long) (good : isGridUnit fine = true)
    (good' : isGridUnit coarse = true) (finer : fine ≤ coarse) :
    cellCount short coarse ≤ cellCount long fine := by
  obtain ⟨u, posU, hu⟩ := exists_hasValue_unit good
  obtain ⟨v, posV, hv⟩ := exists_hasValue_unit good'
  have some : (0 : ℚ) < short.toNat := Nat.cast_pos.2 (toNat_pos visible)
  have extents : (short.toNat : ℚ) ≤ long.toNat := Nat.cast_le.2 (UInt32.le_iff_toNat_le.1 longer)
  have units : u ≤ v := WithTop.coe_le_coe.1 ((le_iff_of_hasValue hu hv).1 finer)
  have quotients : (short.toNat / v : ℚ) ≤ long.toNat / u :=
    div_le_div₀ (some.le.trans extents) extents posU units
  exact ceilNat_mono (hasValue_div some posV (hasValue_edge short) hv)
    (hasValue_div (some.trans_le extents) posU (hasValue_edge long) hu)
    (stored_mono (div_pos some posV).le quotients)

/-- Cells are counted from nothing on: an axis without length has none. -/
theorem length_gridLines_sub_one_mono (longer : short ≤ long) (good : isGridUnit fine = true)
    (good' : isGridUnit coarse = true) (finer : fine ≤ coarse) :
    (gridLines short coarse).length - 1 ≤ (gridLines long fine).length - 1 := by
  by_cases visible : short = 0
  · rw [length_gridLines_sub_one, visible]
    exact Nat.zero_le _
  · rw [length_gridLines visible good', length_gridLines (ne_zero_of_le longer visible) good]
    exact cellCount_mono visible longer good good' finer

/-- A larger canvas with lines no farther apart needs no fewer vertices. -/
theorem plannedVertexCount_mono {c d : Canvas} (fits : c.FitsIn d) (good : isGridUnit fine = true)
    (good' : isGridUnit coarse = true) (finer : fine ≤ coarse) :
    plannedVertexCount c coarse ≤ plannedVertexCount d fine := by
  rw [plannedVertexCount_eq_min, plannedVertexCount_eq_min]
  have columns := length_gridLines_sub_one_mono fits.1 good good' finer
  have rows := length_gridLines_sub_one_mono fits.2 good good' finer
  exact min_le_min_right _ (Nat.mul_le_mul (Nat.mul_le_mul_left 6 columns) rows)

/-- Whatever the unit is, a larger canvas needs no fewer vertices. -/
theorem plannedVertexCount_le_of_fitsIn {c d : Canvas} (fits : c.FitsIn d) (unit : Float) :
    plannedVertexCount c unit ≤ plannedVertexCount d unit := by
  cases good : isGridUnit unit with
  | true =>
    obtain ⟨u, -, h⟩ := exists_hasValue_unit good
    exact plannedVertexCount_mono fits good good ((le_iff_of_hasValue h h).2 le_rfl)
  | false =>
    rw [plannedVertexCount, good, Bool.not_false, Bool.or_true, if_pos rfl]
    exact Nat.zero_le _

end Counts

end DomainColoring
