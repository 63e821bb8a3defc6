import DomainColoring.Proofs.Grid.Count
import DomainColoring.Proofs.Scalar.Arithmetic

/-!
# Where the lines are

With machine numbers the lines of an axis go up from zero and stay on the axis, and their number is the
rounded quotient rounded up. Whether the last one is at the end of the axis is told by exact numbers:
the quotient may have been rounded down to a whole number, and then the last line can be the machine
number before the end (`gridLines_toward_edge`).
-/

namespace DomainColoring

open Binary64

section Spacing

/-- The distance from a whole number to the machine number before it. -/
def spacingBelow (n : Nat) : ℚ := 2 ^ ((Nat.clog 2 n : ℤ) - 53)

variable {n : Nat} {v z : ℚ}

theorem spacingBelow_pos (n : Nat) : 0 < spacingBelow n := two_zpow_pos _

/-- A whole number of 32 places is an even number of spacings. -/
theorem exists_spacings (pos : 0 < n) (small : n < 2 ^ 32) :
    ∃ m : Nat, 2 ^ 52 ≤ m ∧ m < 2 ^ 53 ∧ m % 2 = 1 ∧ (n : ℚ) = (m + 1) * spacingBelow n := by
  obtain ⟨c, length⟩ : ∃ c, c = Nat.clog 2 n := ⟨_, rfl⟩
  have short : c ≤ 32 := length ▸ Nat.clog_le_of_le_pow small.le
  obtain ⟨d, rest⟩ : ∃ d, c + (d + 1) = 53 := ⟨52 - c, by omega⟩
  have most : n ≤ 2 ^ c := length ▸ Nat.le_pow_clog one_lt_two n
  have least : 2 ^ c < 2 * n := by
    rcases Nat.eq_or_lt_of_le (Nat.succ_le_of_lt pos) with rfl | more
    · rw [length]
      decide
    · have below : 2 ^ (c - 1) < n := length ▸ Nat.pow_pred_clog_lt_self one_lt_two more
      have some : 0 < c := length ▸ Nat.clog_pos one_lt_two more
      have twice : 2 ^ c = 2 * 2 ^ (c - 1) := by rw [← pow_succ', Nat.sub_add_cancel some]
      omega
  have units : (n : ℚ) = ((n * 2 ^ (d + 1) : Nat) : ℚ) * spacingBelow n := by
    have place : ((Nat.clog 2 n : ℤ) - 53) = -((d + 1 : Nat) : ℤ) := by omega
    rw [spacingBelow, place, zpow_neg, zpow_natCast]
    push_cast
    exact (mul_inv_cancel_right₀ (pow_ne_zero _ two_ne_zero) _).symm
  have low : 2 ^ 52 < n * 2 ^ (d + 1) := calc
    2 ^ 52 = 2 ^ c * 2 ^ d := by rw [← Nat.pow_add]; congr 1; omega
    _ < 2 * n * 2 ^ d := Nat.mul_lt_mul_of_pos_right least (Nat.two_pow_pos d)
    _ = n * 2 ^ (d + 1) := by ring
  have high : n * 2 ^ (d + 1) ≤ 2 ^ 53 := calc
    n * 2 ^ (d + 1) ≤ 2 ^ c * 2 ^ (d + 1) := Nat.mul_le_mul_right _ most
    _ = 2 ^ 53 := by rw [← Nat.pow_add, rest]
  have even : n * 2 ^ (d + 1) % 2 = 0 := by
    rw [pow_succ, ← mul_assoc]
    exact Nat.mul_mod_left _ 2
  refine ⟨n * 2 ^ (d + 1) - 1, by omega, by omega, by omega, ?_⟩
  rw [Nat.cast_sub (by omega), Nat.cast_one, sub_add_cancel]
  exact units

theorem neg_le_place (n : Nat) : -1074 ≤ (Nat.clog 2 n : ℤ) - 53 := by omega

/-- A whole number is the result of all from half a spacing below it on. -/
theorem natCast_le_rounded_iff (pos : 0 < n) (small : n < 2 ^ 32) (nonneg : 0 ≤ z) :
    n ≤ rounded z ↔ n - z ≤ spacingBelow n / 2 := by
  obtain ⟨m, low, high, odd, units⟩ := exists_spacings pos small
  have reached := succ_le_rounded_iff nonneg (neg_le_place n) low high odd
  rw [← spacingBelow, ← units] at reached
  exact reached

theorem short_sub_spacingBelow (pos : 0 < n) (small : n < 2 ^ 32) :
    Short (n - spacingBelow n) := by
  obtain ⟨m, -, high, -, units⟩ := exists_spacings pos small
  exact ⟨m, _, high, neg_le_place n, by rw [← spacingBelow]; linarith⟩

theorem sub_spacingBelow_nonneg (pos : 0 < n) (small : n < 2 ^ 32) : 0 ≤ n - spacingBelow n := by
  obtain ⟨m, -, -, -, units⟩ := exists_spacings pos small
  have some : 0 ≤ m * spacingBelow n := mul_nonneg m.cast_nonneg (spacingBelow_pos n).le
  linarith

/-- No machine number is between a whole number and the one a spacing below it. -/
theorem le_sub_spacingBelow (pos : 0 < n) (small : n < 2 ^ 32) (short : Short v) (nonneg : 0 ≤ v)
    (less : v < n) : v ≤ n - spacingBelow n := by
  obtain ⟨m, low, high, -, units⟩ := exists_spacings pos small
  have same := rounded_eq_self short
  have far : ¬n - v ≤ spacingBelow n / 2 := by
    rw [← natCast_le_rounded_iff pos small nonneg, same]
    exact less.not_ge
  by_contra above
  have between := rounded_of_lt_half (x := v) (neg_le_place n) low high
    (by rw [← spacingBelow]; linarith) (by rw [← spacingBelow]; linarith)
  rw [← spacingBelow, same] at between
  linarith

/-- A spacing is at least one part in `2 ^ 53`. -/
theorem div_le_spacingBelow (n : Nat) : (n / 2 ^ 53 : ℚ) ≤ spacingBelow n := by
  have most : (n : ℚ) ≤ 2 ^ Nat.clog 2 n := by exact_mod_cast Nat.le_pow_clog one_lt_two n
  rw [spacingBelow, zpow_sub₀ two_ne_zero, zpow_natCast]
  exact div_le_div_of_nonneg_right most (by norm_num)

end Spacing

section Lines

variable {extent : UInt32} {unit : Float} {u : ℚ}

/-- The end of an axis is a machine number. -/
theorem hasValue_edge (extent : UInt32) :
    HasValue (exactValue extent.toNat.toFloat) (extent.toNat : ℚ) :=
  stored_of_lt (extent.toNat_lt.trans (by decide)) ▸ hasValue_toFloat extent.toNat

theorem exists_hasValue_unit (good : isGridUnit unit = true) :
    ∃ u : ℚ, 0 < u ∧ HasValue (exactValue unit) u := by
  rw [isGridUnit, Bool.and_eq_true, Bool.not_eq_true', decide_eq_false_iff_not] at good
  obtain ⟨m, e, pos, read⟩ := exists_exactValue_of_pos good.1 good.2
  exact ⟨m * 2 ^ e, mul_pos (Nat.cast_pos.2 pos) (two_zpow_pos e),
    read ▸ .finite (canonical_of_unpack read)⟩

/-- Where the `i`-th line is: at the rounded product, or at the end of the axis if that is before it. -/
def lineAt (extent : UInt32) (u : ℚ) (i : Nat) : ℚ := min (rounded (rounded i * u)) extent.toNat

theorem hasValue_gridLine (pos : 0 < u) (h : HasValue (exactValue unit) u) {i : Nat}
    (fits : i ≤ maxCount) :
    HasValue (exactValue (gridLine extent unit i)) (lineAt extent u i) := by
  have whole : HasValue (exactValue i.toFloat) (rounded i) := stored_natCast fits ▸ hasValue_toFloat i
  have small : (extent.toNat : ℚ) < 2 ^ (1024 : ℤ) := by
    have bound : (extent.toNat : ℚ) < 2 ^ (32 : ℤ) := by exact_mod_cast extent.toNat_lt
    exact bound.trans (zpow_lt_zpow_right₀ one_lt_two (by norm_num))
  rw [lineAt, ← min_stored small]
  exact hasValue_least (hasValue_mul (rounded_nonneg _) pos whole h) (hasValue_edge extent)

theorem hasValue_gridLine_of_mem (pos : 0 < u) (h : HasValue (exactValue unit) u)
    (fits : cellCount extent unit ≤ maxCount) {i : Nat}
    (member : i ∈ List.range (cellCount extent unit + 1)) :
    HasValue (exactValue (gridLine extent unit i)) (lineAt extent u i) :=
  hasValue_gridLine pos h ((Nat.le_of_lt_succ (List.mem_range.1 member)).trans fits)

theorem lineAt_mono (pos : 0 < u) {i j : Nat} (le : i ≤ j) : lineAt extent u i ≤ lineAt extent u j :=
  min_le_min_right _ (rounded_mono (mul_nonneg (rounded_nonneg _) pos.le)
    (mul_le_mul_of_nonneg_right (rounded_mono i.cast_nonneg (Nat.cast_le.2 le)) pos.le))

theorem lineAt_nonneg (i : Nat) : 0 ≤ lineAt extent u i :=
  le_min (rounded_nonneg _) extent.toNat.cast_nonneg

theorem lineAt_le (i : Nat) : lineAt extent u i ≤ extent.toNat := min_le_right _ _

/-- Unless the count is cut off, it is the rounded quotient rounded up. -/
theorem quotient_of_cellCount_lt (visible : extent ≠ 0) (pos : 0 < u) (h : HasValue (exactValue unit) u)
    (fits : cellCount extent unit < maxCount) :
    HasValue (exactValue (extent.toNat.toFloat / unit)) (rounded (extent.toNat / u)) ∧
      cellCount extent unit = ⌈rounded (extent.toNat / u)⌉₊ := by
  have positive : (0 : ℚ) < extent.toNat := Nat.cast_pos.2 (toNat_pos visible)
  have quotient := hasValue_div positive pos (hasValue_edge extent) h
  have counted : cellCount extent unit = ceilNat (extent.toNat.toFloat / unit) := rfl
  unfold stored at quotient
  split_ifs at quotient with small
  · have ceil := ceilNat_of_hasValue (rounded_nonneg _) quotient
    exact ⟨quotient, by omega⟩
  · have cut := ceilNat_top quotient
    omega

theorem one_le_cellCount (visible : extent ≠ 0) (good : isGridUnit unit = true) :
    1 ≤ cellCount extent unit := by
  have cell := one_le_length_gridLines_sub_one visible good
  rwa [length_gridLines visible good, Nat.add_sub_cancel] at cell

section Last

variable {cells : Nat} (pos : 0 < u) (counted : cells = ⌈rounded (extent.toNat / u)⌉₊)
include pos counted

/-- The number of cells is a machine number. -/
theorem rounded_cells : rounded cells = cells := by
  have short : Short (rounded (extent.toNat / u)) :=
    short_rounded (div_nonneg extent.toNat.cast_nonneg pos.le)
  rw [counted]
  exact rounded_eq_self short.ceil

/-- If the cells together are too short, the quotient was rounded down to their number. -/
theorem rounded_div_eq_cells (short : cells * u < extent.toNat) :
    rounded (extent.toNat / u) = cells := by
  apply le_antisymm
  · rw [counted]
    exact Nat.le_ceil _
  · rw [← rounded_cells pos counted]
    exact rounded_mono cells.cast_nonneg ((le_div_iff₀ pos).2 short.le)

variable (visible : extent ≠ 0) (some : 1 ≤ cells)
include visible some

/-- The cells together are too short for the axis by at most a spacing. -/
theorem sub_spacingBelow_le_mul : extent.toNat - spacingBelow extent.toNat ≤ cells * u := by
  have positive : (0 : ℚ) < extent.toNat := Nat.cast_pos.2 (toNat_pos visible)
  have spacing := spacingBelow_pos extent.toNat
  rcases le_or_gt (extent.toNat : ℚ) u with wide | narrow
  · have first : (1 : ℚ) ≤ cells := by exact_mod_cast some
    have covered := mul_le_mul_of_nonneg_right first pos.le
    linarith
  · -- the quotient is above 1, so rounding takes no more than one part in `2 ^ 53` from it
    have above : 1 < extent.toNat / u := (one_lt_div pos).2 narrow
    have least : (2 : ℚ) ^ (-1022 : ℤ) ≤ extent.toNat / u :=
      (zpow_le_one_of_nonpos₀ one_le_two (by norm_num)).trans above.le
    have scaled : (extent.toNat : ℚ) ≤ rounded (extent.toNat / u) * u + extent.toNat / 2 ^ 53 := by
      have times := mul_le_mul_of_nonneg_right (le_rounded_add least) pos.le
      rwa [div_mul_cancel₀ _ pos.ne', add_mul, div_right_comm, div_mul_cancel₀ _ pos.ne'] at times
    have ceil : rounded (extent.toNat / u) ≤ cells := counted ▸ Nat.le_ceil _
    have covered := mul_le_mul_of_nonneg_right ceil pos.le
    have part := div_le_spacingBelow extent.toNat
    linarith

/-- The last line is at the end of the axis, or a spacing before it. -/
theorem lineAt_last :
    lineAt extent u cells =
      if extent.toNat - cells * u ≤ spacingBelow extent.toNat / 2 then (extent.toNat : ℚ)
      else extent.toNat - spacingBelow extent.toNat := by
  have positive := toNat_pos visible
  have small := extent.toNat_lt
  have nonneg : (0 : ℚ) ≤ cells * u := mul_nonneg cells.cast_nonneg pos.le
  have reached := natCast_le_rounded_iff positive small nonneg
  rw [lineAt, rounded_cells pos counted]
  split_ifs with near
  · exact min_eq_right (reached.2 near)
  · have below : rounded (cells * u) < extent.toNat := not_le.1 (mt reached.1 near)
    have least := rounded_mono (sub_spacingBelow_nonneg positive small)
      (sub_spacingBelow_le_mul pos counted visible some)
    rw [rounded_eq_self (short_sub_spacingBelow positive small)] at least
    have most := le_sub_spacingBelow positive small (short_rounded nonneg) (rounded_nonneg _) below
    rw [min_eq_left below.le]
    exact le_antisymm most least

end Last

section Machine

variable (visible : extent ≠ 0) (good : isGridUnit unit = true)
include visible good

/-- The first line is at zero. -/
theorem gridLine_zero : gridLine extent unit 0 = 0 := by
  obtain ⟨u, pos, h⟩ := exists_hasValue_unit good
  have first : (0 : Nat).toFloat * unit = 0 := eq_of_exactValue_eq (exactValue_zero_mul pos rfl h)
  have before : (0 : Float) < extent.toNat.toFloat :=
    (lt_iff_of_hasValue hasValue_zero (hasValue_edge extent)).2
      (WithTop.coe_lt_coe.2 (Nat.cast_pos.2 (toNat_pos visible)))
  change Scalar.least ((0 : Nat).toFloat * unit) extent.toNat.toFloat = 0
  rw [first, Scalar.least, if_pos before]

theorem pairwise_gridLines (fits : cellCount extent unit ≤ maxCount) :
    (gridLines extent unit).Pairwise (· ≤ ·) := by
  obtain ⟨u, pos, h⟩ := exists_hasValue_unit good
  rw [gridLines_eq_map visible good, List.pairwise_map]
  refine List.pairwise_lt_range.imp_of_mem fun {i j} hi hj less => ?_
  have first := hasValue_gridLine_of_mem pos h fits hi
  have second := hasValue_gridLine_of_mem pos h fits hj
  exact (le_iff_of_hasValue first second).2 (WithTop.coe_le_coe.2 (lineAt_mono pos less.le))

theorem bounds_of_mem_gridLines (fits : cellCount extent unit ≤ maxCount) {x : Float}
    (member : x ∈ gridLines extent unit) : 0 ≤ x ∧ x ≤ extent.toNat.toFloat := by
  obtain ⟨u, pos, h⟩ := exists_hasValue_unit good
  rw [gridLines_eq_map visible good] at member
  obtain ⟨i, counts, rfl⟩ := List.mem_map.1 member
  have there := hasValue_gridLine_of_mem pos h fits counts
  exact ⟨(le_iff_of_hasValue hasValue_zero there).2 (WithTop.coe_le_coe.2 (lineAt_nonneg i)),
    (le_iff_of_hasValue there (hasValue_edge extent)).2 (WithTop.coe_le_coe.2 (lineAt_le i))⟩

end Machine

/-- A line is at the end of the axis if its value is. -/
theorem gridLine_eq_edge_iff (visible : extent ≠ 0) (pos : 0 < u)
    (h : HasValue (exactValue unit) u) {i : Nat} (fits : i ≤ maxCount) :
    gridLine extent unit i = extent.toNat.toFloat ↔ lineAt extent u i = extent.toNat := by
  have there : HasValue (exactValue (gridLine extent unit i)) (lineAt extent u i) :=
    hasValue_gridLine pos h fits
  constructor
  · intro same
    rw [← value_eq_of_hasValue there, same, value_eq_of_hasValue (hasValue_edge extent)]
  · intro same
    rw [same] at there
    exact eq_of_hasValue (Nat.cast_pos.2 (toNat_pos visible)) there (hasValue_edge extent)

/-- The end of the axis, normalised. -/
theorem edge_div_edge (visible : extent ≠ 0) :
    extent.toNat.toFloat / extent.toNat.toFloat = (1 : Nat).toFloat := by
  have positive : (0 : ℚ) < extent.toNat := Nat.cast_pos.2 (toNat_pos visible)
  have quotient := hasValue_div positive positive (hasValue_edge extent) (hasValue_edge extent)
  have one : stored 1 = (1 : ℚ) := by exact_mod_cast stored_of_lt (n := 1) (by norm_num)
  rw [div_self positive.ne', one] at quotient
  exact eq_of_hasValue one_pos quotient (one ▸ by exact_mod_cast hasValue_toFloat 1)

theorem normalX_edge {canvas : Canvas} (visible : canvas.width ≠ 0) :
    canvas.normalX canvas.width.toNat.toFloat = 1 := by
  change canvas.width.toNat.toFloat / canvas.width.toNat.toFloat * (2 : Nat).toFloat -
    (1 : Nat).toFloat = 1
  rw [edge_div_edge visible]
  decide +kernel

theorem normalY_edge {canvas : Canvas} (visible : canvas.height ≠ 0) :
    canvas.normalY canvas.height.toNat.toFloat = -1 := by
  change (1 : Nat).toFloat - canvas.height.toNat.toFloat / canvas.height.toNat.toFloat *
    (2 : Nat).toFloat = -1
  rw [edge_div_edge visible]
  decide +kernel

/-- With machine numbers the lines of an axis never go down, begin at zero and stay on the axis, and
there is one more than the rounded quotient of the extent and the unit, rounded up. The last is at the
end of the axis exactly if the cells, multiplied without rounding, are too short for the axis by no more
than half the spacing of the numbers before its end. Otherwise the quotient was rounded down to a whole
number, and the line is at the number before the end. A last line at the end is at the side of the
normalised square. -/
theorem gridLines_toward_edge (extent : UInt32) (unit : Float) (visible : extent ≠ 0)
    (good : isGridUnit unit = true) (fits : cellCount extent unit < maxCount) :
    let lines := gridLines extent unit
    let edge : Float := extent.toNat.toFloat
    let cells : ℕ := ⌈value (edge / unit)⌉₊
    let lacking : ℚ := extent.toNat - cells * value unit
    let spacing : ℚ := spacingBelow extent.toNat
    lines.Pairwise (· ≤ ·) ∧ lines.head? = some 0 ∧ (∀ x ∈ lines, 0 ≤ x ∧ x ≤ edge) ∧
      lines.length = cells + 1 ∧ (lines.getLast? = some edge ↔ lacking ≤ spacing / 2) ∧
      (spacing / 2 < lacking →
        value (edge / unit) = cells ∧ lines.getLast?.map value = some (extent.toNat - spacing)) ∧
      ∀ canvas : Canvas, lacking ≤ spacing / 2 →
        (canvas.width = extent → (Grid.ofCanvas canvas unit).xs.getLast? = some 1) ∧
        (canvas.height = extent → (Grid.ofCanvas canvas unit).ys.getLast? = some (-1)) := by
  intro lines edge cells lacking spacing
  obtain ⟨u, pos, h⟩ := exists_hasValue_unit good
  obtain ⟨quotient, counted⟩ := quotient_of_cellCount_lt visible pos h fits
  have unitValue : value unit = u := value_eq_of_hasValue h
  have number : cellCount extent unit = cells := by
    rw [counted, ← value_eq_of_hasValue quotient]
  have rounded : cells = ⌈rounded (extent.toNat / u)⌉₊ := number ▸ counted
  have occupied : 1 ≤ cells := number ▸ one_le_cellCount visible good
  have last : lines.getLast? = some (gridLine extent unit cells) :=
    number ▸ getLast?_gridLines visible good
  have place : lineAt extent u cells =
      if lacking ≤ spacing / 2 then (extent.toNat : ℚ) else extent.toNat - spacing := by
    rw [lineAt_last pos rounded visible occupied, ← unitValue]
  have positive : 0 < spacing := spacingBelow_pos _
  have reached : lines.getLast? = some edge ↔ lacking ≤ spacing / 2 := by
    rw [last, Option.some_inj, gridLine_eq_edge_iff visible pos h (number ▸ fits.le), place]
    split_ifs with near
    · exact iff_of_true rfl near
    · exact iff_of_false (by linarith) near
  refine ⟨pairwise_gridLines visible good fits.le, ?first,
    fun x => bounds_of_mem_gridLines visible good fits.le, ?count, reached, ?before, ?normalised⟩
  case first => rw [← gridLine_zero visible good, ← head?_gridLines visible good]
  case count => rw [← number, ← length_gridLines visible good]
  case before =>
    intro far
    have short : cells * u < extent.toNat := by
      rw [← unitValue]
      linarith
    constructor
    · rw [value_eq_of_hasValue quotient]
      exact rounded_div_eq_cells pos rounded short
    · rw [last, Option.map_some, value_eq_of_hasValue (hasValue_gridLine pos h (number ▸ fits.le)),
        place, if_neg far.not_ge]
  case normalised =>
    intro canvas near
    constructor
    · rintro rfl
      rw [Grid.ofCanvas, List.getLast?_map, reached.2 near, Option.map_some, normalX_edge visible]
    · rintro rfl
      rw [Grid.ofCanvas, List.getLast?_map, reached.2 near, Option.map_some, normalY_edge visible]

/-- Ten cells of what is written 0.3 are too short for three pixels, but only by a quarter of the
spacing. -/
theorem gridLines_toward_edge_tenths :
    let lines : List Float := gridLines 3 0.3
    let edge : Float := (3 : UInt32).toNat.toFloat
    (3 : UInt32) ≠ 0 ∧ isGridUnit (0.3 : Float) = true ∧ cellCount 3 (0.3 : Float) < maxCount ∧
      3 - 10 * value 0.3 = spacingBelow 3 / 4 ∧
      lines.Pairwise (· ≤ ·) ∧ lines.head? = some 0 ∧ (∀ x ∈ lines, 0 ≤ x ∧ x ≤ edge) ∧
      lines.length = 11 ∧ lines.getLast? = some edge ∧
      (Grid.ofCanvas ⟨3, 2⟩ (0.3 : Float)).xs.getLast? = some 1 := by
  have visible : (3 : UInt32) ≠ 0 := by decide
  have good : isGridUnit (0.3 : Float) = true := by decide +kernel
  have fits : cellCount 3 (0.3 : Float) < maxCount := by decide +kernel
  have near : ((3 : UInt32).toNat : ℚ) -
      ⌈value ((3 : UInt32).toNat.toFloat / 0.3)⌉₊ * value 0.3 ≤
        spacingBelow (3 : UInt32).toNat / 2 := by decide +kernel
  have cells : ⌈value ((3 : UInt32).toNat.toFloat / 0.3)⌉₊ = 10 := by decide +kernel
  obtain ⟨increasing, first, within, count, reached, -, normalised⟩ :=
    gridLines_toward_edge 3 0.3 visible good fits
  rw [cells] at count
  exact ⟨visible, good, fits, by decide +kernel, increasing, first, within, count, reached.2 near,
    (normalised ⟨3, 2⟩ near).1 rfl⟩

/-- The quotient of 29 and what is written 1.16 is rounded down to 25, and the last line falls short of
the edge. -/
theorem getLast?_gridLines_lt_edge :
    (29 : UInt32) ≠ 0 ∧ isGridUnit (1.16 : Float) = true ∧ cellCount 29 (1.16 : Float) = 25 ∧
      (gridLines 29 (1.16 : Float)).getLast? = some 28.999999999999996 ∧
      (28.999999999999996 : Float) < (29 : UInt32).toNat.toFloat := by
  decide +kernel

end Lines

end DomainColoring
