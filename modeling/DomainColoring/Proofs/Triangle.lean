import DomainColoring.Canvas
import Mathlib

/-!
# Triangles

The part of the plane that a triangle covers, the sense in which its corners go round it, and how the
two triangles of a rectangle share it: together they are the rectangle, and only the diagonal belongs
to both.
-/

namespace DomainColoring

/-- A triangle by its corners, in the order in which they are drawn. -/
structure Triangle (α : Type) where
  a : Point α
  b : Point α
  c : Point α
deriving DecidableEq, Repr

namespace Triangle

variable {α β : Type}

def map (f : Point α → Point β) (t : Triangle α) : Triangle β := ⟨f t.a, f t.b, f t.c⟩

/-- Three corners a triangle; what is left over draws nothing. -/
def ofCorners : List (Point α) → List (Triangle α)
  | a :: b :: c :: rest => ⟨a, b, c⟩ :: ofCorners rest
  | _ => []

theorem ofCorners_map (f : Point α → Point β) (corners : List (Point α)) :
    ofCorners (corners.map f) = (ofCorners corners).map (map f) := by
  induction corners using ofCorners.induct with
  | case1 a b c rest ih => exact congrArg (_ :: ·) ih
  | case2 corners short =>
    match corners with
    | [] | [_] | [_, _] => rfl
    | a :: b :: c :: rest => exact absurd rfl (short a b c rest)

theorem ofCorners_append {first : List (Point α)} (whole : 3 ∣ first.length)
    (rest : List (Point α)) : ofCorners (first ++ rest) = ofCorners first ++ ofCorners rest := by
  induction first using ofCorners.induct with
  | case1 a b c more ih =>
    have whole : 3 ∣ more.length + 3 := whole
    exact congrArg (_ :: ·) (ih ((Nat.dvd_add_left (dvd_refl 3)).1 whole))
  | case2 first short =>
    match first with
    | [] => rfl
    | [_] | [_, _] => exact absurd whole (by simp)
    | a :: b :: c :: more => exact absurd rfl (short a b c more)

theorem ofCorners_flatMap {ι : Type} {l : List ι} {f : ι → List (Point α)}
    (whole : ∀ i ∈ l, 3 ∣ (f i).length) :
    ofCorners (l.flatMap f) = l.flatMap fun i => ofCorners (f i) := by
  induction l with
  | nil => rfl
  | cons i l ih =>
    rw [List.flatMap_cons, List.flatMap_cons, ofCorners_append (whole i List.mem_cons_self),
      ih fun j hj => whole j (List.mem_cons_of_mem i hj)]

/-- The area, counted positive if the corners go round counter-clockwise. -/
def area (t : Triangle ℚ) : ℚ :=
  ((t.b.x - t.a.x) * (t.c.y - t.a.y) - (t.b.y - t.a.y) * (t.c.x - t.a.x)) / 2

end Triangle

/-- A point with rational coordinates as a point of the plane. -/
def Point.toReal (p : Point ℚ) : ℝ × ℝ := (p.x, p.y)

/-- The points of the plane that a triangle covers. -/
def Triangle.region (t : Triangle ℚ) : Set (ℝ × ℝ) :=
  convexHull ℝ {t.a.toReal, t.b.toReal, t.c.toReal}

/-- Triangles that go round counter-clockwise, cover a part of the plane and do not overlap. -/
structure Tiles (triangles : List (Triangle ℚ)) (part : Set (ℝ × ℝ)) : Prop where
  area_pos : ∀ t ∈ triangles, 0 < t.area
  disjoint : triangles.Pairwise fun s t => Disjoint (interior s.region) (interior t.region)
  cover : ⋃ t ∈ triangles, t.region = part

section Side

/-- Positive if `p` is to the left of the way from `a` to `b`, zero if it is in line with it. -/
def side (a b p : ℝ × ℝ) : ℝ := (b.1 - a.1) * (p.2 - a.2) - (b.2 - a.2) * (p.1 - a.1)

theorem convex_side (a b : ℝ × ℝ) : Convex ℝ {p | 0 ≤ side a b p} := by
  intro p hp q hq u v hu hv total
  have mixed : side a b (u • p + v • q) = u * side a b p + v * side a b q := by
    obtain rfl : u = 1 - v := by linarith
    simp only [side, Prod.fst_add, Prod.snd_add, Prod.smul_fst, Prod.smul_snd, smul_eq_mul]
    ring
  rw [Set.mem_ofPred_eq, mixed]
  exact add_nonneg (mul_nonneg hu hp) (mul_nonneg hv hq)

variable {a b c p : ℝ × ℝ}

/-- A triangle that goes round counter-clockwise covers what is to the left of its three edges. -/
theorem mem_convexHull_iff_side (positive : 0 < side a b c) :
    p ∈ convexHull ℝ {a, b, c} ↔ 0 ≤ side a b p ∧ 0 ≤ side b c p ∧ 0 ≤ side c a p := by
  have rotated : side b c a = side a b c ∧ side c a b = side a b c := by
    constructor <;> · unfold side; ring
  have degenerate : ∀ q r : ℝ × ℝ, side q r q = 0 ∧ side q r r = 0 := by
    intro q r
    constructor <;> · unfold side; ring
  constructor
  · intro inside
    have convex := (convex_side a b).inter ((convex_side b c).inter (convex_side c a))
    have corners : ({a, b, c} : Set (ℝ × ℝ)) ⊆
        {p | 0 ≤ side a b p} ∩ ({p | 0 ≤ side b c p} ∩ {p | 0 ≤ side c a p}) := by
      rintro q (rfl | rfl | rfl) <;>
        simp [degenerate, rotated, positive.le]
    exact convexHull_min corners convex inside
  · rintro ⟨ab, bc, ca⟩
    -- the weight of a corner is the share of the triangle on the far side of `p`
    let weight : Fin 3 → ℝ := ![side b c p / side a b c, side c a p / side a b c,
      side a b p / side a b c]
    have total : ∑ i, weight i = 1 := by
      have whole : side b c p + side c a p + side a b p = side a b c := by unfold side; ring
      rw [Fin.sum_univ_three]
      change side b c p / _ + side c a p / _ + side a b p / _ = 1
      rw [← add_div, ← add_div, whole, div_self positive.ne']
    have nonneg : ∀ i ∈ Finset.univ, 0 ≤ weight i := by
      intro i _
      fin_cases i
      · exact div_nonneg bc positive.le
      · exact div_nonneg ca positive.le
      · exact div_nonneg ab positive.le
    have corners : ∀ i ∈ Finset.univ, ![a, b, c] i ∈ convexHull ℝ {a, b, c} := by
      intro i _
      apply subset_convexHull
      fin_cases i <;> simp
    have mixed : ∑ i, weight i • ![a, b, c] i = p := by
      rw [Fin.sum_univ_three]
      change (side b c p / _) • a + (side c a p / _) • b + (side a b p / _) • c = p
      ext
      · simp only [Prod.fst_add, Prod.smul_fst, smul_eq_mul]
        field_simp
        unfold side
        ring
      · simp only [Prod.snd_add, Prod.smul_snd, smul_eq_mul]
        field_simp
        unfold side
        ring
    exact mixed ▸ (convex_convexHull ℝ _).sum_mem nonneg total corners

end Side

namespace Triangle

variable {t : Triangle ℚ}

theorem side_toReal (t : Triangle ℚ) : side t.a.toReal t.b.toReal t.c.toReal = 2 * (t.area : ℝ) := by
  simp only [side, Point.toReal, area]
  push_cast
  ring

theorem mem_region_iff_side (positive : 0 < t.area) {p : ℝ × ℝ} :
    p ∈ t.region ↔ 0 ≤ side t.a.toReal t.b.toReal p ∧ 0 ≤ side t.b.toReal t.c.toReal p ∧
      0 ≤ side t.c.toReal t.a.toReal p := by
  refine mem_convexHull_iff_side ?_
  rw [side_toReal]
  exact mul_pos two_pos (Rat.cast_pos.2 positive)

end Triangle

/-- A rectangle with sides along the axes. -/
structure Rectangle where
  left : ℚ
  right : ℚ
  bottom : ℚ
  top : ℚ
  left_lt_right : left < right
  bottom_lt_top : bottom < top

namespace Rectangle

variable (r : Rectangle)

/-- The points of the plane that a rectangle covers. -/
def region : Set (ℝ × ℝ) := Set.Icc (r.left : ℝ) r.right ×ˢ Set.Icc (r.bottom : ℝ) r.top

/-- The half above the diagonal from the upper right to the lower left corner. -/
def upper : Triangle ℚ := ⟨⟨r.left, r.top⟩, ⟨r.left, r.bottom⟩, ⟨r.right, r.top⟩⟩

/-- The half below the diagonal. -/
def lower : Triangle ℚ := ⟨⟨r.right, r.top⟩, ⟨r.left, r.bottom⟩, ⟨r.right, r.bottom⟩⟩

theorem area_upper : r.upper.area = (r.right - r.left) * (r.top - r.bottom) / 2 := by
  simp only [upper, Triangle.area]
  ring

theorem area_lower : r.lower.area = (r.right - r.left) * (r.top - r.bottom) / 2 := by
  simp only [lower, Triangle.area]
  ring

theorem half_area_pos : 0 < (r.right - r.left) * (r.top - r.bottom) / 2 :=
  half_pos (mul_pos (sub_pos.2 r.left_lt_right) (sub_pos.2 r.bottom_lt_top))

theorem area_upper_pos : 0 < r.upper.area := r.area_upper ▸ r.half_area_pos

theorem area_lower_pos : 0 < r.lower.area := r.area_lower ▸ r.half_area_pos

theorem left_lt_right_real : (r.left : ℝ) < r.right := Rat.cast_lt.2 r.left_lt_right

theorem bottom_lt_top_real : (r.bottom : ℝ) < r.top := Rat.cast_lt.2 r.bottom_lt_top

variable {r} {p : ℝ × ℝ}

theorem mem_region_upper : p ∈ r.upper.region ↔
    r.left ≤ p.1 ∧ p.2 ≤ r.top ∧
      (r.top - r.bottom : ℝ) * (p.1 - r.left) ≤ (r.right - r.left) * (p.2 - r.bottom) := by
  have wide := sub_pos.2 r.left_lt_right_real
  have high := sub_pos.2 r.bottom_lt_top_real
  have leftEdge : side r.upper.a.toReal r.upper.b.toReal p =
      (r.top - r.bottom : ℝ) * (p.1 - r.left) := by
    simp only [side, upper, Point.toReal]
    ring
  have diagonal : side r.upper.b.toReal r.upper.c.toReal p =
      (r.right - r.left : ℝ) * (p.2 - r.bottom) - (r.top - r.bottom) * (p.1 - r.left) := rfl
  have topEdge : side r.upper.c.toReal r.upper.a.toReal p =
      (r.right - r.left : ℝ) * (r.top - p.2) := by
    simp only [side, upper, Point.toReal]
    ring
  rw [Triangle.mem_region_iff_side r.area_upper_pos, leftEdge, diagonal, topEdge,
    mul_nonneg_iff_of_pos_left high, mul_nonneg_iff_of_pos_left wide, sub_nonneg, sub_nonneg,
    sub_nonneg]
  tauto

theorem mem_region_lower : p ∈ r.lower.region ↔
    p.1 ≤ r.right ∧ r.bottom ≤ p.2 ∧
      (r.right - r.left : ℝ) * (p.2 - r.bottom) ≤ (r.top - r.bottom) * (p.1 - r.left) := by
  have wide := sub_pos.2 r.left_lt_right_real
  have high := sub_pos.2 r.bottom_lt_top_real
  have diagonal : side r.lower.a.toReal r.lower.b.toReal p =
      (r.top - r.bottom : ℝ) * (p.1 - r.left) - (r.right - r.left) * (p.2 - r.bottom) := by
    simp only [side, lower, Point.toReal]
    ring
  have bottomEdge : side r.lower.b.toReal r.lower.c.toReal p =
      (r.right - r.left : ℝ) * (p.2 - r.bottom) := by
    simp only [side, lower, Point.toReal]
    ring
  have rightEdge : side r.lower.c.toReal r.lower.a.toReal p =
      (r.top - r.bottom : ℝ) * (r.right - p.1) := by
    simp only [side, lower, Point.toReal]
    ring
  rw [Triangle.mem_region_iff_side r.area_lower_pos, diagonal, bottomEdge, rightEdge,
    mul_nonneg_iff_of_pos_left high, mul_nonneg_iff_of_pos_left wide, sub_nonneg, sub_nonneg,
    sub_nonneg]
  tauto

theorem mem_region : p ∈ r.region ↔
    (r.left ≤ p.1 ∧ p.1 ≤ r.right) ∧ (r.bottom ≤ p.2 ∧ p.2 ≤ r.top) := Iff.rfl

theorem region_upper_subset : r.upper.region ⊆ r.region := by
  intro p inside
  have wide := sub_pos.2 r.left_lt_right_real
  have high := sub_pos.2 r.bottom_lt_top_real
  obtain ⟨left, top, above⟩ := mem_region_upper.1 inside
  refine mem_region.2 ⟨⟨left, ?_⟩, ?_, top⟩
  · nlinarith only [wide, high, top, above]
  · nlinarith only [wide, high, left, above]

theorem region_lower_subset : r.lower.region ⊆ r.region := by
  intro p inside
  have wide := sub_pos.2 r.left_lt_right_real
  have high := sub_pos.2 r.bottom_lt_top_real
  obtain ⟨right, bottom, below⟩ := mem_region_lower.1 inside
  refine mem_region.2 ⟨⟨?_, right⟩, bottom, ?_⟩
  · nlinarith only [wide, high, bottom, below]
  · nlinarith only [wide, high, right, below]

variable (r)

/-- The two halves are the whole. -/
theorem region_upper_union_lower : r.upper.region ∪ r.lower.region = r.region := by
  apply Set.Subset.antisymm (Set.union_subset region_upper_subset region_lower_subset)
  rintro p ⟨⟨left, right⟩, bottom, top⟩
  rcases le_total ((r.top - r.bottom : ℝ) * (p.1 - r.left))
    ((r.right - r.left) * (p.2 - r.bottom)) with above | below
  · exact .inl (mem_region_upper.2 ⟨left, top, above⟩)
  · exact .inr (mem_region_lower.2 ⟨right, bottom, below⟩)

/-- The halves meet in the diagonal, and no part of that is open. -/
theorem disjoint_interior_upper_lower :
    Disjoint (interior r.upper.region) (interior r.lower.region) := by
  rw [Set.disjoint_iff_inter_eq_empty, ← interior_inter, Set.eq_empty_iff_forall_notMem]
  intro p inside
  have wide := sub_pos.2 r.left_lt_right_real
  -- straight up from `p` only `p` itself is on the diagonal
  have upright : (interior (r.upper.region ∩ r.lower.region)).preimage (fun t => (p.1, t)) ⊆
      {p.2} := by
    intro t ht
    have onDiagonal : ∀ q ∈ r.upper.region ∩ r.lower.region,
        (r.right - r.left : ℝ) * (q.2 - r.bottom) = (r.top - r.bottom) * (q.1 - r.left) :=
      fun q hq => le_antisymm (mem_region_lower.1 hq.2).2.2 (mem_region_upper.1 hq.1).2.2
    have same := (onDiagonal _ (interior_subset ht)).trans (onDiagonal _ (interior_subset inside)).symm
    exact sub_left_injective (mul_left_cancel₀ wide.ne' same)
  have openLine :
      IsOpen ((interior (r.upper.region ∩ r.lower.region)).preimage fun t => (p.1, t)) :=
    isOpen_interior.preimage (by fun_prop)
  have some : p.2 ∈ interior {p.2} := mem_interior.2 ⟨_, upright, openLine, inside⟩
  rwa [interior_singleton] at some

/-- The two triangles of a rectangle. -/
def halves : List (Triangle ℚ) := [r.upper, r.lower]

variable {r} {s : Rectangle} {t u : Triangle ℚ}

theorem area_pos_of_mem_halves (ht : t ∈ r.halves) : 0 < t.area := by
  rcases List.mem_pair.1 ht with rfl | rfl
  · exact r.area_upper_pos
  · exact r.area_lower_pos

theorem region_subset_of_mem_halves (ht : t ∈ r.halves) : t.region ⊆ r.region := by
  rcases List.mem_pair.1 ht with rfl | rfl
  · exact region_upper_subset
  · exact region_lower_subset

theorem interior_subset_of_mem_halves (ht : t ∈ r.halves) :
    interior t.region ⊆ Set.Ioo (r.left : ℝ) r.right ×ˢ Set.Ioo (r.bottom : ℝ) r.top := by
  have inside := interior_mono (region_subset_of_mem_halves ht)
  rwa [region, interior_prod_eq, interior_Icc, interior_Icc] at inside

/-- Triangles of rectangles side by side do not overlap. -/
theorem disjoint_of_right_le_left (ht : t ∈ r.halves) (hu : u ∈ s.halves)
    (beside : r.right ≤ s.left) : Disjoint (interior t.region) (interior u.region) := by
  refine Set.disjoint_left.2 fun p hp hq => ?_
  have leftOf := (interior_subset_of_mem_halves ht hp).1.2
  have rightOf := (interior_subset_of_mem_halves hu hq).1.1
  exact absurd (leftOf.trans_le (Rat.cast_le.2 beside)) rightOf.not_gt

/-- Triangles of rectangles one below the other do not overlap. -/
theorem disjoint_of_top_le_bottom (ht : t ∈ r.halves) (hu : u ∈ s.halves)
    (below : s.top ≤ r.bottom) : Disjoint (interior t.region) (interior u.region) := by
  refine Set.disjoint_left.2 fun p hp hq => ?_
  have above := (interior_subset_of_mem_halves ht hp).2.1
  have under := (interior_subset_of_mem_halves hu hq).2.2
  exact absurd (under.trans_le (Rat.cast_le.2 below)) above.not_gt

theorem exists_mem_halves {p : ℝ × ℝ} (inside : p ∈ r.region) : ∃ t ∈ r.halves, p ∈ t.region := by
  rw [← r.region_upper_union_lower] at inside
  rcases inside with upper | lower
  · exact ⟨_, List.mem_cons_self, upper⟩
  · exact ⟨_, List.mem_cons_of_mem _ List.mem_cons_self, lower⟩

theorem sum_area_halves (r : Rectangle) :
    (r.halves.map Triangle.area).sum = (r.right - r.left) * (r.top - r.bottom) := by
  rw [halves, List.map_cons, List.map_singleton, List.sum_pair, area_upper, area_lower, add_halves]

end Rectangle

end DomainColoring
