import DomainColoring.Proofs.Scalar.Exact
import DomainColoring.Proofs.View
import Mathlib.Algebra.Order.BigOperators.GroupWithZero.List
import Mathlib.Tactic.FieldSimp
import Mathlib.Tactic.Ring

/-!
# Zooming without rounding

In exact arithmetic every positive factor is accepted. A zoom about a point multiplies the scale and
keeps the number shown there, so zooms about one point multiply, and undo each other
(`foldlM_zoomAtPixel`). A plain zoom keeps the pan, which is counted in pixels: it is the zoom about the
point that shows the number zero, and moves the centre of the canvas unless that is the point
(`zoomBy_eq_zoomAt_center_iff`).
-/

namespace DomainColoring

namespace Canvas

variable {c : Canvas}

/-- The normalised position of a pixel. -/
def normal (c : Canvas) (pixel : Point ℚ) : Point ℚ := ⟨c.normalX pixel.x, c.normalY pixel.y⟩

theorem sides_ne_zero (visible : c.isEmpty = false) :
    (c.width.toNat : ℚ) ≠ 0 ∧ (c.height.toNat : ℚ) ≠ 0 := by
  obtain ⟨width, height⟩ : c.width ≠ 0 ∧ c.height ≠ 0 := by simpa [isEmpty] using visible
  exact ⟨Nat.cast_ne_zero.2 fun h => width (UInt32.toNat_inj.1 h),
    Nat.cast_ne_zero.2 fun h => height (UInt32.toNat_inj.1 h)⟩

theorem normal_eq (c : Canvas) (pixel : Point ℚ) :
    c.normal pixel =
      ⟨2 * pixel.x / c.width.toNat - 1, 1 - 2 * pixel.y / c.height.toNat⟩ := by
  simp only [normal, normalX, normalY, Scalar.ofNat_rat]
  congr 1 <;> push_cast <;> ring

/-- Normalised positions are offsets from the centre in units of half a canvas. -/
theorem normal_mul_half (visible : c.isEmpty = false) (pixel : Point ℚ) :
    (⟨(c.normal pixel).x * c.half.x, (c.normal pixel).y * c.half.y⟩ : Point ℚ) =
      c.centerOffset pixel := by
  obtain ⟨width, height⟩ := sides_ne_zero visible
  simp only [normal_eq, half, centerOffset, Scalar.ofNat_rat]
  congr 1 <;> field_simp <;> ring

end Canvas

namespace View

variable {v : View ℚ} {factor : ℚ}

/-- The number shown at an offset from the centre. -/
def numberAt (v : View ℚ) (cursor : Point ℚ) : Complex ℚ :=
  ⟨(cursor.x + v.pan.x) * v.scale, (cursor.y + v.pan.y) * v.scale⟩

theorem toComplex_normal {canvas : Canvas} (visible : canvas.isEmpty = false) (v : View ℚ)
    (pixel : Point ℚ) :
    v.toComplex canvas (canvas.normal pixel) = v.numberAt (canvas.centerOffset pixel) := by
  rw [← Canvas.normal_mul_half visible pixel]
  rfl

theorem toComplex_center (v : View ℚ) (canvas : Canvas) :
    v.toComplex canvas ⟨0, 0⟩ = v.numberAt ⟨0, 0⟩ := by
  simp only [toComplex, numberAt, zero_mul]

/-- The view after a zoom about a point. -/
def zoomedAt (v : View ℚ) (factor : ℚ) (cursor : Point ℚ) : View ℚ :=
  ⟨v.anchoredPan factor cursor, v.scale * factor⟩

section Accepted

theorem zoomedScale_of_pos (scaled : 0 < v.scale) (positive : 0 < factor) :
    v.zoomedScale factor = .ok (v.scale * factor) :=
  zoomedScale_eq_ok (Scalar.isFinite_rat factor) (not_le.2 positive)
    ((Scalar.isScale_rat _).2 (mul_pos scaled positive))

theorem zoomAt_of_pos (scaled : 0 < v.scale) (positive : 0 < factor) (cursor : Point ℚ) :
    v.zoomAt factor cursor = .ok (v.zoomedAt factor cursor) :=
  zoomAt_of_zoomedScale rfl (zoomedScale_of_pos scaled positive)

theorem zoomBy_of_pos (scaled : 0 < v.scale) (positive : 0 < factor) :
    v.zoomBy factor = .ok { v with scale := v.scale * factor } := by
  simp only [zoomBy, zoomedScale_of_pos scaled positive, bind, Except.bind]

/-- Only positive factors and scales are accepted. -/
theorem pos_of_zoomBy {w : View ℚ} (h : v.zoomBy factor = .ok w) : 0 < v.scale ∧ 0 < factor := by
  obtain ⟨scale, zoomed, -⟩ := exists_of_bind_ok h
  have inRange := isScale_of_zoomedScale zoomed
  unfold zoomedScale at zoomed
  dsimp only at zoomed
  split at zoomed
  · cases zoomed
  · next refused =>
    have positive : 0 < factor := by simpa using refused
    split at zoomed
    · cases zoomed
    · cases zoomed
      -- the accepted scale is the old one times a positive factor
      exact ⟨pos_of_mul_pos_left ((Scalar.isScale_rat _).1 inRange) positive.le, positive⟩

end Accepted

section Anchored

variable {f g : ℚ} (cursor : Point ℚ)

theorem zoomedAt_one (v : View ℚ) : v.zoomedAt 1 cursor = v := by
  simp only [zoomedAt, anchoredPan, div_one, mul_one, add_sub_cancel_left]

/-- The number at the point of a zoom stays. -/
theorem numberAt_zoomedAt (v : View ℚ) (hf : f ≠ 0) :
    (v.zoomedAt f cursor).numberAt cursor = v.numberAt cursor := by
  simp only [numberAt, zoomedAt, anchoredPan]
  congr 1 <;> field_simp <;> ring

/-- Zooms about one point multiply. -/
theorem zoomedAt_zoomedAt (v : View ℚ) (hf : f ≠ 0) (hg : g ≠ 0) :
    (v.zoomedAt f cursor).zoomedAt g cursor = v.zoomedAt (f * g) cursor := by
  simp only [zoomedAt, anchoredPan]
  congr 1
  · congr 1 <;> field_simp <;> ring
  · ring

/-- A run of zooms about one point is one zoom. -/
theorem foldlM_zoomAt (v : View ℚ) (scaled : 0 < v.scale) {factors : List ℚ}
    (positive : ∀ f ∈ factors, 0 < f) :
    factors.foldlM (fun v f => v.zoomAt f cursor) v =
      (.ok (v.zoomedAt factors.prod cursor) : Except (InputError ℚ) (View ℚ)) := by
  induction factors generalizing v with
  | nil => rw [List.prod_nil, zoomedAt_one]; rfl
  | cons f factors ih =>
    have first : 0 < f := positive f List.mem_cons_self
    have others : ∀ g ∈ factors, 0 < g := fun g hg => positive g (List.mem_cons_of_mem f hg)
    -- the run goes on from a view that is itself one zoom away from the start
    have rest := ih (v.zoomedAt f cursor) (mul_pos scaled first) others
    rw [zoomedAt_zoomedAt cursor v first.ne' (List.prod_pos others).ne'] at rest
    rw [List.foldlM_cons, zoomAt_of_pos scaled first, List.prod_cons]
    exact rest

/-- The reciprocal factor takes a zoom back. -/
theorem zoomAt_reciprocal (v : View ℚ) (scaled : 0 < v.scale) (hf : 0 < f) :
    (do let u ← v.zoomAt f cursor; u.zoomAt (1 / f) cursor) = .ok v := by
  have back : (v.zoomedAt f cursor).zoomAt (1 / f) cursor = .ok v := by
    rw [zoomAt_of_pos (mul_pos scaled hf) (one_div_pos.2 hf),
      zoomedAt_zoomedAt cursor v hf.ne' (one_div_pos.2 hf).ne', mul_one_div_cancel hf.ne',
      zoomedAt_one]
  rw [zoomAt_of_pos scaled hf]
  exact back

end Anchored

/-- Zooms about a pixel of a visible canvas, one after the other, are accepted and keep the number
that the pixel shows; they are the one zoom by the product of their factors, and a zoom is undone by
that with the reciprocal. -/
theorem foldlM_zoomAtPixel {canvas : Canvas} (visible : canvas.isEmpty = false) {v : View ℚ}
    (valid : v.Valid) (pixel : Point ℚ) {factors : List ℚ} (positive : ∀ f ∈ factors, 0 < f) :
    let shown : Point ℚ := ⟨canvas.normalX pixel.x, canvas.normalY pixel.y⟩
    shown = ⟨2 * pixel.x / canvas.width.toNat - 1, 1 - 2 * pixel.y / canvas.height.toNat⟩ ∧
      (∃ w, factors.foldlM (fun v f => v.zoomAtPixel canvas f pixel) v = .ok w ∧
        w.toComplex canvas shown = v.toComplex canvas shown ∧
        v.zoomAtPixel canvas factors.prod pixel = .ok w) ∧
      ∀ f, 0 < f → (do
        let u ← v.zoomAtPixel canvas f pixel
        u.zoomAtPixel canvas (1 / f) pixel) = .ok v := by
  intro shown
  have same : shown = canvas.normal pixel := rfl
  let cursor : Point ℚ := canvas.centerOffset pixel
  have scaled : 0 < v.scale := (Scalar.isScale_rat _).1 valid.scale
  have product : 0 < factors.prod := List.prod_pos positive
  refine ⟨canvas.normal_eq pixel, ⟨v.zoomedAt factors.prod cursor, ?run, ?number, ?once⟩, ?undone⟩
  case run => exact foldlM_zoomAt cursor v scaled positive
  case number =>
    rw [same, toComplex_normal visible, toComplex_normal visible]
    exact numberAt_zoomedAt cursor v product.ne'
  case once => exact zoomAt_of_pos scaled product cursor
  case undone => exact fun f hf => zoomAt_reciprocal cursor v scaled hf

/-- A wheel turned to and fro over a pixel off the centre. -/
theorem foldlM_zoomAtPixel_toAndFro :
    let v : View ℚ := ⟨⟨20, -10⟩, 1 / 100⟩
    let canvas : Canvas := ⟨40, 30⟩
    let pixel : Point ℚ := ⟨30, 5⟩
    let factors : List ℚ := [1 / 2, 3, 4 / 5]
    (canvas.isEmpty = false ∧ v.Valid ∧ ∀ f ∈ factors, 0 < f) ∧
      ∃ w, factors.foldlM (fun v f => v.zoomAtPixel canvas f pixel) v = .ok w ∧
        w.toComplex canvas ⟨1 / 2, 2 / 3⟩ = v.toComplex canvas ⟨1 / 2, 2 / 3⟩ := by
  intro v canvas pixel factors
  have visible : canvas.isEmpty = false := rfl
  have valid : v.Valid := ⟨rfl, by decide +kernel⟩
  have positive : ∀ f ∈ factors, 0 < f := by decide +kernel
  obtain ⟨place, ⟨w, run, number, -⟩, -⟩ := foldlM_zoomAtPixel visible valid pixel positive
  have here : (⟨2 * pixel.x / canvas.width.toNat - 1, 1 - 2 * pixel.y / canvas.height.toNat⟩ :
      Point ℚ) = ⟨1 / 2, 2 / 3⟩ := by decide +kernel
  rw [place, here] at number
  exact ⟨⟨visible, valid, positive⟩, w, run, number⟩

section Plain

theorem pan_eq_zero_iff (v : View ℚ) : v.pan = ⟨0, 0⟩ ↔ v.pan.x = 0 ∧ v.pan.y = 0 := by
  cases v.pan
  simp only [Point.mk.injEq]

/-- A plain zoom multiplies the number at the centre. -/
theorem numberAt_center_eq_iff {v : View ℚ} {factor : ℚ} (scaled : 0 < v.scale) :
    ({ v with scale := v.scale * factor } : View ℚ).numberAt ⟨0, 0⟩ = v.numberAt ⟨0, 0⟩ ↔
      factor = 1 ∨ v.pan = ⟨0, 0⟩ := by
  have kept (x : ℚ) : (0 + x) * (v.scale * factor) = (0 + x) * v.scale ↔ factor = 1 ∨ x = 0 := by
    rw [zero_add, ← mul_assoc, mul_right_eq_self₀, mul_eq_zero, or_iff_left scaled.ne']
  simp only [numberAt, Complex.mk.injEq, kept, pan_eq_zero_iff, or_and_left]

/-- A plain zoom keeps the pan, and a zoom about the centre divides it. -/
theorem eq_zoomedAt_center_iff {v : View ℚ} {factor : ℚ} (positive : 0 < factor) :
    { v with scale := v.scale * factor } = v.zoomedAt factor ⟨0, 0⟩ ↔
      factor = 1 ∨ v.pan = ⟨0, 0⟩ := by
  -- one coordinate of the pan, with the cursor at zero
  have kept (x : ℚ) : x = (0 + x) / factor - 0 ↔ factor = 1 ∨ x = 0 := by
    rw [zero_add, sub_zero, eq_div_iff positive.ne', mul_right_eq_self₀]
  rw [pan_eq_zero_iff, or_and_left, ← kept, ← kept]
  cases v with
  | mk pan scale =>
    cases pan
    simp only [zoomedAt, anchoredPan, View.mk.injEq, Point.mk.injEq, and_true]

/-- A plain zoom is the zoom about the centre of the canvas, and leaves the number shown there, only
for the factor one or without a pan. What it does is to zoom about the point that shows zero. -/
theorem zoomBy_eq_zoomAt_center_iff {v a b : View ℚ} {factor : ℚ} (plain : v.zoomBy factor = .ok a)
    (centred : v.zoomAt factor ⟨0, 0⟩ = .ok b) :
    (a = b ↔ factor = 1 ∨ v.pan = ⟨0, 0⟩) ∧
      (∀ canvas : Canvas, a.toComplex canvas ⟨0, 0⟩ = v.toComplex canvas ⟨0, 0⟩ ↔
        factor = 1 ∨ v.pan = ⟨0, 0⟩) ∧
      v.zoomAt factor ⟨-v.pan.x, -v.pan.y⟩ = .ok a := by
  obtain ⟨scaled, positive⟩ := pos_of_zoomBy plain
  rw [zoomBy_of_pos scaled positive] at plain
  rw [zoomAt_of_pos scaled positive] at centred
  cases plain
  cases centred
  refine ⟨eq_zoomedAt_center_iff positive, fun canvas => ?number, ?zero⟩
  case number =>
    rw [toComplex_center, toComplex_center]
    exact numberAt_center_eq_iff scaled
  case zero =>
    rw [zoomAt_of_pos scaled positive]
    simp only [zoomedAt, anchoredPan, neg_add_cancel, zero_div, zero_sub, neg_neg]

theorem zoomBy_eq_zoomAt_center_iff_panned :
    let v : View ℚ := ⟨⟨100, -50⟩, 1 / 100⟩
    ∃ a b, (v.zoomBy 2 = .ok a ∧ v.zoomAt 2 ⟨0, 0⟩ = .ok b) ∧
      (a = b ↔ (2 : ℚ) = 1 ∨ v.pan = ⟨0, 0⟩) ∧ v.zoomAt 2 ⟨-100, 50⟩ = .ok a := by
  intro v
  have scaled : 0 < v.scale := by decide +kernel
  have plain := zoomBy_of_pos scaled two_pos
  have centred := zoomAt_of_pos scaled two_pos ⟨0, 0⟩
  obtain ⟨same, -, zero⟩ := zoomBy_eq_zoomAt_center_iff plain centred
  exact ⟨_, _, ⟨plain, centred⟩, same, zero⟩

/-- After a drag the two zooms about the centre differ, and the plain one moves the centre. -/
theorem zoomBy_ne_zoomAt_center_dragged :
    let start : View ℚ := ⟨⟨0, 0⟩, 1 / 100⟩
    let canvas : Canvas := ⟨40, 30⟩
    ∃ v a b, start.panBy ⟨100, -50⟩ = .ok v ∧ v.zoomBy 2 = .ok a ∧ v.zoomAt 2 ⟨0, 0⟩ = .ok b ∧
      a ≠ b ∧ a.toComplex canvas ⟨0, 0⟩ ≠ v.toComplex canvas ⟨0, 0⟩ := by
  intro start canvas
  have scaled : (0 : ℚ) < 1 / 100 := by decide +kernel
  refine ⟨⟨⟨0 + 100, 0 + -50⟩, 1 / 100⟩, _, _, rfl, zoomBy_of_pos scaled two_pos,
    zoomAt_of_pos scaled two_pos ⟨0, 0⟩, ?_, ?_⟩
  · decide +kernel
  · decide +kernel

end Plain

end View

end DomainColoring
