import DomainColoring.Proofs.Success
import DomainColoring.View

/-!
# Views that can be drawn

A view is valid if its pan is finite and its scale has a finite reciprocal. No operation on views
trusts its input: each of them checks what it is about to return, so validity needs no arithmetic.
-/

namespace DomainColoring.View

variable {α : Type} [Scalar α] {v w : View α}

structure Valid (v : View α) : Prop where
  pan : v.pan.isFinite = true
  scale : Scalar.isScale v.scale = true

/-- A view is made of nothing but a finite pan and a scale. -/
theorem valid_of_make {pan : Point α} {scale : α} (h : make pan scale = .ok v) : v.Valid := by
  unfold make at h
  split at h
  · cases h
  split at h
  · cases h
  · next finite inRange =>
    cases h
    exact ⟨by simpa using finite, by simpa using inRange⟩

theorem isScale_of_zoomedScale {factor scale : α} (h : v.zoomedScale factor = .ok scale) :
    Scalar.isScale scale = true := by
  unfold zoomedScale at h
  dsimp only at h
  split at h
  · cases h
  split at h
  · cases h
  · next inRange =>
    cases h
    simpa using inRange

theorem zoomedScale_eq_ok {factor : α} (finite : Scalar.isFinite factor = true)
    (positive : ¬factor ≤ Scalar.ofNat 0) (inRange : Scalar.isScale (v.scale * factor) = true) :
    v.zoomedScale factor = .ok (v.scale * factor) := by
  unfold zoomedScale
  rw [if_neg (by simp [finite, positive])]
  exact if_neg (by simp [inRange])

/-- Once the scale of a zoom about a point is accepted, the new pan decides. -/
theorem zoomAt_of_zoomedScale {factor scale : α} {cursor : Point α} (finite : cursor.isFinite = true)
    (zoomed : v.zoomedScale factor = .ok scale) :
    v.zoomAt factor cursor =
      if (v.anchoredPan factor cursor).isFinite then .ok ⟨v.anchoredPan factor cursor, scale⟩
      else .error (.nonFiniteOffset (v.anchoredPan factor cursor)) := by
  unfold View.zoomAt
  rw [if_neg (by simp [finite]), zoomed]
  cases inRange : (v.anchoredPan factor cursor).isFinite <;> simp [bind, Except.bind, inRange]

theorem Valid.panBy {d : Point α} (valid : v.Valid) (h : v.panBy d = .ok w) : w.Valid := by
  unfold View.panBy at h
  dsimp only at h
  split at h
  · cases h
  · next finite =>
    cases h
    exact ⟨by simpa using finite, valid.scale⟩

theorem Valid.zoomBy {factor : α} (valid : v.Valid) (h : v.zoomBy factor = .ok w) : w.Valid := by
  obtain ⟨scale, zoomed, ok⟩ := exists_of_bind_ok h
  cases ok
  exact ⟨valid.pan, isScale_of_zoomedScale zoomed⟩

/-- A zoom about a point replaces both parts, so it makes any view valid. -/
theorem valid_of_zoomAt {factor : α} {cursor : Point α} (h : v.zoomAt factor cursor = .ok w) :
    w.Valid := by
  unfold View.zoomAt at h
  split at h
  · cases h
  · obtain ⟨scale, zoomed, h⟩ := exists_of_bind_ok h
    dsimp only at h
    split at h
    · cases h
    · next finite =>
      cases h
      exact ⟨by simpa using finite, isScale_of_zoomedScale zoomed⟩

theorem valid_of_zoomAtPixel {canvas : Canvas} {factor : α} {pixel : Point α}
    (h : v.zoomAtPixel canvas factor pixel = .ok w) : w.Valid :=
  valid_of_zoomAt h

theorem standard_valid : standard.Valid where
  pan := by decide +kernel
  scale := by decide +kernel

end DomainColoring.View
