import DomainColoring.Proofs.Edit
import DomainColoring.View.Edit

/-!
# Moves of the view are all or nothing

Each operation works the view out in place and yields what its outcome says. Every check of a zoom
about a point, the last of which needs the new pan, comes before the first of the three writes.
-/

namespace DomainColoring.View.Edit

variable {α : Type} [Scalar α]

theorem performs_panBy (d : Point α) : Edit.Performs (panBy d) (·.panBy d) := by
  intro v
  simp only [panBy, View.panBy, EStateM.run_bind, EStateM.run_get]
  split
  · rfl
  · rfl

theorem performs_zoomBy (factor : α) : Edit.Performs (zoomBy factor) (·.zoomBy factor) := by
  intro v
  simp only [zoomBy, View.zoomBy, EStateM.run_bind, EStateM.run_get, Edit.run_ofExcept]
  cases v.zoomedScale factor with
  | error cause => rfl
  | ok scale => rfl

theorem performs_zoomAt (factor : α) (cursor : Point α) :
    Edit.Performs (zoomAt factor cursor) (·.zoomAt factor cursor) := by
  intro v
  simp only [zoomAt, View.zoomAt]
  split
  · rfl
  · simp only [EStateM.run_bind, EStateM.run_get, Edit.run_ofExcept]
    cases v.zoomedScale factor with
    | error cause => rfl
    | ok scale =>
      simp only [bind, Except.bind]
      split
      · rfl
      · rfl

end DomainColoring.View.Edit
