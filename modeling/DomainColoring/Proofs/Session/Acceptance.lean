import DomainColoring.Proofs.Grid.Monotone
import DomainColoring.Proofs.Session.Budget

/-!
# Which canvases are accepted

A canvas is accepted, at the start of a session or later, exactly if its planned count is within the
limit of the preset. So with a canvas every smaller one is accepted, and a higher limit takes none away
(`accepts_of_fitsIn`).
-/

namespace DomainColoring.Session

theorem checkBudget_eq_ok_iff {preset : Preset} {canvas : Canvas} :
    checkBudget preset canvas = .ok () ↔
      plannedVertexCount canvas preset.meshUnit ≤ preset.maxVertices :=
  ⟨within_of_checkBudget, fun within => if_neg (Nat.not_lt.2 within)⟩

theorem exists_open?_iff {preset : Preset} {canvas : Canvas} :
    (∃ s, open? preset canvas = .ok s) ↔
      plannedVertexCount canvas preset.meshUnit ≤ preset.maxVertices := by
  constructor
  · rintro ⟨s, opened⟩
    obtain ⟨_, accepted, -⟩ := exists_of_bind_ok opened
    exact checkBudget_eq_ok_iff.1 accepted
  · exact fun within => ⟨_, open?_of_within within⟩

theorem exists_resize_iff {s : Session} {canvas : Canvas} :
    (∃ t, s.resize canvas = .ok t) ↔
      plannedVertexCount canvas s.preset.meshUnit ≤ s.preset.maxVertices := by
  rw [← checkBudget_eq_ok_iff]
  constructor
  · rintro ⟨t, resized⟩
    obtain ⟨_, accepted, -⟩ := exists_of_bind_ok resized
    exact accepted
  · intro accepted
    exact ⟨{ s with canvas }.marked, by rw [resize, accepted]; rfl⟩

/-- A session of the preset can be started on the canvas, or one that runs can be resized to it. -/
def Accepts (preset : Preset) (canvas : Canvas) : Prop :=
  (∃ s, open? preset canvas = .ok s) ∨ ∃ s : Session, s.preset = preset ∧ ∃ t, s.resize canvas = .ok t

theorem accepts_iff {preset : Preset} {canvas : Canvas} :
    Accepts preset canvas ↔ plannedVertexCount canvas preset.meshUnit ≤ preset.maxVertices := by
  constructor
  · rintro (opened | ⟨s, rfl, resized⟩)
    · exact exists_open?_iff.1 opened
    · exact exists_resize_iff.1 resized
  · exact fun within => .inl (exists_open?_iff.2 within)

/-- The planned count grows with either side of the canvas, whatever the unit, and does not grow with
the unit. So whether a session starts on a canvas or is resized to it: where one is accepted, every
canvas that is no larger is accepted in both ways, also under any higher limit. -/
theorem accepts_of_fitsIn :
    (∀ (c d : Canvas) (unit : Float), c.FitsIn d →
      plannedVertexCount c unit ≤ plannedVertexCount d unit) ∧
    (∀ (canvas : Canvas) (fine coarse : Float), isGridUnit fine = true → isGridUnit coarse = true →
      fine ≤ coarse → plannedVertexCount canvas coarse ≤ plannedVertexCount canvas fine) ∧
    ∀ (preset : Preset) (c d : Canvas) (limit : Nat), c.FitsIn d → preset.maxVertices ≤ limit →
      Accepts preset d →
        (∃ s, open? { preset with maxVertices := limit } c = .ok s) ∧
          ∀ s : Session, s.preset = { preset with maxVertices := limit } →
            ∃ t, s.resize c = .ok t := by
  refine ⟨fun c d unit fits => plannedVertexCount_le_of_fitsIn fits unit,
    fun canvas fine coarse good good' finer => plannedVertexCount_mono .rfl good good' finer, ?_⟩
  intro preset c d limit fits raised accepted
  have within : plannedVertexCount c preset.meshUnit ≤ limit := calc
    plannedVertexCount c preset.meshUnit ≤ plannedVertexCount d preset.meshUnit :=
      plannedVertexCount_le_of_fitsIn fits _
    _ ≤ preset.maxVertices := accepts_iff.1 accepted
    _ ≤ limit := raised
  refine ⟨exists_open?_iff.2 within, fun s same => exists_resize_iff.2 ?_⟩
  rw [same]
  exact within

/-- A session of 40 by 30 pixels could have been started on a canvas with one side less, and can be
resized to it; half the unit needs no fewer vertices. -/
theorem accepts_of_fitsIn_line :
    (⟨39, 0⟩ : Canvas).FitsIn ⟨40, 30⟩ ∧ Accepts .standard ⟨40, 30⟩ ∧
      (2.5 : Float) ≤ 5 ∧
      plannedVertexCount ⟨39, 0⟩ (5 : Float) ≤ plannedVertexCount ⟨40, 30⟩ (5 : Float) ∧
      plannedVertexCount ⟨40, 30⟩ (5 : Float) ≤ plannedVertexCount ⟨40, 30⟩ (2.5 : Float) ∧
      (∃ s, open? .standard ⟨39, 0⟩ = .ok s) ∧ ∃ t, (start .standard ⟨40, 30⟩).resize ⟨39, 0⟩ = .ok t := by
  have fits : (⟨39, 0⟩ : Canvas).FitsIn ⟨40, 30⟩ := by decide
  have finer : (2.5 : Float) ≤ 5 := by decide +kernel
  have accepted : Accepts .standard ⟨40, 30⟩ := accepts_iff.2 (by decide +kernel)
  obtain ⟨larger, coarser, smaller⟩ := accepts_of_fitsIn
  obtain ⟨opens, resizes⟩ := smaller .standard ⟨39, 0⟩ ⟨40, 30⟩ 8000000 fits le_rfl accepted
  exact ⟨fits, accepted, finer, larger _ _ 5 fits,
    coarser ⟨40, 30⟩ 2.5 5 (by decide +kernel) (by decide +kernel) finer, opens, resizes _ rfl⟩

end DomainColoring.Session
