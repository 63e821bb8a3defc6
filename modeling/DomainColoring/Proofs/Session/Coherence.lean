import DomainColoring.Proofs.Session.History

/-!
# Coherence of the mesh

A session that is not dirty shows the picture of what it is now. The mesh is built from five things,
each of which a change may replace; what makes the two agree is that every change asks for a rebuild
and every rebuild takes all five as they are (`Coherent.move`).
-/

namespace DomainColoring.Session

/-- If no rebuild is due, the mesh is the present picture and the figures are those of the mesh. -/
def Coherent (s : Session) : Prop :=
  s.isDirty = false →
    s.mesh = s.picture ∧ s.stats.vertices = s.mesh.vertexCount ∧ s.stats.singular = s.mesh.singular

theorem Starts.coherent {preset : Preset} {s : Session} (h : Starts preset s) : Coherent s := by
  obtain ⟨canvas, rfl, -⟩ := h.eq_start
  intro clean
  cases clean

theorem coherent_rebuilt (s : Session) (ms : Float) : Coherent (s.rebuilt ms) :=
  fun _ => ⟨rfl, rfl, rfl⟩

theorem Coherent.move {s t : Session} (h : Coherent s) (move : Move s t) : Coherent t := by
  cases move with
  | accepted change =>
    intro clean
    rw [change.frame.1] at clean
    cases clean
  | rebuilt ms _ => exact coherent_rebuilt s ms
  | latched _ _ => exact h

/-- After any history, a session that is not dirty shows the mesh of its formula, view, canvas and
colours with the mesh unit of its preset, and reports the size and the singular points of it. -/
theorem mesh_eq_generate_of_clean {preset : Preset} {s₀ : Session} (start : Starts preset s₀)
    (cs : List Command) (clean : (s₀.after cs).isDirty = false) :
    let s := s₀.after cs
    s.mesh = Mesh.generate s.expression s.view s.canvas preset.meshUnit s.colors ∧
      s.stats.vertices = s.mesh.vertexCount ∧ s.stats.singular = s.mesh.singular := by
  have coherent : Coherent (s₀.after cs) := keeps_after Coherent.move cs start.coherent
  have same : (s₀.after cs).preset = preset := by
    obtain ⟨canvas, rfl, -⟩ := start.eq_start
    exact preset_after _ cs
  obtain ⟨mesh, vertices, singular⟩ := coherent clean
  refine ⟨?_, vertices, singular⟩
  rw [mesh, picture, same]

/-- A refused zoom, a resize and a frame that cannot be drawn leave a clean session. -/
def refusedThenDrawn : List Command :=
  [.tick 1, .change (.zoom 0), .change (.resize ⟨10, 5⟩), .frame 2 (.error (.draw "lost"))]

theorem mesh_eq_generate_refusedThenDrawn :
    let s := standard.after refusedThenDrawn
    s.isDirty = false ∧
      s.mesh = Mesh.generate s.expression s.view s.canvas Preset.standard.meshUnit s.colors ∧
      s.stats.vertices = s.mesh.vertexCount ∧ s.stats.singular = s.mesh.singular := by
  have clean : (standard.after refusedThenDrawn).isDirty = false := by decide +kernel
  exact ⟨clean, mesh_eq_generate_of_clean (.standard rfl) refusedThenDrawn clean⟩

end DomainColoring.Session
