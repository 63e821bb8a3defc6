import DomainColoring.Proofs.Mesh.Outline
import DomainColoring.Proofs.Session.Budget
import DomainColoring.Proofs.Session.Independence
import DomainColoring.Proofs.Session.Rebuilds

/-!
# Only the canvas moves the mesh

The outline of the mesh is decided by the canvas and the preset. A session whose mesh is up to date keeps
the outline through every history in which no other canvas is accepted, however often the mesh is built
anew meanwhile (`FollowsOutline.after_take`).
-/

namespace DomainColoring

/-- Whether a command asks for another canvas, as an event, as a text that encodes one, or directly. -/
def Command.isResize : Command → Bool
  | .change c => c.concern = .canvas
  | _ => false

namespace Session

/-- The command at a place is a change of the canvas that is accepted. -/
def ResizesAt (s : Session) (cs : List Command) (i : Nat) : Prop :=
  cs[i]?.any Command.isResize = true ∧ AcceptedAt s cs i

instance (s : Session) (cs : List Command) (i : Nat) : Decidable (ResizesAt s cs i) :=
  inferInstanceAs (Decidable (_ ∧ _))

section Canvas

variable {s t : Session}

theorem canvas_of_apply {e : Event} (h : s.apply e = .ok t) (other : e.concern ≠ .canvas) :
    t.canvas = s.canvas := by
  cases e with
  | pan d =>
    obtain ⟨v, -, rfl⟩ := exists_of_map_ok (ok_of_mapError h)
    rfl
  | zoom factor =>
    obtain ⟨v, -, rfl⟩ := exists_of_map_ok (ok_of_mapError h)
    rfl
  | zoomAt factor pixel =>
    obtain ⟨v, -, rfl⟩ := exists_of_map_ok (ok_of_mapError h)
    rfl
  | resize canvas => exact absurd rfl other
  | commit text =>
    obtain ⟨f, -, ok⟩ := exists_of_bind_ok (ok_of_mapError h)
    cases ok
    rfl
  | setColors settings =>
    cases h
    rfl
  | reset =>
    cases h
    rfl

/-- A change that is not about the canvas leaves it. -/
theorem canvas_of_change {c : Change} (h : s.change c = .ok t) (other : c.concern ≠ .canvas) :
    t.canvas = s.canvas := by
  rw [change_eq_apply] at h
  split at h
  · next e event =>
    rw [Change.concern_of_event? event] at other
    exact canvas_of_apply h other
  · cases h

/-- A command other than an accepted change of the canvas leaves the canvas. -/
theorem canvas_step (s : Session) {c : Command} (stays : ¬(c.isResize = true ∧ s.accepts c = true)) :
    (s.step c).session.canvas = s.canvas := by
  cases kind : c.change? with
  | none => exact congrArg Scene.canvas (s.step_of_change?_none kind).2
  | some d =>
    obtain rfl := Command.eq_of_change? kind
    cases changed : s.change d with
    | error cause => rw [step_change_of_error changed]
    | ok t =>
      have accepted : s.accepts (.change d) = true := by rw [accepts, step_change_of_ok changed]
      rw [step_change_of_ok changed]
      exact canvas_of_change changed fun canvas => stays ⟨decide_eq_true canvas, accepted⟩

end Canvas

/-- The picture has one outline for every formula, view and colour. -/
theorem outline_picture {s t : Session} (preset : t.preset = s.preset) (canvas : t.canvas = s.canvas) :
    t.picture.outline = s.picture.outline := by
  rw [picture, picture, preset, canvas]
  exact Mesh.outline_generate ..

/-- A session has the canvas of another, and its mesh the outline that this canvas asks for. -/
structure FollowsOutline (s t : Session) : Prop where
  preset : t.preset = s.preset
  canvas : t.canvas = s.canvas
  mesh : t.mesh.outline = s.picture.outline

theorem FollowsOutline.step {s t : Session} (h : FollowsOutline s t) {c : Command}
    (stays : ¬(c.isResize = true ∧ t.accepts c = true)) : FollowsOutline s (t.step c).session := by
  refine ⟨?preset, (t.canvas_step stays).trans h.canvas, ?mesh⟩
  case preset => exact (preset_after t [c]).trans h.preset
  case mesh =>
    have effect := mesh_stats_step t c
    split at effect
    · obtain ⟨ms, -, built, -⟩ := effect
      rw [built, outline_picture h.preset h.canvas]
    · rw [effect.1, h.mesh]

/-- The outline is kept up to any place of a history that resizes nowhere. -/
theorem FollowsOutline.after_take {s t : Session} (h : FollowsOutline s t) {ds : List Command}
    (stays : ∀ i < ds.length, ¬ResizesAt t ds i) (n : Nat) :
    FollowsOutline s (t.after (ds.take n)) := by
  induction n with
  | zero => exact h
  | succ n ih =>
    cases here : ds[n]? with
    | none =>
      have beyond : ds.length ≤ n := List.getElem?_eq_none_iff.1 here
      rw [List.take_of_length_le beyond] at ih
      rwa [List.take_of_length_le (beyond.trans n.le_succ)]
    | some c =>
      have within : n < ds.length := (List.getElem?_eq_some_iff.1 here).1
      rw [after_take_succ t here]
      refine ih.step fun resizes => stays n within ⟨?_, (acceptedAt_iff here).2 resizes.2⟩
      rw [here, Option.any_some]
      exact resizes.1

/-- The picture of a canvas has the same cells, vertices, positions and corner weights for any two
functions, views and colours. So from whatever a session has come to, once its mesh is up to date no
history moves the mesh in which no change of the canvas is accepted. The buffers have two positions, four
channels and three weights for each vertex, and the nine weights of a triangle are the unit vectors at its
corners. -/
theorem outline_undisturbed :
    (∀ (canvas : Canvas) (unit : Float) (f g : Expr) (view view' : View Float)
      (colors colors' : ColorSettings Float),
        let m := Mesh.generate f view canvas unit colors
        let n := Mesh.generate g view' canvas unit colors'
        m.columns = n.columns ∧ m.rows = n.rows ∧ m.vertexCount = n.vertexCount ∧
          m.positions = n.positions ∧ m.barycentrics = n.barycentrics) ∧
    (∀ (preset : Preset) (s₀ : Session), Starts preset s₀ → ∀ cs : List Command,
      let s := s₀.after cs
      s.isDirty = false → ∀ ds : List Command, (∀ i < ds.length, ¬ResizesAt s ds i) → ∀ n,
        let t := s.after (ds.take n)
        t.mesh.columns = s.mesh.columns ∧ t.mesh.rows = s.mesh.rows ∧
          t.mesh.vertexCount = s.mesh.vertexCount ∧ t.mesh.positions = s.mesh.positions) ∧
    ∀ (f : Expr) (view : View Float) (canvas : Canvas) (unit : Float) (colors : ColorSettings Float),
      let m := Mesh.generate f view canvas unit colors
      m.positions.length = 2 * m.vertexCount ∧ m.colors.length = 4 * m.vertexCount ∧
        m.barycentrics.length = 3 * m.vertexCount ∧ 3 * m.triangleCount = m.vertexCount ∧
          ∀ t < m.triangleCount, ∀ k w : Fin 3,
            m.barycentrics[9 * t + 3 * k + w]? = some (if k = w then 1 else 0) := by
  refine ⟨?pictures, ?histories, ?buffers⟩
  case pictures =>
    intro canvas unit f g view view' colors colors' m n
    have same : m.outline = n.outline := Mesh.outline_generate f g view view' canvas unit colors colors'
    exact ⟨Mesh.columns_eq_of_outline_eq same, Mesh.rows_eq_of_outline_eq same,
      Mesh.vertexCount_eq_of_outline_eq same, Mesh.positions_eq_of_outline_eq same,
      Mesh.barycentrics_eq_of_outline_eq same⟩
  case histories =>
    intro preset s₀ start cs s clean ds stays n t
    have coherent : Coherent s := keeps_after Coherent.move cs start.coherent
    have current : s.mesh = s.picture := (coherent clean).1
    have follows : FollowsOutline s s := ⟨rfl, rfl, congrArg Mesh.outline current⟩
    have same : t.mesh.outline = s.mesh.outline := by
      rw [current]
      exact (follows.after_take stays n).mesh
    exact ⟨Mesh.columns_eq_of_outline_eq same, Mesh.rows_eq_of_outline_eq same,
      Mesh.vertexCount_eq_of_outline_eq same, Mesh.positions_eq_of_outline_eq same⟩
  case buffers =>
    intro f view canvas unit colors m
    have triangles : 3 * m.triangleCount = m.vertexCount :=
      Mesh.three_mul_triangleCount_generate f view canvas unit colors
    have weights := m.length_barycentrics
    exact ⟨m.length_positions, m.length_colors, by omega, triangles,
      fun t here => m.getElem?_barycentrics here⟩

/-- A formula, a canvas beyond the budget, a frame that cannot be drawn, a refused zoom, a reset and new
colours, with a tick at the end. -/
def undisturbing : List Command :=
  [.change (.commit "1/z"), .change (.resize ⟨4294967295, 4294967295⟩),
    .frame 2 (.error (.draw "lost")), .change (.zoom 0), .change .reset,
    .change (.setColors ⟨.twoSegmentRamp, 3, 3⟩), .tick 1]

theorem outline_undisturbed_rebuilt :
    let s := (start .standard ⟨40, 30⟩).after [.tick 1]
    s.isDirty = false ∧ (∀ i < undisturbing.length, ¬ResizesAt s undisturbing i) ∧
      (s.after (undisturbing.take 7)).stats.count = 3 ∧
      (s.after (undisturbing.take 7)).mesh.positions = s.mesh.positions ∧
      s.mesh.vertexCount = 288 ∧ (s.after (undisturbing.take 7)).mesh.vertexCount = 288 := by
  intro s
  have within : plannedVertexCount ⟨40, 30⟩ (5 : Float) ≤ 8000000 := by decide +kernel
  have start : Starts .standard (start .standard ⟨40, 30⟩) := .opened (open?_of_within within)
  have clean : s.isDirty = false := by decide +kernel
  have stays : ∀ i < undisturbing.length, ¬ResizesAt s undisturbing i := by decide +kernel
  have count : s.mesh.vertexCount = 288 := by decide +kernel
  obtain ⟨-, -, vertices, positions⟩ :=
    outline_undisturbed.2.1 .standard _ start [.tick 1] clean undisturbing stays 7
  exact ⟨clean, stays, by decide +kernel, positions, count, vertices.trans count⟩

end Session

end DomainColoring
