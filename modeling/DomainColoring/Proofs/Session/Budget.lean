import DomainColoring.Proofs.Grid.Count
import DomainColoring.Proofs.Session.Replies
import DomainColoring.Proofs.Session.Validity

/-!
# The budget of a session

A canvas is accepted if its planned count of vertices is within the budget of the preset. The planned
count is the one that is built, so no mesh that is drawn exceeds the budget. What else a rebuild
constructs is bounded only as far as the planned count bounds it: a canvas without an area plans no
vertex, however long its one side is, and the lines across that side are made all the same
(`rebuildWithin_iff`).
-/

namespace DomainColoring.Session

/-- A canvas within the budget can be started on. -/
theorem open?_of_within {preset : Preset} {canvas : Canvas}
    (within : plannedVertexCount canvas preset.meshUnit ≤ preset.maxVertices) :
    open? preset canvas = .ok (start preset canvas) := by
  have accepted : checkBudget preset canvas = .ok () := if_neg (Nat.not_lt.2 within)
  rw [open?, accepted]
  rfl

/-- What a session has planned and what it has built are within its budget. -/
structure WithinBudget (s : Session) : Prop where
  planned : plannedVertexCount s.canvas s.preset.meshUnit ≤ s.preset.maxVertices
  built : s.preset.maxVertices < maxCount → s.mesh.vertexCount ≤ s.preset.maxVertices

theorem Starts.withinBudget {preset : Preset} {s : Session} (h : Starts preset s) :
    WithinBudget s := by
  obtain ⟨canvas, rfl, budget⟩ := h.eq_start
  exact ⟨within_of_checkBudget budget, fun _ => Nat.zero_le _⟩

theorem WithinBudget.accepted {s t : Session} (h : WithinBudget s) (change : Accepted s t) :
    WithinBudget t := by
  obtain ⟨-, preset, mesh, -, -⟩ := change.frame
  have built : t.preset.maxVertices < maxCount → t.mesh.vertexCount ≤ t.preset.maxVertices := by
    rw [preset, mesh]
    exact h.built
  cases change with
  | resize budget => exact ⟨within_of_checkBudget budget, built⟩
  | pan _ => exact ⟨h.planned, built⟩
  | zoom _ => exact ⟨h.planned, built⟩
  | zoomAt _ => exact ⟨h.planned, built⟩
  | commit _ => exact ⟨h.planned, built⟩
  | setColors _ => exact ⟨h.planned, built⟩
  | reset => exact ⟨h.planned, built⟩

theorem WithinBudget.move {s t : Session} (h : WithinBudget s) (move : Move s t) :
    WithinBudget t := by
  cases move with
  | accepted change => exact h.accepted change
  | rebuilt _ _ =>
    exact ⟨h.planned, fun below => Mesh.vertexCount_generate_le _ _ _ _ below h.planned⟩
  | latched _ _ => exact ⟨h.planned, h.built⟩

section Reachable

variable {preset : Preset} {s₀ : Session}

theorem Starts.withinBudget_after (start : Starts preset s₀) (cs : List Command) :
    WithinBudget (s₀.after cs) :=
  keeps_after WithinBudget.move cs start.withinBudget

theorem Starts.vertexCount_after_le (start : Starts preset s₀) (below : preset.maxVertices < maxCount)
    (cs : List Command) : (s₀.after cs).mesh.vertexCount ≤ preset.maxVertices := by
  have within := (start.withinBudget_after cs).built
  rw [start.preset_after cs] at within
  exact within below

end Reachable

theorem maxVertices_of_mem_all {preset : Preset} (shipped : preset ∈ Preset.all) :
    preset.maxVertices = Preset.standardMaxVertices := by
  obtain rfl | rfl : preset = .standard ∨ preset = .wide := by simpa [Preset.all] using shipped
  · rfl
  · rfl

/-- The planned count is six for each cell, cut off only at the largest count, and it is the count of
the mesh unless it is cut off. So whatever is done to a session, no mesh handed over to be drawn has
more vertices than the preset allows, and under the presets of the library their number fits the word
that drawing is asked for. -/
theorem plannedVertexCount_exact :
    (∀ (canvas : Canvas) (unit : Float),
      plannedVertexCount canvas unit =
          min (6 * ((gridLines canvas.width unit).length - 1) *
            ((gridLines canvas.height unit).length - 1)) (2 ^ 64 - 1) ∧
        (plannedVertexCount canvas unit < 2 ^ 64 - 1 →
          ∀ (f : Expr) (view : View Float) (colors : ColorSettings Float),
            (Mesh.generate f view canvas unit colors).vertexCount =
              plannedVertexCount canvas unit)) ∧
      ∀ (preset : Preset) (s₀ : Session), Starts preset s₀ → ∀ cs : List Command,
        (preset.maxVertices < 2 ^ 64 - 1 → ∀ reply ∈ s₀.run cs, ∀ mesh,
            reply.drawn = some mesh → mesh.vertexCount ≤ preset.maxVertices) ∧
          (preset ∈ Preset.all →
            (s₀.after cs).mesh.drawCount.toNat = (s₀.after cs).mesh.vertexCount) := by
  have largest : maxCount = 2 ^ 64 - 1 := rfl
  rw [← largest]
  refine ⟨fun canvas unit => ⟨plannedVertexCount_eq_min canvas unit, ?_⟩, ?_⟩
  · intro below f view colors
    have planned := Mesh.plannedVertexCount_eq_vertexCount f view canvas colors unit
    omega
  · intro preset s₀ start cs
    refine ⟨?_, ?_⟩
    · intro below reply replied mesh drawn
      obtain ⟨i, c, here, rfl⟩ := exists_of_mem_run s₀ replied
      rw [← mesh_of_drawn drawn, ← after_take_succ s₀ here]
      exact start.vertexCount_after_le below _
    · intro shipped
      have budget : preset.maxVertices = 8000000 := maxVertices_of_mem_all shipped
      have below : preset.maxVertices < maxCount := by
        rw [budget, largest]
        decide
      have few := start.vertexCount_after_le below cs
      rw [Mesh.drawCount, Nat.toUInt32_eq, UInt32.toNat_ofNat']
      exact Nat.mod_eq_of_lt (by omega)

/-- A window of 40 by 30 pixels has 8 by 6 cells under the standard preset. -/
theorem plannedVertexCount_exact_window :
    let s₀ := start .standard ⟨40, 30⟩
    let cs : List Command := [.frame 1 (.ok ()), .change (.resize ⟨80, 60⟩), .tick 1]
    (∀ (f : Expr) (view : View Float) (colors : ColorSettings Float),
      (Mesh.generate f view ⟨40, 30⟩ 5 colors).vertexCount = 288) ∧
      (∀ reply ∈ s₀.run cs, ∀ mesh, reply.drawn = some mesh → mesh.vertexCount ≤ 8000000) ∧
      (s₀.after cs).mesh.drawCount.toNat = (s₀.after cs).mesh.vertexCount := by
  intro s₀ cs
  have planned : plannedVertexCount ⟨40, 30⟩ (5 : Float) = 288 := by decide +kernel
  have within : plannedVertexCount ⟨40, 30⟩ (5 : Float) ≤ 8000000 := by omega
  have start : Starts .standard s₀ := .opened (open?_of_within within)
  obtain ⟨exact, safe⟩ := plannedVertexCount_exact
  obtain ⟨drawn, word⟩ := safe .standard s₀ start cs
  refine ⟨?_, drawn (by decide), word (by simp [Preset.all])⟩
  rw [← planned]
  exact (exact ⟨40, 30⟩ 5).2 (by omega)

section Lists

/-- The lists that a rebuild constructs are within a budget of vertices: the lines across either
axis, the corners where they meet, and the vertices. -/
structure RebuildWithin (s : Session) (budget : Nat) : Prop where
  columnLines : (gridLines s.canvas.width s.preset.meshUnit).length ≤ budget / 6 + 1
  rowLines : (gridLines s.canvas.height s.preset.meshUnit).length ≤ budget / 6 + 1
  corners : ∀ h : (Grid.ofCanvas s.canvas s.preset.meshUnit).hasCells,
    ((Grid.ofCanvas s.canvas s.preset.meshUnit).table h
      (Mesh.sample s.expression s.view s.canvas)).values.size ≤ budget
  vertices : s.picture.vertexCount ≤ budget

/-- There are fewer corners than vertices. -/
theorem corners_le_vertices {c r : Nat} (hc : 0 < c) (hr : 0 < r) :
    (c + 1) * (r + 1) ≤ 6 * c * r := by
  nlinarith

/-- The lists are as long as the cells are many. -/
theorem rebuildWithin_iff_cells (s : Session) (budget : Nat) :
    let c := (gridLines s.canvas.width s.preset.meshUnit).length - 1
    let r := (gridLines s.canvas.height s.preset.meshUnit).length - 1
    s.RebuildWithin budget ↔ 6 * c ≤ budget ∧ 6 * r ≤ budget ∧ 6 * c * r ≤ budget := by
  intro c r
  have vertices : s.picture.vertexCount = 6 * c * r := Mesh.vertexCount_generate ..
  constructor
  · intro h
    have columns := h.columnLines
    have rows := h.rowLines
    exact ⟨by omega, by omega, vertices ▸ h.vertices⟩
  · rintro ⟨columns, rows, cells⟩
    refine ⟨by omega, by omega, fun h => ?_, by omega⟩
    have some := (Grid.hasCells_iff _).1 h
    rw [Grid.columns_ofCanvas, Grid.rows_ofCanvas] at some
    rw [((Grid.ofCanvas s.canvas s.preset.meshUnit).table h _).size_values, Grid.columns_ofCanvas,
      Grid.rows_ofCanvas]
    exact (corners_le_vertices some.1 some.2).trans cells

/-- Whatever is done to a session, what a rebuild constructs is within its budget exactly if, on a
canvas without an area, the lines across the other side are, and, under a budget that no count can
exceed, the vertices are. -/
theorem rebuildWithin_iff {preset : Preset} {s₀ : Session} (start : Starts preset s₀)
    (cs : List Command) (good : isGridUnit preset.meshUnit = true) :
    let s := s₀.after cs
    let c := (gridLines s.canvas.width preset.meshUnit).length - 1
    let r := (gridLines s.canvas.height preset.meshUnit).length - 1
    s.RebuildWithin preset.maxVertices ↔
      (s.canvas.width = 0 → 6 * r ≤ preset.maxVertices) ∧
        (s.canvas.height = 0 → 6 * c ≤ preset.maxVertices) ∧
          (2 ^ 64 - 1 ≤ preset.maxVertices → 6 * c * r ≤ preset.maxVertices) := by
  intro s c r
  have same : s.preset = preset := start.preset_after cs
  have lists : s.RebuildWithin preset.maxVertices ↔ _ ∧ _ ∧ _ := s.rebuildWithin_iff_cells _
  have planned : min (6 * c * r) maxCount ≤ preset.maxVertices := by
    have planned := (start.withinBudget_after cs).planned
    rwa [start.preset_after cs, plannedVertexCount_eq_min] at planned
  rw [lists, same]
  constructor
  · rintro ⟨columns, rows, cells⟩
    exact ⟨fun _ => rows, fun _ => columns, fun _ => cells⟩
  · rintro ⟨flat, thin, counted⟩
    have cells : 6 * c * r ≤ preset.maxVertices := by
      by_cases limited : 2 ^ 64 - 1 ≤ preset.maxVertices
      · exact counted limited
      · have largest : maxCount = 2 ^ 64 - 1 := rfl
        omega
    -- a cell on the other axis makes the cells of this one count among the vertices
    refine ⟨?columns, ?rows, cells⟩
    case columns =>
      by_cases none : s.canvas.height = 0
      · exact thin none
      · have row : 1 ≤ r := one_le_length_gridLines_sub_one none good
        exact (Nat.le_mul_of_pos_right _ row).trans cells
    case rows =>
      by_cases none : s.canvas.width = 0
      · exact flat none
      · have column : 1 ≤ c := one_le_length_gridLines_sub_one none good
        exact (Nat.mul_le_mul_right r (by omega : 6 ≤ 6 * c)).trans cells

/-- A line of forty pixels has nine lines across it. -/
theorem rebuildWithin_iff_line :
    let s := start .standard ⟨40, 0⟩
    s.RebuildWithin Preset.standard.maxVertices ∧
      (s.after [.tick 1]).RebuildWithin Preset.standard.maxVertices := by
  intro s
  have lines : (gridLines 40 Preset.standard.meshUnit).length = 9 := by decide +kernel
  have few : 6 * ((gridLines 40 Preset.standard.meshUnit).length - 1) ≤
      Preset.standard.maxVertices := by
    rw [lines]
    decide
  have limited : Preset.standard.maxVertices < 2 ^ 64 - 1 := by decide
  have started : Starts .standard s := .opened (open?_of_within (by decide +kernel))
  have within (cs : List Command) (canvas : (s.after cs).canvas = ⟨40, 0⟩) :
      (s.after cs).RebuildWithin Preset.standard.maxVertices := by
    refine (rebuildWithin_iff started cs (by decide +kernel)).2 ⟨?_, fun _ => ?_, fun most => ?_⟩
    · rw [canvas]
      exact fun none => absurd none (by decide)
    · simpa only [canvas] using few
    · exact absurd most (Nat.not_le.2 limited)
  exact ⟨within [] rfl, within [.tick 1] rfl⟩

/-- A canvas as wide as can be and without height is accepted by the standard preset, and a rebuild
makes more than eight hundred million lines for it. -/
theorem not_rebuildWithin_line :
    let s := start .standard ⟨4294967295, 0⟩
    isGridUnit Preset.standard.meshUnit = true ∧ open? .standard ⟨4294967295, 0⟩ = .ok s ∧
      (gridLines s.canvas.width s.preset.meshUnit).length = 858993460 ∧
        ¬s.RebuildWithin Preset.standard.maxVertices := by
  intro s
  have count : cellCount 4294967295 (5 : Float) = 858993459 := by decide +kernel
  have good : isGridUnit (5 : Float) = true := by decide +kernel
  have lines : (gridLines s.canvas.width s.preset.meshUnit).length = 858993460 := by
    change (gridLines 4294967295 (5 : Float)).length = _
    rw [gridLines, good, if_neg (by decide), List.length_map, List.length_range, count]
  refine ⟨good, open?_of_within (by decide +kernel), lines, fun h => ?_⟩
  have few : _ ≤ 8000000 / 6 + 1 := h.columnLines
  omega

end Lists

end DomainColoring.Session
