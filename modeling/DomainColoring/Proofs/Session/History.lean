import DomainColoring.Proofs.Session.Edit
import DomainColoring.Proofs.Success

/-!
# Histories of a session

Where a history begins and what one command can do. Every command is made of moves: an accepted
change, a rebuild of what is out of date, and the noting of a fatal failure (`Move`). What every
move keeps, every history keeps (`keeps_after`).
-/

namespace DomainColoring.Session

/-- The sessions of a preset before the first command. -/
inductive Starts (preset : Preset) : Session → Prop
  | opened {canvas : Canvas} {s : Session} (h : open? preset canvas = .ok s) : Starts preset s
  | standard (h : preset = .standard) : Starts preset standard

/-- A start is a start on a canvas within the budget. -/
theorem Starts.eq_start {preset : Preset} {s : Session} (h : Starts preset s) :
    ∃ canvas, s = start preset canvas ∧ checkBudget preset canvas = .ok () := by
  cases h with
  | @opened canvas s h =>
    obtain ⟨_, budget, ok⟩ := exists_of_bind_ok h
    exact ⟨canvas, (Except.ok.inj ok).symm, budget⟩
  | standard h =>
    subst h
    exact ⟨⟨0, 0⟩, rfl, rfl⟩

/-- The sessions after a change that was accepted, by what the change replaces. -/
inductive Accepted (s : Session) : Session → Prop
  | pan {d : Point Float} {v : View Float} (h : s.view.panBy d = .ok v) : Accepted s (s.withView v)
  | zoom {factor : Float} {v : View Float} (h : s.view.zoomBy factor = .ok v) :
    Accepted s (s.withView v)
  | zoomAt {factor : Float} {pixel : Point Float} {v : View Float}
      (h : s.view.zoomAtPixel s.canvas factor pixel = .ok v) : Accepted s (s.withView v)
  | resize {canvas : Canvas} (h : checkBudget s.preset canvas = .ok ()) :
    Accepted s { s with canvas }.marked
  | commit {text : String} {e : Expr} (h : compile s.preset.compile text = .ok e) :
    Accepted s { s with expression := e, source := text }.marked
  | setColors (settings : ColorSettings Float) : Accepted s (s.setColors settings)
  | reset : Accepted s s.reset

section Accepted

variable {s t : Session}

theorem accepted_of_pan {d : Point Float} (h : s.pan d = .ok t) : Accepted s t := by
  obtain ⟨v, moved, rfl⟩ := exists_of_map_ok h
  exact .pan moved

theorem accepted_of_zoom {factor : Float} (h : s.zoom factor = .ok t) : Accepted s t := by
  obtain ⟨v, zoomed, rfl⟩ := exists_of_map_ok h
  exact .zoom zoomed

theorem accepted_of_zoomAt {factor : Float} {pixel : Point Float}
    (h : s.zoomAt factor pixel = .ok t) : Accepted s t := by
  obtain ⟨v, zoomed, rfl⟩ := exists_of_map_ok h
  exact .zoomAt zoomed

theorem accepted_of_resize {canvas : Canvas} (h : s.resize canvas = .ok t) : Accepted s t := by
  obtain ⟨_, budget, ok⟩ := exists_of_bind_ok h
  cases ok
  exact .resize budget

theorem accepted_of_commit {text : String} (h : s.commit text = .ok t) : Accepted s t := by
  obtain ⟨e, compiled, ok⟩ := exists_of_bind_ok h
  cases ok
  exact .commit compiled

theorem accepted_of_apply {e : Event} (h : s.apply e = .ok t) : Accepted s t := by
  cases e with
  | pan d => exact accepted_of_pan (ok_of_mapError h)
  | zoom factor => exact accepted_of_zoom (ok_of_mapError h)
  | zoomAt factor pixel => exact accepted_of_zoomAt (ok_of_mapError h)
  | resize canvas => exact accepted_of_resize (ok_of_mapError h)
  | commit text => exact accepted_of_commit (ok_of_mapError h)
  | setColors settings =>
    cases h
    exact .setColors settings
  | reset =>
    cases h
    exact .reset

theorem accepted_of_dispatch {text : String} (h : s.dispatch text = .ok t) : Accepted s t := by
  unfold dispatch at h
  split at h
  · exact accepted_of_apply h
  · cases h

/-- Every way to change a session comes down to one of the seven replacements. -/
theorem accepted_of_change {c : Change} (h : s.change c = .ok t) : Accepted s t := by
  cases c with
  | pan d => exact accepted_of_pan (ok_of_mapError h)
  | zoom factor => exact accepted_of_zoom (ok_of_mapError h)
  | zoomAt factor pixel => exact accepted_of_zoomAt (ok_of_mapError h)
  | zoomNotches notches pixel => exact accepted_of_zoomAt (ok_of_mapError h)
  | resize canvas => exact accepted_of_resize (ok_of_mapError h)
  | commit text => exact accepted_of_commit (ok_of_mapError h)
  | setColors settings =>
    cases h
    exact .setColors settings
  | reset =>
    cases h
    exact .reset
  | apply e => exact accepted_of_apply h
  | dispatch text => exact accepted_of_dispatch h

/-- A change asks for a rebuild and leaves the preset, the last mesh and its figures alone. -/
theorem Accepted.frame (h : Accepted s t) :
    t.isDirty = true ∧ t.preset = s.preset ∧ t.mesh = s.mesh ∧ t.stats = s.stats ∧
      t.failure = s.failure := by
  cases h <;> exact ⟨rfl, rfl, rfl, rfl, rfl⟩

end Accepted

/-- The session once the mesh is built from what it is now. -/
def rebuilt (s : Session) (ms : Float) : Session := { s with state := .clean }.rebuild ms

/-- What the commands are made of. -/
inductive Move (s : Session) : Session → Prop
  | accepted {t : Session} (h : Accepted s t) : Move s t
  | rebuilt (ms : Float) (dirty : s.isDirty = true) : Move s (s.rebuilt ms)
  | latched {e : RenderError} (first : s.failure = none) (fatal : e.isFatal = true) :
    Move s { s with failure := some e }

theorem tick_of_dirty {s : Session} (ms : Float) (dirty : s.isDirty = true) :
    s.tick ms = (s.rebuilt ms, true) := by
  have due : s.state.take = (true, .clean) := congrArg (·, MeshState.clean) dirty
  simp only [tick, due]
  rfl

theorem tick_of_clean {s : Session} (ms : Float) (clean : s.isDirty = false) :
    s.tick ms = (s, false) := by
  have due : s.state.take = (false, .clean) := congrArg (·, MeshState.clean) clean
  simp only [tick, due]
  rfl

theorem failure_tick (s : Session) (ms : Float) : (s.tick ms).1.failure = s.failure := by
  cases h : s.isDirty with
  | true =>
    rw [tick_of_dirty ms h]
    rfl
  | false => rw [tick_of_clean ms h]

section Invariant

variable {inv : Session → Prop}

theorem keeps_tick (keep : ∀ {s t : Session}, inv s → Move s t → inv t) {s : Session} (ms : Float)
    (h : inv s) : inv (s.tick ms).1 := by
  cases dirty : s.isDirty with
  | true =>
    rw [tick_of_dirty ms dirty]
    exact keep h (.rebuilt ms dirty)
  | false =>
    rw [tick_of_clean ms dirty]
    exact h

theorem keeps_failed (keep : ∀ {s t : Session}, inv s → Move s t → inv t) {s : Session}
    (e : RenderError) (first : s.failure = none) (h : inv s) : inv (s.failed e) := by
  unfold failed
  split
  · next fatal => exact keep h (.latched first fatal)
  · exact h

theorem keeps_frame (keep : ∀ {s t : Session}, inv s → Move s t → inv t) {s : Session} (ms : Float)
    (draw : Mesh → Except RenderError Unit) (h : inv s) : inv (s.frame ms draw).session := by
  have ticked := keeps_tick keep ms h
  unfold frame
  split
  · exact h
  · next first =>
    -- a failure is noted on the session after the tick, which has noted none either
    rw [← failure_tick s ms] at first
    dsimp only
    split
    · exact ticked
    · exact keeps_failed keep _ first ticked

/-- What every move keeps, a command keeps. -/
theorem keeps_step (keep : ∀ {s t : Session}, inv s → Move s t → inv t) {s : Session} (c : Command)
    (h : inv s) : inv (s.step c).session := by
  cases c with
  | change c =>
    cases changed : s.change c with
    | ok t =>
      rw [step_change_of_ok changed]
      exact keep h (.accepted (accepted_of_change changed))
    | error cause =>
      rw [step_change_of_error changed]
      exact h
  | tick ms => exact keeps_tick keep ms h
  | frame ms answer => exact keeps_frame keep ms _ h

/-- What every move keeps, a history keeps. -/
theorem keeps_after (keep : ∀ {s t : Session}, inv s → Move s t → inv t) {s : Session}
    (cs : List Command) (h : inv s) : inv (s.after cs) := by
  induction cs generalizing s with
  | nil => exact h
  | cons c cs ih => exact ih (keeps_step keep c h)

end Invariant

/-- The preset of a session is that of its start. -/
theorem preset_after (s : Session) (cs : List Command) : (s.after cs).preset = s.preset := by
  have keep : ∀ {t u : Session}, t.preset = s.preset → Move t u → u.preset = s.preset := by
    intro t u same move
    cases move with
    | accepted h => exact h.frame.2.1.trans same
    | rebuilt ms _ => exact same
    | latched _ _ => exact same
  exact keeps_after keep cs rfl

end DomainColoring.Session
