import DomainColoring.Proofs.View
import DomainColoring.Proofs.View.Edit
import DomainColoring.Session.Command

/-!
# Changes of a session are all or nothing

Every change, worked out in place, ends in the session that its outcome says, and a refusal comes from
a check that stands before the first write (`performs_edit`). So a refused change leaves no trace,
and a step may be read off the outcome alone.
-/

namespace DomainColoring.Session

namespace Edit

open DomainColoring.Edit (Performs run_ofExcept run_within)

theorem performs_onView {e : Edit (InputError Float) (View Float) Unit}
    {move : View Float → Except (InputError Float) (View Float)} (h : Performs e move) :
    Performs (do onView e; modify marked) fun s => (move s.view).map s.withView := by
  -- a failed move hands the view back as it was, and the session with that view is the session
  have whole : Performs (onView e) fun s => (move s.view).map fun view => { s with view } :=
    h.within fun _ => rfl
  intro s
  simp only [whole.andWrite marked s]
  cases move s.view <;> rfl

theorem performs_pan (d : Point Float) : Performs (pan d) (·.pan d) :=
  performs_onView (View.Edit.performs_panBy d)

theorem performs_zoom (factor : Float) : Performs (zoom factor) (·.zoom factor) :=
  performs_onView (View.Edit.performs_zoomBy factor)

theorem performs_zoomAt (factor : Float) (pixel : Point Float) :
    Performs (zoomAt factor pixel) (·.zoomAt factor pixel) :=
  Performs.read fun s =>
    performs_onView (View.Edit.performs_zoomAt factor (s.canvas.centerOffset pixel))

theorem performs_zoomNotches (notches : Float) (pixel : Point Float) :
    Performs (zoomNotches notches pixel) (·.zoomNotches notches pixel) := by
  have zoomed (s : Session) := performs_zoomAt (Elementary.pow s.preset.zoomStep notches) pixel
  exact Performs.read zoomed

theorem performs_resize (canvas : Canvas) : Performs (resize canvas) (·.resize canvas) := by
  intro s
  simp only [resize, Session.resize, EStateM.run_bind, EStateM.run_get, run_ofExcept]
  cases checkBudget s.preset canvas <;> rfl

theorem performs_commit (text : String) : Performs (commit text) (·.commit text) := by
  intro s
  simp only [commit, Session.commit, EStateM.run_bind, EStateM.run_get, run_ofExcept]
  cases compile s.preset.compile text <;> rfl

theorem performs_setColors (colors : ColorSettings Float) :
    Performs (setColors colors) fun s => .ok (s.setColors colors) :=
  fun _ => rfl

theorem performs_reset : Performs reset fun s => .ok s.reset :=
  fun _ => rfl

theorem performs_apply (e : Event) : Performs (apply e) (·.apply e) := by
  cases e with
  | pan d => exact (performs_pan d).adaptExcept SessionError.input
  | zoom factor => exact (performs_zoom factor).adaptExcept SessionError.input
  | zoomAt factor pixel => exact (performs_zoomAt factor pixel).adaptExcept SessionError.input
  | resize canvas => exact (performs_resize canvas).adaptExcept SessionError.input
  | commit text => exact (performs_commit text).adaptExcept SessionError.formula
  | setColors settings => exact performs_setColors settings
  | reset => exact performs_reset

theorem performs_dispatch (text : String) : Performs (dispatch text) (·.dispatch text) := by
  intro s
  unfold dispatch Session.dispatch
  cases Event.ofText? text with
  | some e => exact performs_apply e s
  | none => rfl

end Edit

/-- A change in place has the outcome of the change. -/
theorem performs_edit (c : Change) : Edit.Performs (edit c) (·.change c) := by
  cases c with
  | pan d => exact (Edit.performs_pan d).adaptExcept SessionError.input
  | zoom factor => exact (Edit.performs_zoom factor).adaptExcept SessionError.input
  | zoomAt factor pixel => exact (Edit.performs_zoomAt factor pixel).adaptExcept SessionError.input
  | zoomNotches notches pixel =>
    exact (Edit.performs_zoomNotches notches pixel).adaptExcept SessionError.input
  | resize canvas => exact (Edit.performs_resize canvas).adaptExcept SessionError.input
  | commit text => exact (Edit.performs_commit text).adaptExcept SessionError.formula
  | setColors settings => exact Edit.performs_setColors settings
  | reset => exact Edit.performs_reset
  | apply e => exact Edit.performs_apply e
  | dispatch text => exact Edit.performs_dispatch text

section Step

variable {s t : Session} {c : Change}

theorem step_change_of_ok (accepted : s.change c = .ok t) :
    s.step (.change c) = ⟨t, .accepted, none, s.changeLog c⟩ := by
  simp only [step, performs_edit c s, accepted]

theorem step_change_of_error {cause : SessionError} (refused : s.change c = .error cause) :
    s.step (.change c) = ⟨s, .refused cause, none, s.changeLog c⟩ := by
  simp only [step, performs_edit c s, refused]

end Step

/-- A change that is refused, whatever session it meets and whatever check refuses it, leaves every
field of the session as it was. -/
theorem eq_of_run_edit_error {s t : Session} {c : Change} {cause : SessionError}
    (refused : (edit c).run s = .error cause t) :
    t = s ∧ s.step (.change c) = ⟨s, .refused cause, none, s.changeLog c⟩ := by
  obtain ⟨outcome, same⟩ := (performs_edit c).eq_of_run_error refused
  exact ⟨same, step_change_of_error outcome⟩

/-- A window so far out that zooming in about a corner would move it out of range. -/
def farOut : Session := standard.after [.tick 1, .change (.pan ⟨1e300, 0⟩), .tick 1]

/-- Zooming in there is refused by the last check, after the new scale has been accepted. -/
theorem eq_of_run_edit_error_farOut :
    let factor : Float := 1e-10
    let cause := SessionError.input
      (.nonFiniteOffset (farOut.view.anchoredPan factor (farOut.canvas.centerOffset ⟨0, 0⟩)))
    farOut.view.zoomedScale factor = .ok (farOut.view.scale * factor) ∧
      ∃ t, (edit (.zoomAt factor ⟨0, 0⟩)).run farOut = .error cause t ∧ t = farOut := by
  intro factor cause
  have zoomed : farOut.view.zoomedScale factor = .ok (farOut.view.scale * factor) :=
    View.zoomedScale_eq_ok (by decide +kernel) (by decide +kernel) (by decide +kernel)
  have outcome : farOut.change (.zoomAt factor ⟨0, 0⟩) = .error cause := by
    have finite : (farOut.canvas.centerOffset ⟨0, 0⟩ : Point Float).isFinite = true := by
      decide +kernel
    have infinite : (farOut.view.anchoredPan factor (farOut.canvas.centerOffset ⟨0, 0⟩)).isFinite =
        false := by decide +kernel
    have moved := View.zoomAt_of_zoomedScale finite zoomed
    rw [infinite] at moved
    simp only [change, zoomAt, View.zoomAtPixel, moved]
    rfl
  have refused : (edit (.zoomAt factor ⟨0, 0⟩)).run farOut = .error cause farOut := by
    simp only [performs_edit (.zoomAt factor ⟨0, 0⟩) farOut, outcome]
  exact ⟨zoomed, farOut, refused, (eq_of_run_edit_error refused).1⟩

end DomainColoring.Session
