import DomainColoring.Proofs.Event.Decoding
import DomainColoring.Session.Command

/-!
# Dispatching a text is applying its event

A text does what the event it stands for does, and a text that stands for none is refused whatever
session it meets. So what the round trip of an event (`Event.ofText?_text`) keeps and loses decides
what the session does with its text.
-/

namespace DomainColoring.Session

open JsonText

section Dispatch

variable {text : String}

theorem step_dispatch_of_some {e : Event} (read : Event.ofText? text = some e) (s : Session) :
    s.step (.change (.dispatch text)) = s.step (.change (.apply e)) := by
  simp only [step, edit, changeLog, Edit.dispatch, dispatchLog, read]

theorem step_dispatch_of_none (unread : Event.ofText? text = none) (s : Session) :
    s.step (.change (.dispatch text)) = ⟨s, .refused .malformedEvent, none, []⟩ := by
  simp only [step, edit, changeLog, Edit.dispatch, dispatchLog, unread]
  rfl

end Dispatch

/-- With a machine number that is not finite the text of an event is no event, and to dispatch it is
refused and changes nothing. Otherwise, if its machine numbers are each read back from their own
shortest texts, the text is read as the event, whatever strings and sizes it has, and does what the
event does. An event that comes from any text at all has only finite machine numbers, so writing it
loses nothing. -/
theorem dispatch_text (e : Event) :
    ((∃ x ∈ e.floats, x.isFinite = false) →
      Event.ofText? e.text = none ∧
        ∀ s : Session,
          s.step (.change (.dispatch e.text)) = ⟨s, .refused .malformedEvent, none, []⟩) ∧
    ((∀ x ∈ e.floats, x.isFinite = true → reread x = some x) →
      ((∀ x ∈ e.floats, x.isFinite = true) →
        Event.ofText? e.text = some e ∧
          ∀ s : Session, s.step (.change (.dispatch e.text)) = s.step (.change (.apply e))) ∧
      ∀ text, Event.ofText? text = some e → Event.ofText? e.text = some e) := by
  rw [Event.ofText?_text]
  refine ⟨fun ⟨x, inside, infinite⟩ => ?_, fun back => ?_⟩
  · have unread := Event.mapFloats?_eq_none inside (reread_of_not_finite infinite)
    exact ⟨unread, step_dispatch_of_none ((Event.ofText?_text e).trans unread)⟩
  · have whole (finite : ∀ x ∈ e.floats, x.isFinite = true) : e.mapFloats? reread = some e :=
      Event.mapFloats?_eq_self fun x inside => back x inside (finite x inside)
    refine ⟨fun finite => ⟨whole finite, ?_⟩, fun text read => ?_⟩
    · exact step_dispatch_of_some ((Event.ofText?_text e).trans (whole finite))
    · exact whole (Event.isFinite_of_ofText? read)

/-- A zoom that is given as an array of its fields, and a drag by what is no number. -/
theorem dispatch_text_zoomAt :
    let e := Event.zoomAt 1.25 ⟨-640, 1e-7⟩
    let undefined := Event.pan ⟨0.5, Binary64.notANumber⟩
    Event.ofText? "[\"ZoomAt\", 1.25, -640, 0.1e-6]" = some e ∧ Event.ofText? e.text = some e ∧
      (∀ s : Session, s.step (.change (.dispatch e.text)) = s.step (.change (.apply e))) ∧
      ∀ s : Session,
        s.step (.change (.dispatch undefined.text)) = ⟨s, .refused .malformedEvent, none, []⟩ := by
  intro e undefined
  have written : Event.ofText? "[\"ZoomAt\", 1.25, -640, 0.1e-6]" = some e := by decide +kernel
  have finite : ∀ x ∈ e.floats, x.isFinite = true := by decide +kernel
  have back : ∀ x ∈ e.floats, reread x = some x := by decide +kernel
  have infinite : ∃ x ∈ undefined.floats, x.isFinite = false := by decide +kernel
  obtain ⟨applied, rewritten⟩ := (dispatch_text e).2 fun x inside _ => back x inside
  exact ⟨written, rewritten _ written, (applied finite).2, ((dispatch_text undefined).1 infinite).2⟩

end DomainColoring.Session
