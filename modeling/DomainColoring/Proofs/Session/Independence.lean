import DomainColoring.Proofs.Session.Schedules

/-!
# Changes that may be done in either order

A commit reads the preset alone and writes the formula alone; new colours read nothing and write the
colours alone. What either does is therefore the same in every session of a preset (`Blind`), and a
change that neither reads nor writes what it writes passes it by (`Passes`), so the two may be done in
either order (`step_swap`). Not every two changes are like that: a zoom about a pixel reads the canvas
that a resize writes, and a reset writes the colours.
-/

namespace DomainColoring

/-- What a change is about. -/
inductive Concern where
  | view
  | canvas
  | formula
  | colors
  /-- The view and the colours. -/
  | reset
  /-- A text that encodes no event. -/
  | nothing
deriving DecidableEq, Repr

def Event.concern : Event → Concern
  | pan _ => .view
  | zoom _ => .view
  | zoomAt _ _ => .view
  | resize _ => .canvas
  | commit _ => .formula
  | setColors _ => .colors
  | reset => .reset

namespace Change

def concern : Change → Concern
  | pan _ => .view
  | zoom _ => .view
  | zoomAt _ _ => .view
  | zoomNotches _ _ => .view
  | resize _ => .canvas
  | commit _ => .formula
  | setColors _ => .colors
  | reset => .reset
  | apply e => e.concern
  | dispatch text => ((Event.ofText? text).map Event.concern).getD .nothing

/-- A commit and any change but a commit, or new colours and any change but new colours and a reset. -/
def Independent (c d : Change) : Prop :=
  (c.concern = .formula ∧ d.concern ≠ .formula) ∨
    (c.concern = .colors ∧ d.concern ≠ .colors ∧ d.concern ≠ .reset)

instance (c d : Change) : Decidable (c.Independent d) := inferInstanceAs (Decidable (_ ∨ _))

theorem concern_of_event? {preset : Preset} {c : Change} {e : Event}
    (h : c.event? preset = some e) : c.concern = e.concern := by
  cases c with
  | dispatch text =>
    have read : Event.ofText? text = some e := h
    rw [concern, read]
    rfl
  | _ =>
    cases h
    rfl

/-- A change that is about something is an event under any preset. -/
theorem exists_event {c : Change} (h : c.concern ≠ .nothing) (preset : Preset) :
    ∃ e : Event, c.event? preset = some e := by
  cases c with
  | dispatch text =>
    cases read : Event.ofText? text with
    | some e => exact ⟨e, read⟩
    | none =>
      rw [concern, read] at h
      exact absurd rfl h
  | _ => exact ⟨_, rfl⟩

end Change

namespace Session

/-- The change does the same in every session of a preset: it refuses for one cause or writes. -/
def Blind (preset : Preset) (c : Change) (outcome : Except SessionError (Session → Session)) : Prop :=
  ∀ s : Session, s.preset = preset → s.change c = outcome.map (· s)

/-- The change yields after a write what it yields before it, written to. -/
def Passes (write : Session → Session) (d : Change) : Prop :=
  ∀ s : Session, (write s).change d = (s.change d).map write

/-- The session with a formula installed. -/
def install (e : Expr) (text : String) (s : Session) : Session :=
  { s with expression := e, source := text }.marked

section Passes

variable {d : Change}

theorem passes_of_apply {write : Session → Session} (preset : ∀ s, (write s).preset = s.preset)
    (h : ∀ e s, e.concern = d.concern → (write s).apply e = (s.apply e).map write) :
    Passes write d := by
  intro s
  rw [change_eq_apply, change_eq_apply s, preset]
  cases event : d.event? s.preset with
  | some e => exact h e s (Change.concern_of_event? event).symm
  | none => rfl

/-- Only a commit looks at the formula or replaces it. -/
theorem passes_install (other : d.concern ≠ .formula) (e : Expr) (text : String) :
    Passes (install e text) d := by
  refine passes_of_apply (fun _ => rfl) fun event s same => ?_
  cases event with
  | pan d =>
    simp only [apply, pan, install, marked]
    cases s.view.panBy d <;> rfl
  | zoom factor =>
    simp only [apply, zoom, install, marked]
    cases s.view.zoomBy factor <;> rfl
  | zoomAt factor pixel =>
    simp only [apply, zoomAt, install, marked]
    cases s.view.zoomAtPixel s.canvas factor pixel <;> rfl
  | resize canvas =>
    simp only [apply, resize, install, marked]
    cases checkBudget s.preset canvas <;> rfl
  | commit text => exact absurd same.symm other
  | setColors settings => rfl
  | reset => rfl

/-- Only new colours and a reset replace the colours, and no change looks at them. -/
theorem passes_setColors (other : d.concern ≠ .colors) (noReset : d.concern ≠ .reset)
    (settings : ColorSettings Float) : Passes (·.setColors settings) d := by
  refine passes_of_apply (fun _ => rfl) fun event s same => ?_
  cases event with
  | pan d =>
    simp only [apply, pan, setColors, marked]
    cases s.view.panBy d <;> rfl
  | zoom factor =>
    simp only [apply, zoom, setColors, marked]
    cases s.view.zoomBy factor <;> rfl
  | zoomAt factor pixel =>
    simp only [apply, zoomAt, setColors, marked]
    cases s.view.zoomAtPixel s.canvas factor pixel <;> rfl
  | resize canvas =>
    simp only [apply, resize, setColors, marked]
    cases checkBudget s.preset canvas <;> rfl
  | commit text =>
    simp only [apply, commit, setColors, marked]
    cases compile s.preset.compile text <;> rfl
  | setColors settings => exact absurd same.symm other
  | reset => exact absurd same.symm noReset

end Passes

section Swap

variable {c d : Change} {preset : Preset}

/-- The first of two independent changes is blind, and the second passes by what it writes. -/
theorem exists_write (independent : c.Independent d) (preset : Preset) :
    ∃ outcome, Blind preset c outcome ∧ ∀ write, outcome = .ok write → Passes write d := by
  rcases independent with ⟨formula, other⟩ | ⟨colors, other, noReset⟩
  · obtain ⟨e, event⟩ := Change.exists_event (by rw [formula]; decide) preset
    have concern := (Change.concern_of_event? event).symm.trans formula
    cases e with
    | commit text =>
      refine ⟨((compile preset.compile text).map fun e => install e text).mapError .formula, ?_, ?_⟩
      · rintro s rfl
        rw [change_eq_apply, event]
        simp only [apply, commit]
        cases compile s.preset.compile text <;> rfl
      · intro write ok
        obtain ⟨e, -, rfl⟩ := exists_of_map_ok (ok_of_mapError ok)
        exact passes_install other e text
    | _ => cases concern
  · obtain ⟨e, event⟩ := Change.exists_event (by rw [colors]; decide) preset
    have concern := (Change.concern_of_event? event).symm.trans colors
    cases e with
    | setColors settings =>
      refine ⟨.ok (·.setColors settings), ?_, ?_⟩
      · rintro s rfl
        rw [change_eq_apply, event]
        rfl
      · rintro write ⟨⟩
        exact passes_setColors other noReset settings
    | _ => cases concern

/-- Two independent changes lead to one session in either order, and each has one outcome. -/
theorem step_swap (independent : c.Independent d) (s : Session) :
    ((s.step (.change c)).session.step (.change d)).session =
        ((s.step (.change d)).session.step (.change c)).session ∧
      ((s.step (.change c)).session.step (.change d)).answer = (s.step (.change d)).answer ∧
      ((s.step (.change d)).session.step (.change c)).answer = (s.step (.change c)).answer := by
  obtain ⟨outcome, blind, writes⟩ := exists_write independent s.preset
  have here := blind s rfl
  cases changed : s.change d with
  | error cause =>
    rw [step_change_of_error changed]
    cases outcome with
    | error reason =>
      rw [step_change_of_error here, step_change_of_error changed]
      exact ⟨rfl, rfl, rfl⟩
    | ok write =>
      have after := writes write rfl s
      rw [changed] at after
      rw [step_change_of_ok here, step_change_of_error after]
      exact ⟨rfl, rfl, rfl⟩
  | ok t =>
    have there := blind t (accepted_of_change changed).frame.2.1
    rw [step_change_of_ok changed]
    cases outcome with
    | error reason =>
      rw [step_change_of_error here, step_change_of_ok changed, step_change_of_error there]
      exact ⟨rfl, rfl, rfl⟩
    | ok write =>
      have after := writes write rfl s
      rw [changed] at after
      rw [step_change_of_ok here, step_change_of_ok after, step_change_of_ok there]
      exact ⟨rfl, rfl, rfl⟩

/-- A reset is not independent of new colours, which it replaces. -/
example :
    let settings : ColorSettings Float := ⟨.twoSegmentRamp, 1, 2⟩
    (standard.after [.change .reset, .change (.setColors settings)]).colors ≠
      (standard.after [.change (.setColors settings), .change .reset]).colors := by
  decide +kernel

end Swap

section Run

variable (s : Session)

theorem after_append (cs ds : List Command) : s.after (cs ++ ds) = (s.after cs).after ds :=
  List.foldl_append

theorem outcomes_append (cs ds : List Command) :
    s.outcomes (cs ++ ds) = s.outcomes cs ++ (s.after cs).outcomes ds := by
  induction cs generalizing s with
  | nil => rfl
  | cons c cs ih =>
    rw [List.cons_append, outcomes_cons, outcomes_cons, ih, List.append_assoc]
    rfl

/-- Every change has an outcome. -/
theorem outcomes_cons_change (c : Change) (cs : List Command) :
    ∃ x, (s.step (.change c)).answer.outcome? = some x ∧
      s.outcomes (.change c :: cs) = x :: (s.step (.change c)).session.outcomes cs := by
  rw [outcomes_cons]
  rcases s.step_change c with ⟨t, -, reply⟩ | ⟨cause, reply⟩
  · rw [reply]
    exact ⟨.ok (), rfl, rfl⟩
  · rw [reply]
    exact ⟨.error cause, rfl, rfl⟩

theorem length_outcomes (cs : List Change) : (s.outcomes (cs.map .change)).length = cs.length := by
  induction cs generalizing s with
  | nil => rfl
  | cons c cs ih =>
    obtain ⟨x, -, outcomes⟩ := s.outcomes_cons_change c (cs.map .change)
    rw [List.map_cons, outcomes, List.length_cons, ih, List.length_cons]

/-- Two independent changes one after the other may be swapped: both have the outcomes that they had,
and so has whatever comes after them. -/
theorem outcomes_swap {c d : Change} (independent : c.Independent d) (cs : List Command) :
    ∃ x y rest, s.outcomes (.change c :: .change d :: cs) = x :: y :: rest ∧
      s.outcomes (.change d :: .change c :: cs) = y :: x :: rest ∧
      s.after (.change c :: .change d :: cs) = s.after (.change d :: .change c :: cs) := by
  obtain ⟨session, second, first⟩ := s.step_swap independent
  obtain ⟨x, outcome, before⟩ := s.outcomes_cons_change c (.change d :: cs)
  obtain ⟨y, outcome', after⟩ := s.outcomes_cons_change d (.change c :: cs)
  obtain ⟨y', later, before'⟩ := (s.step (.change c)).session.outcomes_cons_change d cs
  obtain ⟨x', later', after'⟩ := (s.step (.change d)).session.outcomes_cons_change c cs
  rw [second, outcome'] at later
  rw [first, outcome] at later'
  cases later
  cases later'
  rw [before, before', after, after', session]
  refine ⟨x, y, _, rfl, rfl, ?_⟩
  exact congrArg (·.after cs) session

end Run

/-- What is done to a session settles what is seen; when ticks and frames come in between does not.
With them or without them, whatever renderers answer, every change has the same outcome, the scene at
the end is the same, and so is the mesh after a last tick. Two independent changes one after the other
may moreover be swapped: every change has the outcome that it had, and the session is the same in all,
also after any more commands. -/
theorem settled_by_changes {preset : Preset} {s₀ : Session} (start : Starts preset s₀) :
    (∀ (cs : List Command) (ms ms' : Float),
      s₀.outcomes cs = s₀.outcomes (changesOnly cs) ∧
        (s₀.after cs).scene = (s₀.after (changesOnly cs)).scene ∧
        (s₀.after (cs ++ [.tick ms])).mesh = (s₀.after (changesOnly cs ++ [.tick ms'])).mesh) ∧
      ∀ (before after : List Change) (c d : Change), c.Independent d ∨ d.Independent c →
        let first := (before ++ c :: d :: after).map Command.change
        let second := (before ++ d :: c :: after).map Command.change
        (∃ xs x y ys, xs.length = before.length ∧ s₀.outcomes first = xs ++ x :: y :: ys ∧
          s₀.outcomes second = xs ++ y :: x :: ys) ∧
          ∀ cs, s₀.after (first ++ cs) = s₀.after (second ++ cs) := by
  constructor
  · intro cs ms ms'
    refine ⟨outcomes_eq rfl cs, scene_after rfl cs, ?_⟩
    rw [after_append, after_append]
    exact mesh_tick_of_changes start cs ms ms'
  · intro before after c d independent
    dsimp only
    simp only [List.map_append, List.map_cons, outcomes_append, after_append]
    rcases independent with independent | independent
    · obtain ⟨x, y, ys, first, second, same⟩ :=
        (s₀.after (before.map .change)).outcomes_swap independent (after.map .change)
      rw [first, second, same]
      exact ⟨⟨_, x, y, ys, s₀.length_outcomes before, rfl, rfl⟩, fun _ => rfl⟩
    · obtain ⟨y, x, ys, second, first, same⟩ :=
        (s₀.after (before.map .change)).outcomes_swap independent (after.map .change)
      rw [first, second, same]
      exact ⟨⟨_, x, y, ys, s₀.length_outcomes before, rfl, rfl⟩, fun _ => rfl⟩

/-- A refused zoom and a commit that comes to nothing, with a renderer that is lost in between. -/
def interrupted : List Command :=
  [.tick 1, .change (.resize ⟨10, 5⟩), .frame 2 (.error (.resourceUnavailable "no context")),
    .change (.zoom 0), .tick 1, .change (.commit "(")]

theorem settled_by_changes_interrupted :
    let resize : Change := .resize ⟨10, 5⟩
    let plain : List Command := [.change resize, .change (.zoom 0), .change (.commit "(")]
    let swapped : List Command := [.change resize, .change (.commit "("), .change (.zoom 0)]
    (standard.after (interrupted ++ [.tick 1])).mesh = (standard.after (plain ++ [.tick 3])).mesh ∧
      (Change.commit "(").Independent (.zoom 0) ∧
      standard.after (swapped ++ [.tick 1]) = standard.after (plain ++ [.tick 1]) := by
  intro resize plain swapped
  obtain ⟨interleaved, swaps⟩ := settled_by_changes (.standard rfl)
  have independent : (Change.commit "(").Independent (.zoom 0) := by decide
  obtain ⟨-, same⟩ := swaps [resize] [] (.commit "(") (.zoom 0) (.inl independent)
  exact ⟨(interleaved interrupted 1 3).2.2, independent, same [.tick 1]⟩

end Session

end DomainColoring
