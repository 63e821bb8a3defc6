import DomainColoring.Proofs.Session.History

/-!
# Replies in a history

The reply to a command of a history is the step of that command in the session that the commands
before it have led to (`getElem?_run`). So what is shown of one step in any session is shown of every
reply. A frame draws at most once, and what it draws is the mesh that it leaves.
-/

namespace DomainColoring

/-- The fatal failure that a renderer answers a command with, if it is asked to draw. -/
def Command.fatal? : Command → Option RenderError
  | .frame _ (.error e) => if e.isFatal then some e else none
  | _ => none

namespace Session

section Run

variable (s : Session)

theorem after_take_succ {cs : List Command} {i : Nat} {c : Command} (here : cs[i]? = some c) :
    s.after (cs.take (i + 1)) = ((s.after (cs.take i)).step c).session := by
  rw [List.take_add_one, here]
  exact List.foldl_append

/-- The reply at a place of a history. -/
theorem getElem?_run (cs : List Command) (i : Nat) :
    (s.run cs)[i]? = cs[i]?.map (s.after (cs.take i)).step := by
  induction cs generalizing s i with
  | nil => rfl
  | cons c cs ih =>
    cases i with
    | zero => rfl
    | succ i => exact ih (s.step c).session i

theorem exists_of_mem_run {cs : List Command} {reply : Reply} (h : reply ∈ s.run cs) :
    ∃ i c, cs[i]? = some c ∧ reply = (s.after (cs.take i)).step c := by
  obtain ⟨i, here⟩ := List.mem_iff_getElem?.1 h
  rw [getElem?_run, Option.map_eq_some_iff] at here
  obtain ⟨c, here, rfl⟩ := here
  exact ⟨i, c, here, rfl⟩

end Run

theorem Starts.preset_after {preset : Preset} {s₀ : Session} (start : Starts preset s₀)
    (cs : List Command) : (s₀.after cs).preset = preset := by
  obtain ⟨canvas, rfl, -⟩ := start.eq_start
  exact Session.preset_after _ cs

section Change

variable (s : Session) (c : Change)

/-- A change is accepted, or refused without an effect. -/
theorem step_change :
    (∃ t, Accepted s t ∧ s.step (.change c) = ⟨t, .accepted, none, s.changeLog c⟩) ∨
      ∃ cause, s.step (.change c) = ⟨s, .refused cause, none, s.changeLog c⟩ := by
  cases changed : s.change c with
  | ok t => exact .inl ⟨t, accepted_of_change changed, step_change_of_ok changed⟩
  | error cause => exact .inr ⟨cause, step_change_of_error changed⟩

theorem drawn_step_change : (s.step (.change c)).drawn = none := by
  rcases step_change s c with ⟨t, -, reply⟩ | ⟨cause, reply⟩ <;> rw [reply]

theorem log_step_change : (s.step (.change c)).log = s.changeLog c := by
  rcases step_change s c with ⟨t, -, reply⟩ | ⟨cause, reply⟩ <;> rw [reply]

end Change

section Tick

variable (s : Session) (ms : Float)

theorem isDirty_tick : (s.tick ms).1.isDirty = false := by
  cases dirty : s.isDirty with
  | true =>
    rw [tick_of_dirty ms dirty]
    rfl
  | false =>
    rw [tick_of_clean ms dirty]
    exact dirty

/-- A tick tells whether the session was dirty. -/
theorem tick_rebuilt : (s.tick ms).2 = s.isDirty := by
  cases dirty : s.isDirty with
  | true => rw [tick_of_dirty ms dirty]
  | false => rw [tick_of_clean ms dirty]

end Tick

section Frame

variable {s : Session} (ms : Float)

/-- A frame after a fatal failure repeats it and does nothing else. -/
theorem step_frame_of_failure {e : RenderError} (latched : s.failure = some e)
    (answer : Except RenderError Unit) :
    s.step (.frame ms answer) = ⟨s, .framed (.error e), none, []⟩ := by
  simp only [step, frame, latched]

/-- Every other frame ticks and has the mesh drawn. All that depends on the answer is what is passed
on, noted and reported. -/
theorem step_frame_of_free (free : s.failure = none) (answer : Except RenderError Unit) :
    s.step (.frame ms answer) =
      { session := { (s.tick ms).1 with failure := (Command.frame ms answer).fatal? }
        answer := .framed (answer.map fun _ => s.isDirty)
        drawn := some (s.tick ms).1.mesh
        log := match answer with
          | .ok _ => []
          | .error e => [.error e.message] } := by
  have ticked : (s.tick ms).1.failure = none := (failure_tick s ms).trans free
  have unnoted : { (s.tick ms).1 with failure := none } = (s.tick ms).1 := by rw [← ticked]
  rw [← s.tick_rebuilt ms]
  cases answer with
  | ok _ =>
    simp only [step, frame, free, Command.fatal?, unnoted]
    rfl
  | error e =>
    simp only [step, frame, free, Command.fatal?, failed]
    cases e.isFatal with
    | true => rfl
    | false =>
      simp only [Bool.false_eq_true, if_false, unnoted]
      rfl

/-- What is handed over is the mesh of the session that the step leaves. -/
theorem mesh_of_drawn {c : Command} {m : Mesh} (h : (s.step c).drawn = some m) :
    (s.step c).session.mesh = m := by
  cases c with
  | change c =>
    rw [drawn_step_change] at h
    cases h
  | tick ms => cases h
  | frame ms answer =>
    cases latched : s.failure with
    | some e =>
      rw [step_frame_of_failure ms latched] at h
      cases h
    | none =>
      rw [step_frame_of_free ms latched] at h ⊢
      exact Option.some.inj h

end Frame

end Session

end DomainColoring
