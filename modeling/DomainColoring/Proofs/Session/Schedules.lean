import DomainColoring.Proofs.Session.Frames

/-!
# Ticks and frames among changes

What a change does is decided by the preset and by what the picture is made of (`Scene`): no change
looks at the mesh, at its figures, at whether a rebuild is due or at a failure to draw. Ticks and frames
touch nothing else, so a history has the outcomes and the scene of its changes alone (`outcomes_eq`,
`scene_after`), and since a tick leaves the picture of the scene, that of its changes alone
(`mesh_tick_of_changes`).
-/

namespace DomainColoring

/-- The change that a command is, unless it is a tick or a frame. -/
def Command.change? : Command → Option Change
  | .change c => some c
  | _ => none

theorem Command.eq_of_change? {c : Command} {d : Change} (h : c.change? = some d) :
    c = .change d := by
  cases c with
  | change c => exact congrArg Command.change (Option.some.inj h)
  | tick ms => cases h
  | frame ms answer => cases h

/-- The event that a change amounts to under a preset; none if it is a text that encodes none. -/
def Change.event? (preset : Preset) : Change → Option Event
  | pan d => some (.pan d)
  | zoom factor => some (.zoom factor)
  | zoomAt factor pixel => some (.zoomAt factor pixel)
  | zoomNotches notches pixel => some (.zoomAt (Elementary.pow preset.zoomStep notches) pixel)
  | resize canvas => some (.resize canvas)
  | commit text => some (.commit text)
  | setColors settings => some (.setColors settings)
  | reset => some .reset
  | apply e => some e
  | dispatch text => Event.ofText? text

/-- What became of a change. -/
def Answer.outcome? : Answer → Option (Except SessionError Unit)
  | .accepted => some (.ok ())
  | .refused cause => some (.error cause)
  | _ => none

namespace Session

/-- The preset and what the picture is made of. -/
structure Scene where
  preset : Preset
  view : View Float
  canvas : Canvas
  expression : Expr
  source : String
  colors : ColorSettings Float
deriving DecidableEq, Repr

def scene (s : Session) : Scene := ⟨s.preset, s.view, s.canvas, s.expression, s.source, s.colors⟩

/-- What became of the changes among some commands. -/
def outcomes (s : Session) (cs : List Command) : List (Except SessionError Unit) :=
  (s.run cs).filterMap fun reply => reply.answer.outcome?

/-- The changes among some commands, as commands without any tick or frame. -/
def changesOnly (cs : List Command) : List Command := (cs.filterMap Command.change?).map .change

/-- Every change is an event or refused as none. -/
theorem change_eq_apply (s : Session) (c : Change) :
    s.change c = match c.event? s.preset with
      | some e => s.apply e
      | none => .error .malformedEvent := by
  cases c <;> rfl

/-- Sessions of one scene differ in what ticks, frames and renderers leave behind. -/
theorem eq_of_scene_eq {s t : Session} (h : s.scene = t.scene) :
    t = { s with state := t.state, mesh := t.mesh, stats := t.stats, failure := t.failure } := by
  cases s
  cases t
  cases h
  rfl

theorem picture_of_scene_eq {s t : Session} (h : s.scene = t.scene) : s.picture = t.picture := by
  rw [eq_of_scene_eq h]
  rfl

section Change

variable (s : Session) (state : MeshState) (mesh : Mesh) (stats : RebuildStats)
  (failure : Option RenderError)

theorem apply_record (e : Event) :
    { s with state, mesh, stats, failure }.apply e =
      (s.apply e).map fun t => { t with mesh, stats, failure } := by
  cases e with
  | pan d =>
    simp only [apply, pan]
    cases s.view.panBy d <;> rfl
  | zoom factor =>
    simp only [apply, zoom]
    cases s.view.zoomBy factor <;> rfl
  | zoomAt factor pixel =>
    simp only [apply, zoomAt]
    cases s.view.zoomAtPixel s.canvas factor pixel <;> rfl
  | resize canvas =>
    simp only [apply, resize]
    cases checkBudget s.preset canvas <;> rfl
  | commit text =>
    simp only [apply, commit]
    cases compile s.preset.compile text <;> rfl
  | setColors settings => rfl
  | reset => rfl

/-- A change passes by what it does not look at. -/
theorem change_record (c : Change) :
    { s with state, mesh, stats, failure }.change c =
      (s.change c).map fun t => { t with mesh, stats, failure } := by
  rw [change_eq_apply, change_eq_apply s]
  cases c.event? s.preset with
  | some e => exact apply_record s state mesh stats failure e
  | none => rfl

end Change

/-- In sessions of one scene a change has one outcome and leads to one scene. -/
theorem step_change_of_scene_eq {s t : Session} (h : s.scene = t.scene) (c : Change) :
    (s.step (.change c)).answer = (t.step (.change c)).answer ∧
      (s.step (.change c)).session.scene = (t.step (.change c)).session.scene := by
  have same := change_record s t.state t.mesh t.stats t.failure c
  rw [← eq_of_scene_eq h] at same
  cases changed : s.change c with
  | ok u =>
    rw [changed] at same
    rw [step_change_of_ok changed, step_change_of_ok same]
    exact ⟨rfl, rfl⟩
  | error cause =>
    rw [changed] at same
    rw [step_change_of_error changed, step_change_of_error same]
    exact ⟨rfl, h⟩

theorem scene_tick (s : Session) (ms : Float) : (s.tick ms).1.scene = s.scene := by
  cases dirty : s.isDirty with
  | true =>
    rw [tick_of_dirty ms dirty]
    rfl
  | false => rw [tick_of_clean ms dirty]

/-- Ticks and frames leave the scene, whatever a renderer answers, and are no changes. -/
theorem step_of_change?_none (s : Session) {c : Command} (other : c.change? = none) :
    (s.step c).answer.outcome? = none ∧ (s.step c).session.scene = s.scene := by
  cases c with
  | change c => cases other
  | tick ms => exact ⟨rfl, s.scene_tick ms⟩
  | frame ms answer =>
    cases latched : s.failure with
    | some e =>
      rw [step_frame_of_failure ms latched]
      exact ⟨rfl, rfl⟩
    | none =>
      rw [step_frame_of_free ms latched]
      exact ⟨rfl, s.scene_tick ms⟩

section Run

variable {s t : Session}

theorem changesOnly_cons_change (c : Change) (cs : List Command) :
    changesOnly (.change c :: cs) = .change c :: changesOnly cs := rfl

theorem changesOnly_cons_other {c : Command} (other : c.change? = none) (cs : List Command) :
    changesOnly (c :: cs) = changesOnly cs := by
  rw [changesOnly, List.filterMap_cons_none other]
  rfl

theorem outcomes_cons (s : Session) (c : Command) (cs : List Command) :
    s.outcomes (c :: cs) =
      (s.step c).answer.outcome?.toList ++ (s.step c).session.outcomes cs := by
  rw [outcomes, run, List.filterMap_cons]
  cases (s.step c).answer.outcome? <;> rfl

/-- Two sessions of one scene, of which one is given ticks and frames besides, stay of one scene. -/
theorem scene_after (h : s.scene = t.scene) (cs : List Command) :
    (s.after cs).scene = (t.after (changesOnly cs)).scene := by
  induction cs generalizing s t with
  | nil => exact h
  | cons c cs ih =>
    cases kind : c.change? with
    | none =>
      rw [changesOnly_cons_other kind]
      exact ih ((s.step_of_change?_none kind).2.trans h)
    | some d =>
      obtain rfl := Command.eq_of_change? kind
      exact ih (step_change_of_scene_eq h d).2

theorem outcomes_eq (h : s.scene = t.scene) (cs : List Command) :
    s.outcomes cs = t.outcomes (changesOnly cs) := by
  induction cs generalizing s t with
  | nil => rfl
  | cons c cs ih =>
    cases kind : c.change? with
    | none =>
      obtain ⟨silent, kept⟩ := s.step_of_change?_none kind
      rw [changesOnly_cons_other kind, outcomes_cons, silent]
      exact ih (kept.trans h)
    | some d =>
      obtain rfl := Command.eq_of_change? kind
      obtain ⟨answer, scene⟩ := step_change_of_scene_eq h d
      rw [changesOnly_cons_change, outcomes_cons, outcomes_cons, answer, ih scene]

end Run

/-- A tick at the end leaves the mesh that it leaves without the ticks and frames before it. -/
theorem mesh_tick_of_changes {preset : Preset} {s₀ : Session} (start : Starts preset s₀)
    (cs : List Command) (ms ms' : Float) :
    ((s₀.after cs).tick ms).1.mesh = ((s₀.after (changesOnly cs)).tick ms').1.mesh := by
  have coherent (ds : List Command) : Coherent (s₀.after ds) :=
    keeps_after Coherent.move ds start.coherent
  rw [(coherent cs).mesh_tick, (coherent (changesOnly cs)).mesh_tick]
  exact picture_of_scene_eq (scene_after rfl cs)

end Session

end DomainColoring
