import DomainColoring.Proofs.Session.Coherence
import DomainColoring.Proofs.Session.Replies
import DomainColoring.Session.Renderer

/-!
# Frames and the fatal failure

Until a renderer first answers that it is unavailable, every frame draws once, and draws the picture
of the session as it is. From that answer on every frame repeats it and does nothing else. The note of
it is told from the history alone (`failure_after`), so nothing else sets it and nothing clears it.
-/

namespace DomainColoring

/-- Why drawing failed, if a mesh was handed over and could not be drawn. -/
def Reply.drawFailure? (reply : Reply) : Option RenderError :=
  match reply.drawn, reply.answer with
  | some _, .framed (.error e) => some e
  | _, _ => none

def LogLine.isError (line : LogLine) : Bool := line.level = .error

namespace Session

section Present

variable {m : Type → Type} [Monad m] (renderer : Renderer m) {s : Session} (ms : Float)

/-- After a fatal failure a renderer is asked for nothing. -/
theorem present_of_failure {e : RenderError} (latched : s.failure = some e) :
    s.present renderer ms = pure (s, .error e) := by
  simp only [present, latched]

/-- Otherwise a renderer is asked to draw once, and told what the frame reports of its answer. -/
theorem present_of_free [LawfulMonad m] (free : s.failure = none) :
    s.present renderer ms = (do
      let answer ← renderer.draw (s.tick ms).1.mesh
      let f := s.frame ms fun _ => answer
      f.log.forM renderer.report
      pure (f.session, f.result)) := by
  simp only [present, frame, free]
  refine bind_congr fun answer => ?_
  cases answer with
  | ok _ => simp only [List.forM_eq_forM, List.forM_nil, pure_bind]
  | error e => simp only [List.forM_eq_forM, List.forM_cons, List.forM_nil, bind_assoc, pure_bind]

end Present

section Failure

/-- The note of a fatal failure after a command: the first stays. -/
theorem failure_step (s : Session) (c : Command) :
    (s.step c).session.failure = s.failure.or c.fatal? := by
  cases c with
  | change c =>
    change _ = s.failure.or none
    rw [Option.or_none]
    rcases s.step_change c with ⟨t, accepted, reply⟩ | ⟨cause, reply⟩
    · rw [reply]
      exact accepted.frame.2.2.2.2
    · rw [reply]
  | tick ms =>
    change _ = s.failure.or none
    rw [Option.or_none]
    exact failure_tick s ms
  | frame ms answer =>
    cases latched : s.failure with
    | some e => rw [step_frame_of_failure ms latched, latched, Option.some_or]
    | none => rw [step_frame_of_free ms latched, Option.none_or]

/-- The note of a fatal failure is the first that a renderer answered with. -/
theorem failure_after (s : Session) (cs : List Command) :
    (s.after cs).failure = s.failure.or (cs.findSome? Command.fatal?) := by
  induction cs generalizing s with
  | nil => exact Option.or_none.symm
  | cons c cs ih =>
    have first : (c :: cs).findSome? Command.fatal? = c.fatal?.or (cs.findSome? Command.fatal?) := by
      rw [List.findSome?_cons]
      cases c.fatal? <;> rfl
    rw [first, ← Option.or_assoc, ← failure_step]
    exact ih (s.step c).session

theorem Starts.failure_after {preset : Preset} {s₀ : Session} (start : Starts preset s₀)
    (cs : List Command) : (s₀.after cs).failure = cs.findSome? Command.fatal? := by
  obtain ⟨canvas, rfl, -⟩ := start.eq_start
  exact Session.failure_after _ cs

end Failure

/-- A tick leaves the picture of the session it was given. -/
theorem Coherent.mesh_tick {s : Session} (h : Coherent s) (ms : Float) :
    (s.tick ms).1.mesh = s.picture := by
  cases dirty : s.isDirty with
  | true =>
    rw [tick_of_dirty ms dirty]
    rfl
  | false =>
    rw [tick_of_clean ms dirty]
    exact (h dirty).1

section Log

theorem errors_compileLog (options : CompileOptions) (text : String) :
    (compileLog options text).filter LogLine.isError = [] := by
  unfold compileLog
  split
  · rfl
  · rw [List.filter_map]
    exact List.map_eq_nil_iff.2 (List.filter_eq_nil_iff.2 fun _ _ => Bool.false_ne_true)

theorem errors_startLog (preset : Preset) : (startLog preset).filter LogLine.isError = [] := by
  rw [startLog, List.filter_append, errors_compileLog]
  split <;> rfl

theorem errors_commitLog (s : Session) (text : String) :
    (s.commitLog text).filter LogLine.isError = [] := by
  rw [commitLog, List.filter_append, errors_compileLog]
  split <;> rfl

theorem errors_applyLog (s : Session) (e : Event) : (s.applyLog e).filter LogLine.isError = [] := by
  unfold applyLog
  split
  · exact errors_commitLog s _
  · rfl
  · rfl

theorem errors_dispatchLog (s : Session) (text : String) :
    (s.dispatchLog text).filter LogLine.isError = [] := by
  unfold dispatchLog
  split
  · exact errors_applyLog s _
  · rfl

/-- No change reports an error. -/
theorem errors_changeLog (s : Session) (c : Change) :
    (s.changeLog c).filter LogLine.isError = [] := by
  unfold changeLog
  split
  · exact errors_commitLog s _
  · exact errors_applyLog s _
  · exact errors_dispatchLog s _
  · rfl

theorem drawFailure?_step_change (s : Session) (c : Change) :
    (s.step (.change c)).drawFailure? = none := by
  rw [Reply.drawFailure?, drawn_step_change]

/-- The errors that a command reports are its failures to draw. -/
theorem errors_step (s : Session) (c : Command) :
    (s.step c).log.filter LogLine.isError =
      (s.step c).drawFailure?.toList.map fun e => .error e.message := by
  cases c with
  | change c =>
    rw [log_step_change, drawFailure?_step_change]
    exact errors_changeLog s c
  | tick ms => rfl
  | frame ms answer =>
    cases latched : s.failure with
    | some e =>
      rw [step_frame_of_failure ms latched]
      rfl
    | none =>
      rw [step_frame_of_free ms latched]
      cases answer <;> rfl

/-- The errors that a history reports are its failures to draw, in their order. -/
theorem errors_run (s : Session) (cs : List Command) :
    ((s.run cs).flatMap Reply.log).filter LogLine.isError =
      ((s.run cs).filterMap Reply.drawFailure?).map fun e => .error e.message := by
  induction cs generalizing s with
  | nil => rfl
  | cons c cs ih =>
    rw [run, List.flatMap_cons, List.filter_append, errors_step, ih, List.filterMap_cons]
    cases (s.step c).drawFailure? <;> rfl

/-- What a command fails with for good is noted, unless something is noted already. -/
theorem fatal_drawFailure_step (s : Session) (c : Command) :
    (s.step c).drawFailure?.filter RenderError.isFatal =
      if s.failure.isNone then c.fatal? else none := by
  cases c with
  | change c =>
    rw [drawFailure?_step_change]
    exact (ite_self none).symm
  | tick ms => exact (ite_self none).symm
  | frame ms answer =>
    cases latched : s.failure with
    | some e =>
      rw [step_frame_of_failure ms latched]
      rfl
    | none =>
      rw [step_frame_of_free ms latched]
      cases answer <;> rfl

/-- A history reports one fatal failure at most, the one that is noted. -/
theorem fatal_run (s : Session) (cs : List Command) :
    ((s.run cs).filterMap Reply.drawFailure?).filter RenderError.isFatal =
      if s.failure.isNone then (cs.findSome? Command.fatal?).toList else [] := by
  induction cs generalizing s with
  | nil => simp [run]
  | cons c cs ih =>
    have split : ((s.run (c :: cs)).filterMap Reply.drawFailure?).filter RenderError.isFatal =
        ((s.step c).drawFailure?.filter RenderError.isFatal).toList ++
          (((s.step c).session.run cs).filterMap Reply.drawFailure?).filter RenderError.isFatal := by
      rw [run, List.filterMap_cons]
      cases (s.step c).drawFailure? with
      | none => rfl
      | some e => cases fatal : e.isFatal <;> simp [fatal, Option.filter]
    rw [split, fatal_drawFailure_step, ih, failure_step, List.findSome?_cons]
    cases s.failure with
    | some e => rfl
    | none => cases c.fatal? <;> rfl

end Log

/-- Until a renderer first answers that it is unavailable, each frame of a history has one mesh drawn,
the picture of the session as it is then, and keeps it whatever the answer is; another failure than
that leaves no note. From that answer on the session notes it, whatever is done, and every frame repeats
it, asks the renderer for nothing and leaves the session as it is. The errors that are reported from
the start are the failures to draw, each once, and at most one of them is fatal. -/
theorem frame_protocol {preset : Preset} {s₀ : Session} (start : Starts preset s₀)
    (cs : List Command) :
    (∀ i ms answer, cs[i]? = some (.frame ms answer) →
      let s := s₀.after (cs.take i)
      let reply := s.step (.frame ms answer)
      match (cs.take i).findSome? Command.fatal? with
      | none =>
        let picture := Mesh.generate s.expression s.view s.canvas preset.meshUnit s.colors
        reply.drawn = some picture ∧ reply.session.mesh = picture ∧ reply.session.isDirty = false ∧
          reply.answer = .framed (answer.map fun _ => s.isDirty) ∧
          (∀ (m : Type → Type) [Monad m] [LawfulMonad m] (renderer : Renderer m),
            s.present renderer ms = (do
              let answer ← renderer.draw picture
              let f := s.frame ms fun _ => answer
              f.log.forM renderer.report
              pure (f.session, f.result))) ∧
            ∀ reason, answer = .error (.draw reason) → reply.session = (s.tick ms).1
      | some e =>
        reply = ⟨s, .framed (.error e), none, []⟩ ∧
          ∀ (m : Type → Type) [Monad m] (renderer : Renderer m),
            s.present renderer ms = pure (s, .error e)) ∧
      (∀ i, (s₀.after (cs.take i)).failure = (cs.take i).findSome? Command.fatal?) ∧
        (startLog preset ++ (s₀.run cs).flatMap Reply.log).filter LogLine.isError =
            ((s₀.run cs).filterMap Reply.drawFailure?).map (fun e => .error e.message) ∧
          ((s₀.run cs).filterMap Reply.drawFailure?).filter RenderError.isFatal =
            (cs.findSome? Command.fatal?).toList := by
  refine ⟨fun i ms answer here => ?_, fun i => start.failure_after _, ?_, ?_⟩
  · intro s reply
    have noted : s.failure = (cs.take i).findSome? Command.fatal? := start.failure_after _
    have coherent : Coherent s := keeps_after Coherent.move _ start.coherent
    have mesh := coherent.mesh_tick ms
    rw [picture, start.preset_after] at mesh
    rw [← noted]
    cases latched : s.failure with
    | some e =>
      exact ⟨step_frame_of_failure ms latched answer,
        fun m _ renderer => present_of_failure renderer ms latched⟩
    | none =>
      have framed : reply = _ := step_frame_of_free ms latched answer
      rw [framed, ← mesh]
      refine ⟨rfl, rfl, s.isDirty_tick ms, rfl, fun m _ _ renderer => ?asked, ?kept⟩
      case asked => exact present_of_free renderer ms latched
      case kept =>
        rintro reason rfl
        have unnoted : (s.tick ms).1.failure = none := (failure_tick s ms).trans latched
        exact congrArg (fun failure => { (s.tick ms).1 with failure }) unnoted.symm
  · rw [List.filter_append, errors_startLog, errors_run, List.nil_append]
  · obtain ⟨canvas, rfl, -⟩ := start.eq_start
    exact fatal_run _ cs

/-- A frame that could not be drawn is drawn after a change, and then the renderer is gone. -/
def rendererLost : List Command :=
  [.frame 1 (.error (.draw "lost")), .change (.resize ⟨10, 5⟩), .frame 1 (.ok ()),
    .frame 1 (.error (.resourceUnavailable "no context")), .change .reset, .tick 1,
    .frame 1 (.ok ())]

theorem frame_protocol_rendererLost :
    let gone := RenderError.resourceUnavailable "no context"
    let changed := standard.after (rendererLost.take 2)
    let latched := standard.after (rendererLost.take 6)
    (changed.step (.frame 1 (.ok ()))).drawn =
        some (Mesh.generate changed.expression changed.view changed.canvas
          Preset.standard.meshUnit changed.colors) ∧
      latched.step (.frame 1 (.ok ())) = ⟨latched, .framed (.error gone), none, []⟩ ∧
      (standard.after rendererLost).failure = some gone ∧
      (startLog .standard ++ (standard.run rendererLost).flatMap Reply.log).filter
          LogLine.isError = [.error "Draw failed: lost", .error gone.message] ∧
      ((standard.run rendererLost).filterMap Reply.drawFailure?).filter RenderError.isFatal =
        [gone] := by
  intro gone changed latched
  obtain ⟨frames, noted, logged, once⟩ := frame_protocol (.standard rfl) rendererLost
  have failures : (standard.run rendererLost).filterMap Reply.drawFailure? =
      [.draw "lost", gone] := by decide +kernel
  rw [failures] at logged
  exact ⟨(frames 2 1 (.ok ()) rfl).1, (frames 6 1 (.ok ()) rfl).1, noted 7, logged, once⟩

end Session

end DomainColoring
