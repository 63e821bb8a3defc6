import Mathlib.Data.Nat.Count
import DomainColoring.Proofs.Session.Replies

/-!
# One rebuild for each batch of changes

A session remembers in one bit whether its mesh is out of date. Here the same is told from the
history: the mesh has not been refreshed yet, or a change has been accepted since it was
(`PendingAt`). The two agree before every command (`isDirty_iff_pendingAt`), so changes are neither
lost nor counted twice, however ticks, frames and failures come between them.
-/

namespace DomainColoring

/-- How long a rebuild takes within a command that may rebuild. -/
def Command.duration? : Command → Option Float
  | .change _ => none
  | .tick ms => some ms
  | .frame ms _ => some ms

namespace Session

/-- Whether a command brings the mesh up to date: a tick, and a frame unless drawing has failed for
good. -/
def refreshes (s : Session) : Command → Bool
  | .change _ => false
  | .tick _ => true
  | .frame _ _ => s.failure.isNone

/-- Whether a command is a change that is accepted. -/
def accepts (s : Session) (c : Command) : Bool :=
  match (s.step c).answer with
  | .accepted => true
  | _ => false

section Places

variable (s : Session) (cs : List Command) (i : Nat)

/-- The command at a place brings the mesh up to date. -/
def RefreshesAt : Prop := cs[i]?.any (s.after (cs.take i)).refreshes = true

/-- The command at a place is an accepted change. -/
def AcceptedAt : Prop := cs[i]?.any (s.after (cs.take i)).accepts = true

/-- Before a place, the mesh has never been brought up to date, or a change has been accepted since
it last was. -/
def PendingAt : Prop :=
  (∀ j < i, ¬RefreshesAt s cs j) ∨ ∃ j < i, AcceptedAt s cs j ∧ ∀ k < i, j < k → ¬RefreshesAt s cs k

/-- The command at a place brings the mesh up to date, and there is something to bring up to date. -/
def RebuildDueAt : Prop := RefreshesAt s cs i ∧ PendingAt s cs i

instance : Decidable (RefreshesAt s cs i) := inferInstanceAs (Decidable (_ = _))

instance : Decidable (AcceptedAt s cs i) := inferInstanceAs (Decidable (_ = _))

instance : Decidable (PendingAt s cs i) := inferInstanceAs (Decidable (_ ∨ _))

instance : DecidablePred (RebuildDueAt s cs) := fun _ => inferInstanceAs (Decidable (_ ∧ _))

variable {s cs i}

theorem refreshesAt_iff {c : Command} (here : cs[i]? = some c) :
    RefreshesAt s cs i ↔ (s.after (cs.take i)).refreshes c = true := by
  rw [RefreshesAt, here, Option.any_some]

theorem acceptedAt_iff {c : Command} (here : cs[i]? = some c) :
    AcceptedAt s cs i ↔ (s.after (cs.take i)).accepts c = true := by
  rw [AcceptedAt, here, Option.any_some]

/-- What is pending once a command is done. -/
theorem pendingAt_succ :
    PendingAt s cs (i + 1) ↔ AcceptedAt s cs i ∨ (PendingAt s cs i ∧ ¬RefreshesAt s cs i) := by
  constructor
  · rintro (never | ⟨j, before, accepted, since⟩)
    · exact .inr ⟨.inl fun j hj => never j (by omega), never i (by omega)⟩
    · rcases Nat.lt_succ_iff_lt_or_eq.1 before with earlier | rfl
      · have pending : PendingAt s cs i :=
          .inr ⟨j, earlier, accepted, fun k hk => since k (by omega)⟩
        exact .inr ⟨pending, since i (by omega) earlier⟩
      · exact .inl accepted
  · rintro (accepted | ⟨never | ⟨j, before, accepted, since⟩, last⟩)
    · exact .inr ⟨i, by omega, accepted, fun k hk later => by omega⟩
    · refine .inl fun j hj => ?_
      rcases Nat.lt_succ_iff_lt_or_eq.1 hj with earlier | rfl
      · exact never j earlier
      · exact last
    · refine .inr ⟨j, by omega, accepted, fun k hk later => ?_⟩
      rcases Nat.lt_succ_iff_lt_or_eq.1 hk with earlier | rfl
      · exact since k earlier later
      · exact last

end Places

section Step

variable {s : Session} {c : Command}

/-- What brings the mesh up to date is a tick, but for the note of a failure to draw, and accepts no
change. -/
theorem step_of_refreshes (h : s.refreshes c = true) :
    s.accepts c = false ∧ ∃ ms failure, c.duration? = some ms ∧
      (s.step c).session = { (s.tick ms).1 with failure } := by
  cases c with
  | change c => cases h
  | tick ms => exact ⟨rfl, ms, _, rfl, rfl⟩
  | frame ms answer =>
    have free : s.failure = none := Option.isNone_iff_eq_none.1 h
    rw [step_frame_of_free ms free]
    exact ⟨rfl, ms, _, rfl, rfl⟩

/-- What does not bring the mesh up to date is an accepted change or has no effect. -/
theorem step_of_not_refreshes (h : s.refreshes c = false) :
    if s.accepts c then Accepted s (s.step c).session else (s.step c).session = s := by
  cases c with
  | change c =>
    unfold accepts
    rcases s.step_change c with ⟨t, accepted, reply⟩ | ⟨cause, reply⟩
    · rw [reply]
      exact accepted
    · rw [reply]
      rfl
  | tick ms => cases h
  | frame ms answer =>
    obtain ⟨e, latched⟩ := Option.isSome_iff_exists.1 (Option.isNone_eq_false_iff.1 h)
    unfold accepts
    rw [step_frame_of_failure ms latched]
    rfl

/-- The bit after a command. -/
theorem isDirty_step (s : Session) (c : Command) :
    (s.step c).session.isDirty = (s.accepts c || (s.isDirty && !s.refreshes c)) := by
  cases refreshes : s.refreshes c with
  | true =>
    obtain ⟨refused, ms, failure, -, after⟩ := step_of_refreshes refreshes
    rw [refused, after, Bool.not_true, Bool.and_false, Bool.or_false]
    exact s.isDirty_tick ms
  | false =>
    have effect := step_of_not_refreshes refreshes
    cases accepts : s.accepts c with
    | true =>
      rw [accepts] at effect
      exact effect.frame.1
    | false =>
      rw [accepts] at effect
      have same : (s.step c).session = s := effect
      rw [same, Bool.false_or, Bool.not_false, Bool.and_true]

/-- The mesh and its figures after a command. -/
theorem mesh_stats_step (s : Session) (c : Command) :
    if s.refreshes c ∧ s.isDirty then
      ∃ ms, c.duration? = some ms ∧ (s.step c).session.mesh = s.picture ∧
        (s.step c).session.stats = s.stats.record ms s.picture.vertexCount s.picture.singular
    else (s.step c).session.mesh = s.mesh ∧ (s.step c).session.stats = s.stats := by
  cases refreshes : s.refreshes c with
  | true =>
    obtain ⟨-, ms, failure, duration, after⟩ := step_of_refreshes refreshes
    rw [after]
    cases dirty : s.isDirty with
    | true =>
      rw [if_pos ⟨rfl, rfl⟩, tick_of_dirty ms dirty]
      exact ⟨ms, duration, rfl, rfl⟩
    | false =>
      rw [if_neg (by simp), tick_of_clean ms dirty]
      exact ⟨rfl, rfl⟩
  | false =>
    have effect := step_of_not_refreshes refreshes
    rw [if_neg (by simp)]
    split at effect
    · obtain ⟨-, -, mesh, stats, -⟩ := effect.frame
      exact ⟨mesh, stats⟩
    · rw [effect]
      exact ⟨rfl, rfl⟩

end Step

section Run

variable {s : Session} {cs : List Command}

/-- The bit tells what the history says: a session that is dirty at first is dirty whenever something
is pending. -/
theorem isDirty_iff_pendingAt (first : s.isDirty = true) {i : Nat} (within : i ≤ cs.length) :
    (s.after (cs.take i)).isDirty = true ↔ PendingAt s cs i := by
  induction i with
  | zero => exact iff_of_true first (.inl fun j hj => absurd hj j.not_lt_zero)
  | succ i ih =>
    have here : cs[i]? = some cs[i] := List.getElem?_eq_getElem within
    rw [pendingAt_succ, ← ih (by omega), acceptedAt_iff here, refreshesAt_iff here,
      after_take_succ s here, isDirty_step]
    simp only [Bool.or_eq_true, Bool.and_eq_true, Bool.not_eq_true', Bool.not_eq_true]

/-- A rebuild is due where a command refreshes a mesh that is out of date. -/
theorem rebuildDueAt_iff (first : s.isDirty = true) {i : Nat} {c : Command} (here : cs[i]? = some c) :
    RebuildDueAt s cs i ↔
      (s.after (cs.take i)).refreshes c ∧ (s.after (cs.take i)).isDirty := by
  have before : i < cs.length := (List.getElem?_eq_some_iff.1 here).1
  rw [RebuildDueAt, refreshesAt_iff here, isDirty_iff_pendingAt first before.le]

/-- The figures count the places at which a rebuild was due. -/
theorem count_after_take (first : s.isDirty = true) {i : Nat} (within : i ≤ cs.length) :
    (s.after (cs.take i)).stats.count = s.stats.count + Nat.count (RebuildDueAt s cs) i := by
  induction i with
  | zero => rfl
  | succ i ih =>
    have here : cs[i]? = some cs[i] := List.getElem?_eq_getElem within
    have effect := mesh_stats_step (s.after (cs.take i)) cs[i]
    rw [Nat.count_succ, after_take_succ s here]
    simp only [← rebuildDueAt_iff first here] at effect
    split at effect
    · next due =>
      obtain ⟨ms, -, -, stats⟩ := effect
      rw [if_pos due, stats, RebuildStats.record, ih (by omega), Nat.add_assoc]
    · next idle =>
      rw [if_neg idle, effect.2, ih (by omega), Nat.add_zero]

end Run

/-- However changes, ticks and frames follow one another, a command rebuilds the mesh exactly if it is
a tick or a frame that may draw, and is the first such or has an accepted change between the last such
and itself. Every other command leaves the mesh and its figures alone. A tick and a drawn frame say
whether they have rebuilt, and the figures count the rebuilds. -/
theorem rebuild_iff_due {preset : Preset} {s₀ : Session} (start : Starts preset s₀)
    (cs : List Command) :
    (∀ i c, cs[i]? = some c →
      let s := s₀.after (cs.take i)
      let reply := s.step c
      (if RebuildDueAt s₀ cs i then
        ∃ ms, c.duration? = some ms ∧ reply.session.mesh = s.picture ∧
          reply.session.stats = s.stats.record ms s.picture.vertexCount s.picture.singular
      else reply.session.mesh = s.mesh ∧ reply.session.stats = s.stats) ∧
        (∀ ms, c = .tick ms → reply.answer = .ticked (decide (RebuildDueAt s₀ cs i))) ∧
          (∀ ms, c = .frame ms (.ok ()) → s.failure = none →
            reply.answer = .framed (.ok (decide (RebuildDueAt s₀ cs i))))) ∧
      (s₀.after cs).stats.count = Nat.count (RebuildDueAt s₀ cs) cs.length := by
  obtain ⟨canvas, rfl, -⟩ := start.eq_start
  have first : (Session.start preset canvas).isDirty = true := rfl
  refine ⟨fun i c here => ?_, ?_⟩
  · intro s reply
    have due := rebuildDueAt_iff first here
    have told (refreshes : s.refreshes c = true) :
        decide (RebuildDueAt (Session.start preset canvas) cs i) = s.isDirty := by
      simp only [due, s, refreshes, true_and, Bool.decide_eq_true]
    refine ⟨?effect, ?ticked, ?framed⟩
    case effect =>
      simp only [due]
      exact mesh_stats_step s c
    case ticked =>
      rintro ms rfl
      rw [told rfl, ← s.tick_rebuilt ms]
      rfl
    case framed =>
      rintro ms rfl free
      have drawn : reply = _ := step_frame_of_free ms free (.ok ())
      rw [told (Option.isNone_iff_eq_none.2 free), drawn]
      rfl
  · have counted := count_after_take first (le_refl cs.length)
    rw [List.take_length] at counted
    rw [counted]
    exact Nat.zero_add _

/-- A refused change, two accepted ones, a frame that cannot be drawn and one that can. -/
def interleaved : List Command :=
  [.tick 1, .change (.zoom 0), .tick 1, .change (.resize ⟨10, 5⟩), .change .reset,
    .frame 2 (.error (.draw "lost")), .frame 2 (.ok ())]

theorem rebuild_iff_due_interleaved :
    ((standard.after (interleaved.take 2)).step (.tick 1)).answer = .ticked false ∧
      ((standard.after (interleaved.take 6)).step (.frame 2 (.ok ()))).answer =
        .framed (.ok false) ∧
      (standard.after interleaved).stats.count = 2 := by
  obtain ⟨steps, count⟩ := rebuild_iff_due (.standard rfl) interleaved
  have refused : ¬RebuildDueAt standard interleaved 2 := by decide +kernel
  have drawn : ¬RebuildDueAt standard interleaved 6 := by decide +kernel
  have free : (standard.after (interleaved.take 6)).failure = none := by decide +kernel
  have twice : Nat.count (RebuildDueAt standard interleaved) interleaved.length = 2 := by
    decide +kernel
  obtain ⟨-, ticked, -⟩ := steps 2 _ rfl
  obtain ⟨-, -, framed⟩ := steps 6 _ rfl
  refine ⟨?_, ?_, count.trans twice⟩
  · rw [ticked 1 rfl, decide_eq_false refused]
  · rw [framed 2 rfl free, decide_eq_false drawn]

end Session

end DomainColoring
