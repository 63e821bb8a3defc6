import DomainColoring.Edit

/-!
# All or nothing

A step yields the next state or fails with none; an edit fails with a state. An edit performs a step if
it ends as the step does and has written nothing where the step fails. Combining edits keeps this as
long as nothing that may fail comes after a write.
-/

namespace DomainColoring.Edit

variable {ε δ σ τ : Type}

/-- The edit ends in the state that the step yields, or fails with the step's cause in the state it
began with. -/
def Performs (e : Edit ε σ Unit) (step : σ → Except ε σ) : Prop :=
  ∀ s, e.run s = match step s with
    | .ok t => .ok () t
    | .error cause => .error cause s

theorem run_ofExcept {β : Type} (x : Except ε β) (s : σ) :
    (MonadExcept.ofExcept x : Edit ε σ β).run s = match x with
      | .ok b => .ok b s
      | .error cause => .error cause s := by
  cases x <;> rfl

theorem run_adaptExcept {β : Type} (f : ε → δ) (e : Edit ε σ β) (s : σ) :
    EStateM.run (e.adaptExcept f) s = match e.run s with
      | .ok b t => .ok b t
      | .error cause t => .error (f cause) t := by
  simp only [EStateM.run, EStateM.adaptExcept]
  cases e s <;> rfl

theorem run_within {β : Type} (part : τ → σ) (replace : τ → σ → τ) (e : Edit ε σ β) (t : τ) :
    (e.within part replace).run t = match e.run (part t) with
      | .ok b s => .ok b (replace t s)
      | .error cause s => .error cause (replace t s) := rfl

namespace Performs

variable {e : Edit ε σ Unit} {step : σ → Except ε σ}

/-- The failure of an edit is that of its step, and it leaves no trace. -/
theorem eq_of_run_error (h : Performs e step) {s t : σ} {cause : ε}
    (failed : e.run s = .error cause t) : step s = .error cause ∧ t = s := by
  rw [h s] at failed
  cases done : step s with
  | ok u =>
    rw [done] at failed
    cases failed
  | error reason =>
    rw [done] at failed
    cases failed
    exact ⟨rfl, rfl⟩

theorem adaptExcept (h : Performs e step) (f : ε → δ) :
    Performs (EStateM.adaptExcept f e) fun s => (step s).mapError f := by
  intro s
  simp only [run_adaptExcept, h s]
  cases step s <;> rfl

/-- Replacing a part by itself is no write. -/
theorem within (h : Performs e step) {part : τ → σ} {replace : τ → σ → τ}
    (same : ∀ t, replace t (part t) = t) :
    Performs (e.within part replace) fun t => (step (part t)).map (replace t) := by
  intro t
  simp only [run_within, h (part t)]
  cases step (part t) with
  | ok s => rfl
  | error cause => exact congrArg (EStateM.Result.error cause) (same t)

/-- Reading the state is no write. -/
theorem read {e : σ → Edit ε σ Unit} {step : σ → σ → Except ε σ}
    (h : ∀ s, Performs (e s) (step s)) : Performs (do let s ← get; e s) fun s => step s s := by
  intro s
  simp only [EStateM.run_bind, EStateM.run_get]
  exact h s s

/-- A last write cannot fail. -/
theorem andWrite (h : Performs e step) (write : σ → σ) :
    Performs (do e; modify write) fun s => (step s).map write := by
  intro s
  simp only [EStateM.run_bind, h s]
  cases step s <;> rfl

end Performs

end DomainColoring.Edit
