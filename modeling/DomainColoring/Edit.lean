/-!
# Edits

Work on a state in place, as checks and writes one after the other. A failure ends an edit and undoes
nothing: what was written before it stays written. Whether a refused edit leaves a trace is therefore
a matter of the order of its checks and writes.
-/

namespace DomainColoring

/-- Work on a state that may fail. A failure comes with the state as it is by then. -/
abbrev Edit (ε σ : Type) : Type → Type := EStateM ε σ

namespace Edit

variable {ε σ τ α : Type}

/-- Work on a part as work on the whole. A failure leaves the whole with the part as it is by then. -/
def within (part : τ → σ) (replace : τ → σ → τ) (e : Edit ε σ α) : Edit ε τ α := fun t =>
  match e.run (part t) with
  | .ok a s => .ok a (replace t s)
  | .error cause s => .error cause (replace t s)

end Edit

end DomainColoring
