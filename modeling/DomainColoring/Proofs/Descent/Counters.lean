import DomainColoring.Expr.Descent

/-!
# Counters of a descent

What the procedures that take single tokens come to, in terms of the tokens that are left; and what is
asked of the counters over any stretch of a descent (`Advances`): the position moves forward within the
tokens, the level at the end is the level at the beginning, and no value in between is above the limit.
Stretches one after the other are a stretch again, and so is what happens within a level that is entered
and left.
-/

namespace DomainColoring

namespace Counting

variable {α β : Type} {call : Counting α} {f : α → Counting β} {s t : CounterLog}

theorem outcome_pure (a : α) (s : CounterLog) : outcome (pure a) s = some (.ok a, s) := rfl

theorem outcome_throw (e : SyntaxError) (s : CounterLog) :
    outcome (throw e : Counting α) s = some (.error e, s) := rfl

/-- What comes after a call that returns goes on from the counters that it leaves. -/
theorem outcome_bind_of_ok {a : α} (ends : call.outcome s = some (.ok a, t)) :
    (call >>= f).outcome s = (f a).outcome t := by
  change (call s).bind _ = _
  rw [show call s = some (.ok a, t) from ends]
  rfl

/-- What comes after a call that fails is left out. -/
theorem outcome_bind_of_error {e : SyntaxError} (ends : call.outcome s = some (.error e, t)) :
    (call >>= f).outcome s = some (.error e, t) := by
  change (call s).bind _ = _
  rw [show call s = some (.error e, t) from ends]
  rfl

end Counting

namespace Descent

open Counting (outcome_bind_of_ok)

/-- The tokens that are not taken yet. -/
def ahead (d : Descent) (s : CounterLog) : List Token := d.tokens.drop s.now.pos

section Tokens

variable {d : Descent} {s : CounterLog} {p : Token} {ps : List Token}

theorem outcome_peek {t? : Option Token} (first : (ahead d s).head? = t?) :
    d.peek.outcome s = some (.ok t?, s) := by
  rw [← first, ahead, List.head?_drop]
  rfl

theorem ahead_advance (here : ahead d s = p :: ps) : ahead d s.advance = ps := by
  have next : (d.tokens.drop s.now.pos).tail = ps := by rw [← ahead, here, List.tail_cons]
  rw [← next, List.tail_drop]
  rfl

theorem outcome_next_of_nil (done : ahead d s = []) : d.next.outcome s = some (.ok none, s) := by
  rw [next, outcome_bind_of_ok (outcome_peek (congrArg List.head? done))]
  rfl

theorem outcome_next_of_cons (here : ahead d s = p :: ps) :
    d.next.outcome s = some (.ok (some p), s.advance) := by
  rw [next, outcome_bind_of_ok (outcome_peek (congrArg List.head? here))]
  rfl

section Choices

variable {α : Type} {kind : TokenKind} {yes no : Counting α}

/-- The choice if the token ahead is of the kind. -/
theorem outcome_if_eat (here : ahead d s = p :: ps) (same : p.kind = kind) :
    (do if ← d.eat kind then yes else no).outcome s = yes.outcome s.advance := by
  have eaten : (d.eat kind).outcome s = some (.ok true, s.advance) := by
    rw [eat, outcome_bind_of_ok (outcome_peek (congrArg List.head? here))]
    simp only [List.head?_cons, if_pos same]
    rfl
  rw [outcome_bind_of_ok eaten, if_pos rfl]

/-- The choice if it is of another kind, or there is none. -/
theorem outcome_if_not_eat (other : ∀ p ∈ (ahead d s).head?, p.kind ≠ kind) :
    (do if ← d.eat kind then yes else no).outcome s = no.outcome s := by
  have left : (d.eat kind).outcome s = some (.ok false, s) := by
    rw [eat, outcome_bind_of_ok (outcome_peek rfl)]
    cases first : (ahead d s).head? with
    | none => rfl
    | some p =>
      simp only [if_neg (other p first)]
      rfl
  rw [outcome_bind_of_ok left, if_neg Bool.false_ne_true]

end Choices

end Tokens

/-- From the counters `s` a descent gets to the counters `t`: forward within the tokens, to the level at
which it was, and at no time deeper than the limit. -/
structure Advances (d : Descent) (s t : CounterLog) : Prop where
  forward : s.now.pos ≤ t.now.pos
  inside : t.now.pos ≤ d.tokens.length
  level : t.now.depth = s.now.depth
  written : ∃ between, t.written = s.written ++ between ∧ ∀ c ∈ between, c.depth ≤ d.limit

/-- The position is within the tokens, and `levels` more levels can be entered. -/
structure Stands (d : Descent) (levels : Nat) (s : CounterLog) : Prop where
  inside : s.now.pos ≤ d.tokens.length
  left : s.now.depth + levels = d.limit

namespace Stands

variable {d : Descent} {levels : Nat} {s t : CounterLog}

theorem rfl (here : Stands d levels s) : Advances d s s where
  forward := Nat.le_refl _
  inside := here.inside
  level := Eq.refl _
  written := ⟨[], (List.append_nil _).symm, List.forall_mem_nil _⟩

theorem after (here : Stands d levels s) (advances : Advances d s t) :
    Stands d levels t where
  inside := advances.inside
  left := by rw [advances.level, here.left]

theorem shallow (here : Stands d levels s) : s.now.depth ≤ d.limit :=
  Nat.le.intro here.left

/-- A token that is ahead can be taken. -/
theorem advance (here : Stands d levels s) {p : Token} {ps : List Token}
    (some : ahead d s = p :: ps) : Advances d s s.advance where
  forward := Nat.le_succ _
  inside := by
    have length := congrArg List.length some
    rw [ahead, List.length_drop, List.length_cons] at length
    change s.now.pos + 1 ≤ d.tokens.length
    omega
  level := Eq.refl _
  written := ⟨[_], Eq.refl _, by simpa using here.shallow⟩

theorem enter (here : Stands d (levels + 1) s) : Stands d levels s.enter where
  inside := here.inside
  left := (Nat.succ_add_eq_add_succ _ _).trans here.left

end Stands

namespace Advances

variable {d : Descent} {levels : Nat} {s t u : CounterLog}

theorem trans (first : Advances d s t) (second : Advances d t u) :
    Advances d s u where
  forward := Nat.le_trans first.forward second.forward
  inside := second.inside
  level := second.level.trans first.level
  written := by
    obtain ⟨early, earlier, low⟩ := first.written
    obtain ⟨late, later, low'⟩ := second.written
    refine ⟨early ++ late, by rw [later, earlier, List.append_assoc], fun c h => ?_⟩
    exact (List.mem_append.1 h).elim (low c) (low' c)

/-- What a level that is entered and left again adds. -/
theorem within (here : Stands d (levels + 1) s) (inner : Advances d s.enter t) :
    Advances d s t.leave where
  forward := inner.forward
  inside := inner.inside
  level := by
    change t.now.depth - 1 = s.now.depth
    rw [inner.level]
    exact Nat.add_sub_cancel s.now.depth 1
  written := by
    obtain ⟨between, more, low⟩ := inner.written
    have entered : s.now.depth + 1 ≤ d.limit := here.enter.shallow
    have outer : t.now.depth = s.now.depth + 1 := inner.level
    refine ⟨s.enter.now :: between ++ [t.leave.now], ?_, ?_⟩
    · change t.written ++ [t.leave.now] = _
      rw [more]
      change (s.written ++ [s.enter.now]) ++ between ++ [t.leave.now] = _
      simp
    · intro c h
      simp only [List.cons_append, List.mem_cons, List.mem_append, List.not_mem_nil, or_false] at h
      rcases h with rfl | h | rfl
      · exact entered
      · exact low c h
      · change t.now.depth - 1 ≤ d.limit
        omega

/-- What is ahead at the end is no more than what is ahead at the beginning. -/
theorem length_ahead_le (advances : Advances d s t) :
    (ahead d t).length ≤ (ahead d s).length := by
  have forward := advances.forward
  rw [ahead, ahead, List.length_drop, List.length_drop]
  omega

end Advances

end Descent

end DomainColoring
