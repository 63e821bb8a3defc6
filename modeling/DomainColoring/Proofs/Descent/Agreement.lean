import DomainColoring.Proofs.Descent.Counters

/-!
# A descent comes to an end

From counters at which `levels` more levels can be entered, every procedure comes to an end, and answers
what the reader with so many levels left answers to the tokens ahead (`Agrees`). The procedures call each
other before any token is taken and without going deeper, but what is called on a level is called in a
fixed order, and whatever is nested is one level deeper. So the induction is on the levels left, as it is
for the readers, and in a loop on the tokens ahead.
-/

namespace DomainColoring

namespace Descent

open Counting (outcome_pure outcome_throw outcome_bind_of_ok outcome_bind_of_error)

variable {d : Descent} {levels : Nat} {s t : CounterLog}

/-- From the counters `s` the call comes to an end and answers as a reader does. If that is a tree, the
tokens that the reader leaves are ahead. -/
inductive Follows (d : Descent) (s : CounterLog) (call : Counting Measured) :
    Except Refusal (Measured × List Token) → Prop
  | ok {m : Measured} {t : CounterLog} (ends : call.outcome s = some (.ok m, t))
      (advances : Advances d s t) : Follows d s call (.ok (m, ahead d t))
  | error {r : Refusal} {t : CounterLog} (ends : call.outcome s = some (.error r.error, t))
      (advances : Advances d s t) : Follows d s call (.error r)

namespace Follows

variable {call call' : Counting Measured} {a : Except Refusal (Measured × List Token)}

/-- What follows from later counters follows from earlier ones. -/
theorem after (later : Follows d t call' a) (advances : Advances d s t)
    (same : call.outcome s = call'.outcome t) : Follows d s call a := by
  cases later with
  | ok ends further => exact .ok (same.trans ends) (advances.trans further)
  | error ends further => exact .error (same.trans ends) (advances.trans further)

theorem bind {f : Measured → Counting Measured}
    {g : Measured × List Token → Except Refusal (Measured × List Token)}
    (first : Follows d s call a)
    (second : ∀ m t, Advances d s t → Follows d t (f m) (g (m, ahead d t))) :
    Follows d s (call >>= f) (a >>= g) := by
  cases first with
  | ok ends advances => exact (second _ _ advances).after advances (outcome_bind_of_ok ends)
  | error ends advances => exact .error (outcome_bind_of_error ends) advances

end Follows

namespace Stands

theorem returned (here : Stands d levels s) (m : Measured) :
    Follows d s (pure m) (.ok (m, ahead d s)) := .ok (outcome_pure m s) here.rfl

theorem thrown (here : Stands d levels s) (r : Refusal) :
    Follows d s (throw r.error) (.error r) := .error (outcome_throw r.error s) here.rfl

theorem grow (here : Stands d levels s) (e : Expr) (height : Nat) :
    Follows d s (do let height ← d.checkHeight height; return ⟨e, height⟩)
      (TokenReader.grow d.limit e height (ahead d s)) := by
  unfold checkHeight TokenReader.grow
  by_cases high : d.limit < height
  · rw [if_pos high, if_pos high]
    exact here.thrown ⟨.nestingTooDeep d.limit, ahead d s⟩
  · rw [if_neg high, if_neg high]
    exact here.returned ⟨e, height⟩

end Stands

/-- The call reads what the reader reads, wherever `levels` more levels can be entered. -/
def Agrees (d : Descent) (levels : Nat) (call : Counting Measured) (read : TokenReader) : Prop :=
  ∀ s, Stands d levels s → Follows d s call (read (ahead d s))

section Loops

variable {op? : TokenKind → Option BinaryOp} {operator : Counting (Option BinaryOp)}

/-- The call takes the token ahead if it is an operator. -/
structure Takes (d : Descent) (op? : TokenKind → Option BinaryOp)
    (operator : Counting (Option BinaryOp)) : Prop where
  taken : ∀ {s : CounterLog} {p : Token} {ps : List Token} {op : BinaryOp}, ahead d s = p :: ps →
    op? p.kind = some op → operator.outcome s = some (.ok (some op), s.advance)
  other : ∀ {s : CounterLog}, (∀ p ∈ (ahead d s).head?, op? p.kind = none) →
    operator.outcome s = some (.ok none, s)

/-- Two kinds of tokens are tried one after the other. -/
theorem takes_either {first second : TokenKind} {op op' : BinaryOp}
    (either : ∀ k, op? k = if k = first then some op else if k = second then some op' else none) :
    Takes d op? (do
      if ← d.eat first then return some op
      else if ← d.eat second then return some op'
      else return none) where
  taken {s p ps o} here isOp := by
    rw [either] at isOp
    by_cases isFirst : p.kind = first
    · rw [if_pos isFirst] at isOp
      cases isOp
      rw [outcome_if_eat here isFirst, outcome_pure]
    · have notFirst : ∀ q ∈ (ahead d s).head?, q.kind ≠ first := by simpa [here] using isFirst
      rw [if_neg isFirst] at isOp
      by_cases isSecond : p.kind = second
      · rw [if_pos isSecond] at isOp
        cases isOp
        rw [outcome_if_not_eat notFirst, outcome_if_eat here isSecond, outcome_pure]
      · rw [if_neg isSecond] at isOp
        cases isOp
  other {s} none := by
    have notFirst : ∀ q ∈ (ahead d s).head?, q.kind ≠ first := by
      intro q ahead isFirst
      have isOp := none q ahead
      rw [either, if_pos isFirst] at isOp
      cases isOp
    have notSecond : ∀ q ∈ (ahead d s).head?, q.kind ≠ second := by
      intro q ahead isSecond
      have isOp := none q ahead
      rw [either, if_neg (notFirst q ahead), if_pos isSecond] at isOp
      cases isOp
    rw [outcome_if_not_eat notFirst, outcome_if_not_eat notSecond, outcome_pure]

theorem takes_sumOperator : Takes d TokenReader.sumOp? d.sumOperator :=
  takes_either fun k => by cases k <;> rfl

theorem takes_productOperator : Takes d TokenReader.productOp? d.productOperator :=
  takes_either fun k => by cases k <;> rfl

variable {operand : Counting Measured} {read : TokenReader} {more : Measured → Counting Measured}

/-- The call joins operands for as long as an operator follows, if it comes to an end. -/
def Loops (d : Descent) (operator : Counting (Option BinaryOp)) (operand : Counting Measured)
    (more : Measured → Counting Measured) : Prop :=
  ∀ left, more left = do
    let some op ← operator | return left
    let right ← operand
    let left ← d.growBinary op left right
    more left

section Chains

variable (takes : Takes d op? operator) (operands : Agrees d levels operand read)
  (loops : Loops d operator operand more)

include takes operands loops

/-- The loop goes round once for each link of the reader's chain. -/
theorem follows_chain {fuel : Nat} {left : Measured} (here : Stands d levels s)
    (enough : (ahead d s).length ≤ fuel) :
    Follows d s (more left) (TokenReader.chain d.limit op? read fuel left (ahead d s)) := by
  induction fuel generalizing left s with
  | zero =>
    have none : ahead d s = [] := List.length_eq_zero_iff.1 (Nat.le_zero.1 enough)
    rw [loops]
    exact (here.returned left).after here.rfl (outcome_bind_of_ok (takes.other (by simp [none])))
  | succ fuel ih =>
    rw [loops]
    cases some : ahead d s with
    | nil =>
      have done := here.returned left
      rw [some] at done
      exact done.after here.rfl (outcome_bind_of_ok (takes.other (by simp [some])))
    | cons p ps =>
      simp only [TokenReader.chain]
      cases isOp : op? p.kind with
      | none =>
        have done := here.returned left
        rw [some] at done
        exact done.after here.rfl (outcome_bind_of_ok (takes.other (by simpa [some] using isOp)))
      | some op =>
        have taken := here.advance some
        rw [some, List.length_cons] at enough
        rw [← ahead_advance some] at enough ⊢
        have here := here.after taken
        refine Follows.after ?_ taken (outcome_bind_of_ok (takes.taken some isOp))
        refine (operands _ here).bind fun right t read => ?_
        have here := here.after read
        refine (here.grow _ _).bind fun left u grown => ?_
        have fewer := Nat.le_trans grown.length_ahead_le read.length_ahead_le
        exact ih (here.after grown) (by omega)

theorem agrees_joined :
    Agrees d levels (do let left ← operand; more left) (TokenReader.joined d.limit op? read) :=
  fun s here => (operands s here).bind fun _ _ read =>
    follows_chain takes operands loops (here.after read) (Nat.le_refl _)

end Chains

end Loops

section Nested

/-- The call that is made one level deeper. -/
def Inner.call (d : Descent) : Inner → Counting Measured
  | .sum => d.sum
  | .unary => d.unary

variable {inner : Inner}

theorem outcome_nested_of_le (full : d.limit ≤ s.now.depth) :
    (d.nested inner).outcome s = some (.error (.nestingTooDeep d.limit), s) := by
  have refused : d.enter.outcome s = some (.error (.nestingTooDeep d.limit), s) := by
    change Counting.outcome (if d.limit ≤ s.now.depth then _ else _) s = _
    rw [if_pos full]
    rfl
  rw [nested]
  exact outcome_bind_of_error refused

/-- The level is left whether the inner call returns or fails. -/
theorem outcome_nested_of_lt {answer : Except SyntaxError Measured} (room : s.now.depth < d.limit)
    (ends : (inner.call d).outcome s.enter = some (answer, t)) :
    (d.nested inner).outcome s = some (answer, t.leave) := by
  have entered : d.enter.outcome s = some (.ok (), s.enter) := by
    change Counting.outcome (if d.limit ≤ s.now.depth then _ else _) s = _
    rw [if_neg (Nat.not_le.2 room)]
    rfl
  have left {call : Counting Measured} (ends : call.outcome s.enter = some (answer, t)) :
      (call.run.run s.enter).bind (fun x => some (x.1, x.2.leave)) = some (answer, t.leave) := by
    rw [show call.run.run s.enter = some (answer, t) from ends]
    rfl
  rw [nested, outcome_bind_of_ok entered]
  cases inner with
  | sum => exact left ends
  | unary => exact left ends

/-- What is nested is what its reader reads with one level less, or refused if there is none. -/
theorem agrees_nested {f : TokenReader → TokenReader}
    (below : ∀ k, levels = k + 1 → Agrees d k (inner.call d) (f (TokenReader.unary d.limit k))) :
    Agrees d levels (d.nested inner)
      (TokenReader.nested d.limit ((TokenReader.deeper d.limit levels).map f)) := by
  intro s here
  cases levels with
  | zero =>
    have full : d.limit ≤ s.now.depth := Nat.le_of_eq here.left.symm
    exact .error (r := ⟨.nestingTooDeep d.limit, ahead d s⟩) (outcome_nested_of_le full) here.rfl
  | succ k =>
    have room : s.now.depth < d.limit := here.enter.shallow
    have inside : Follows d s.enter _ (f (TokenReader.unary d.limit k) (ahead d s)) :=
      below k rfl s.enter here.enter
    change Follows d s _ (f (TokenReader.unary d.limit k) (ahead d s))
    generalize f (TokenReader.unary d.limit k) (ahead d s) = answer at inside ⊢
    cases inside with
    | @ok m t ends advances =>
      exact .ok (t := t.leave) (outcome_nested_of_lt room ends) (.within here advances)
    | error ends advances => exact .error (outcome_nested_of_lt room ends) (.within here advances)

end Nested

section Levels

theorem agrees_term (unaries : Agrees d levels d.unary (TokenReader.unary d.limit levels)) :
    Agrees d levels d.term (TokenReader.term d.limit (TokenReader.unary d.limit levels)) := by
  have loops : Loops d d.productOperator d.unary d.moreFactors := moreFactors.eq_1 d
  rw [term]
  exact agrees_joined takes_productOperator unaries loops

theorem agrees_sum (unaries : Agrees d levels d.unary (TokenReader.unary d.limit levels)) :
    Agrees d levels d.sum (TokenReader.sum d.limit (TokenReader.unary d.limit levels)) := by
  have loops : Loops d d.sumOperator d.term d.moreTerms := moreTerms.eq_1 d
  rw [sum]
  exact agrees_joined takes_sumOperator (agrees_term unaries) loops

variable (below : ∀ k, levels = k + 1 → Agrees d k d.unary (TokenReader.unary d.limit k))

include below

theorem agrees_expression :
    Agrees d levels d.expression (TokenReader.expression d.limit levels) := by
  rw [expression]
  exact agrees_nested fun k next => agrees_sum (below k next)

theorem agrees_nested_unary :
    Agrees d levels (d.nested .unary)
      (TokenReader.nested d.limit (TokenReader.deeper d.limit levels)) := by
  have nested := @agrees_nested d levels .unary id below
  rwa [Option.map_id] at nested

/-- An expression between parentheses, of which the first is taken. -/
theorem agrees_enclosed (offset : Nat) :
    Agrees d levels (do let inner ← d.expression; d.closing offset; return inner)
      (TokenReader.enclosed d.limit (TokenReader.deeper d.limit levels) offset) := by
  intro s here
  refine (agrees_expression below s here).bind fun m t read => ?_
  have here := here.after read
  cases some : ahead d t with
  | nil =>
    have missing : (d.closing offset).outcome t = _ := outcome_if_not_eat (by simp [some])
    exact .error (r := ⟨.missingClosingParen offset, []⟩) (outcome_bind_of_error missing) here.rfl
  | cons c cs =>
    by_cases closes : c.kind = .closeParen
    · have closed : (d.closing offset).outcome t = _ := outcome_if_eat some closes
      have taken := here.advance some
      have returned := (here.after taken).returned m
      rw [ahead_advance some] at returned
      simp only [TokenReader.closing, if_pos closes]
      exact returned.after taken (outcome_bind_of_ok closed)
    · have missing : (d.closing offset).outcome t = _ := outcome_if_not_eat (by simpa [some] using closes)
      simp only [TokenReader.closing, if_neg closes]
      exact .error (r := ⟨.missingClosingParen offset, c :: cs⟩) (outcome_bind_of_error missing) here.rfl

theorem agrees_identifier (name : String) (offset : Nat) :
    Agrees d levels (d.identifier name offset)
      (TokenReader.identifier d.limit (TokenReader.deeper d.limit levels) name ⟨.ident name, offset⟩) := by
  intro s here
  rw [identifier]
  unfold TokenReader.identifier
  cases TokenReader.leaf? name with
  | some e => exact here.returned ⟨e, 0⟩
  | none =>
    dsimp only
    cases UnaryFunc.ofName? name with
    | none => exact here.thrown ⟨.unknownIdentifier name offset, _⟩
    | some func =>
      dsimp only
      cases some : ahead d s with
      | nil =>
        have ended := outcome_next_of_nil some
        exact (here.thrown ⟨.unexpectedEnd, _⟩).after here.rfl (outcome_bind_of_ok ended)
      | cons p ps =>
        have taken := here.advance some
        have here := here.after taken
        refine Follows.after ?_ taken (outcome_bind_of_ok (outcome_next_of_cons some))
        by_cases opens : p.kind = .openParen
        · simp only [if_pos opens]
          rw [← ahead_advance some]
          have enclosed := agrees_enclosed below p.offset _ here
          have grown := enclosed.bind (f := d.growUnary func)
            (g := fun x => TokenReader.growUnary d.limit func x.1 x.2)
            fun m t read => (here.after read).grow _ _
          simpa only [bind_assoc, pure_bind] using grown
        · simp only [if_neg opens]
          exact here.thrown ⟨.unexpectedToken p.kind.text p.offset, _⟩

theorem agrees_base :
    Agrees d levels d.base (TokenReader.base d.limit (TokenReader.deeper d.limit levels)) := by
  intro s here
  rw [base]
  cases some : ahead d s with
  | nil =>
    have ended := outcome_next_of_nil some
    exact (here.thrown ⟨.unexpectedEnd, _⟩).after here.rfl (outcome_bind_of_ok ended)
  | cons p ps =>
    have taken := here.advance some
    have here := here.after taken
    refine Follows.after ?_ taken (outcome_bind_of_ok (outcome_next_of_cons some))
    simp only [TokenReader.base]
    rw [← ahead_advance some]
    cases kind : p.kind with
    | number value => exact here.returned _
    | ident name =>
      have token : p = ⟨.ident name, p.offset⟩ := by rw [← kind]
      have named := agrees_identifier below name p.offset _ here
      rwa [← token] at named
    | openParen => exact agrees_enclosed below p.offset _ here
    | _ => exact here.thrown ⟨.unexpectedToken _ p.offset, _⟩

theorem agrees_factor :
    Agrees d levels d.factor (TokenReader.factor d.limit (TokenReader.deeper d.limit levels)) := by
  intro s here
  rw [factor]
  refine (agrees_base below s here).bind fun left t read => ?_
  have here := here.after read
  have alone := here.returned left
  cases some : ahead d t with
  | nil =>
    rw [some] at alone
    exact alone.after here.rfl (outcome_if_not_eat (by simp [some]))
  | cons p ps =>
    simp only [TokenReader.raised]
    by_cases power : p.kind = .caret
    · have taken := here.advance some
      have here := here.after taken
      rw [if_pos power, ← ahead_advance some]
      refine Follows.after ?_ taken (outcome_if_eat some power)
      exact (agrees_nested_unary below _ here).bind fun exponent u read => (here.after read).grow _ _
    · rw [if_neg power, ← some]
      exact alone.after here.rfl (outcome_if_not_eat (by simpa [some] using power))

theorem agrees_signed :
    Agrees d levels d.unary (TokenReader.signed d.limit (TokenReader.deeper d.limit levels)) := by
  intro s here
  have plain := agrees_factor below s here
  rw [unary]
  cases some : ahead d s with
  | nil =>
    rw [some] at plain
    exact plain.after here.rfl (outcome_if_not_eat (by simp [some]))
  | cons p ps =>
    simp only [TokenReader.signed]
    by_cases minus : p.kind = .minus
    · have taken := here.advance some
      have here := here.after taken
      rw [if_pos minus, ← ahead_advance some]
      refine Follows.after ?_ taken (outcome_if_eat some minus)
      exact (agrees_nested_unary below _ here).bind fun operand t read => (here.after read).grow _ _
    · rw [if_neg minus, ← some]
      exact plain.after here.rfl (outcome_if_not_eat (by simpa [some] using minus))

end Levels

theorem agrees_unary (d : Descent) (levels : Nat) :
    Agrees d levels d.unary (TokenReader.unary d.limit levels) := by
  induction levels with
  | zero => exact agrees_signed fun k h => by cases h
  | succ k ih =>
    refine agrees_signed fun j h => ?_
    cases h
    exact ih

end Descent

end DomainColoring
