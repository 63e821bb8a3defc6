import DomainColoring.Expr.Parser

/-!
# One token of lookahead

A reader takes tokens off the front and looks at most at one that it does not take: the tokens it
leaves are the end of those it was given (`Forward.suffix`), and its answer is the same whatever comes
after the first token that it leaves (`Forward.alike`). Both are kept by every way in which readers are
made of readers. The bound of a chain of operands is the number of tokens, which does depend on what
comes later, but any bound that is large enough gives the same chain.
-/

namespace DomainColoring

/-- The tokens that an answer leaves. -/
def leftBy : Except Refusal (Measured × List Token) → List Token
  | .error refusal => refusal.rest
  | .ok (_, rest) => rest

/-- The same tokens up to `t`, and then `us` or `vs`. -/
def Share (t : Token) (us vs ts ts' : List Token) : Prop :=
  ∃ pre, ts = pre ++ t :: us ∧ ts' = pre ++ t :: vs

/-- Of such tokens the first is the same, and so are those after it up to `t`, unless it is `t`. -/
theorem Share.exists_cons {t : Token} {us vs ts ts' : List Token} (h : Share t us vs ts ts') :
    ∃ p ps ps', ts = p :: ps ∧ ts' = p :: ps' ∧ (ps = us ∨ Share t us vs ps ps') := by
  obtain ⟨pre, rfl, rfl⟩ := h
  cases pre with
  | nil => exact ⟨t, us, vs, rfl, rfl, .inl rfl⟩
  | cons p pre => exact ⟨p, _, _, rfl, rfl, .inr ⟨pre, rfl, rfl⟩⟩

/-- Answers to such tokens: the first has taken `t`, or they are the same and leave the same tokens up
to `t`. -/
inductive Alike (t : Token) (us vs : List Token) :
    Except Refusal (Measured × List Token) → Except Refusal (Measured × List Token) → Prop
  | taken {a b : Except Refusal (Measured × List Token)} (past : leftBy a <:+ us) : Alike t us vs a b
  | error {e : SyntaxError} {rest rest' : List Token} (same : Share t us vs rest rest') :
    Alike t us vs (.error ⟨e, rest⟩) (.error ⟨e, rest'⟩)
  | ok {m : Measured} {rest rest' : List Token} (same : Share t us vs rest rest') :
    Alike t us vs (.ok (m, rest)) (.ok (m, rest'))

section Answers

variable {t : Token} {us vs : List Token} {a b : Except Refusal (Measured × List Token)}
  {next next' : Measured × List Token → Except Refusal (Measured × List Token)}

theorem leftBy_bind_suffix (h : ∀ m rest, a = .ok (m, rest) → leftBy (next (m, rest)) <:+ rest) :
    leftBy (a >>= next) <:+ leftBy a := by
  cases a with
  | error refusal => exact List.suffix_rfl
  | ok answer => exact h answer.1 answer.2 rfl

/-- Readings one after the other. The second is asked for nothing if the first has taken `t`. -/
theorem Alike.bind (first : Alike t us vs a b)
    (suffix : ∀ m rest, a = .ok (m, rest) → leftBy (next (m, rest)) <:+ rest)
    (second : ∀ m rest rest', a = .ok (m, rest) → b = .ok (m, rest') → Share t us vs rest rest' →
      Alike t us vs (next (m, rest)) (next' (m, rest'))) :
    Alike t us vs (a >>= next) (b >>= next') := by
  cases first with
  | taken past => exact .taken ((leftBy_bind_suffix suffix).trans past)
  | error same => exact .error same
  | ok same => exact second _ _ _ rfl rfl same

/-- An answer that leaves `t` is the answer whatever comes after `t`. -/
theorem Alike.of_error {e : SyntaxError} (h : Alike t us vs (.error ⟨e, t :: us⟩) b) :
    b = .error ⟨e, t :: vs⟩ := by
  cases h with
  | taken past => exact absurd past.length_le (Nat.not_succ_le_self us.length)
  | error same =>
    obtain ⟨pre, here, rfl⟩ := same
    rw [List.self_eq_append_left.1 here, List.nil_append]

theorem Alike.of_ok {m : Measured} (h : Alike t us vs (.ok (m, t :: us)) b) :
    b = .ok (m, t :: vs) := by
  cases h with
  | taken past => exact absurd past.length_le (Nat.not_succ_le_self us.length)
  | ok same =>
    obtain ⟨pre, here, rfl⟩ := same
    rw [List.self_eq_append_left.1 here, List.nil_append]

end Answers

namespace TokenReader

/-- The reader goes forward, and looks at no token after the first that it leaves. -/
structure Forward (read : TokenReader) : Prop where
  suffix : ∀ ts, leftBy (read ts) <:+ ts
  alike : ∀ {t : Token} {us vs ts ts' : List Token}, Share t us vs ts ts' →
    Alike t us vs (read ts) (read ts')

namespace Forward

variable {read : TokenReader}

theorem length_le (forward : Forward read) {ts rest : List Token} {m : Measured}
    (h : read ts = .ok (m, rest)) : rest.length ≤ ts.length := by
  have suffix := forward.suffix ts
  rw [h] at suffix
  exact suffix.length_le

/-- A reader that takes nothing and answers without looking. -/
theorem ok (m : Measured) : Forward fun ts => .ok (m, ts) :=
  ⟨fun _ => List.suffix_rfl, .ok⟩

theorem error (e : SyntaxError) : Forward fun ts => .error ⟨e, ts⟩ :=
  ⟨fun _ => List.suffix_rfl, .error⟩

/-- Two readers one after the other. -/
theorem andThen {next : Measured → TokenReader} (first : Forward read)
    (second : ∀ m, Forward (next m)) :
    Forward (fun ts => do
      let (m, ts) ← read ts
      next m ts) := by
  constructor
  · intro ts
    exact (leftBy_bind_suffix fun m rest _ => (second m).suffix rest).trans (first.suffix ts)
  · intro t us vs ts ts' same
    exact (first.alike same).bind (fun m rest _ => (second m).suffix rest)
      fun m _ _ _ _ same => (second m).alike same

/-- A reader that looks at one token, and then takes it and goes on or answers as some reader does that
is given it back. -/
theorem of_first (empty : leftBy (read []) = [])
    (first : ∀ t, (∃ next, Forward next ∧ ∀ ts, read (t :: ts) = next ts) ∨
      ∃ next, Forward next ∧ ∀ ts, read (t :: ts) = next (t :: ts)) : Forward read := by
  constructor
  · intro ts
    cases ts with
    | nil => simp [empty]
    | cons t ts =>
      rcases first t with ⟨next, forward, answer⟩ | ⟨next, forward, answer⟩
      · rw [answer]
        exact (forward.suffix ts).trans (List.suffix_cons t ts)
      · rw [answer]
        exact forward.suffix (t :: ts)
  · intro t us vs ts ts' same
    obtain ⟨p, ps, ps', rfl, rfl, later⟩ := same.exists_cons
    rcases first p with ⟨next, forward, answer⟩ | ⟨next, forward, answer⟩
    · rw [answer, answer]
      rcases later with rfl | later
      · exact .taken (forward.suffix ps)
      · exact forward.alike later
    · rw [answer, answer]
      exact forward.alike same

end Forward

section Chain

variable {limit : Nat} {op? : TokenKind → Option BinaryOp} {operand : TokenReader}

theorem forward_grow (limit : Nat) (e : Expr) (height : Nat) : Forward (grow limit e height) := by
  unfold grow
  split
  · exact .error _
  · exact .ok _

theorem forward_growUnary (limit : Nat) (func : UnaryFunc) (operand : Measured) :
    Forward (growUnary limit func operand) := forward_grow limit _ _

theorem forward_growBinary (limit : Nat) (op : BinaryOp) (left right : Measured) :
    Forward (growBinary limit op left right) := forward_grow limit _ _

theorem suffix_chain (limit : Nat) (op? : TokenKind → Option BinaryOp) (forward : Forward operand)
    (fuel : Nat) (left : Measured) (ts : List Token) :
    leftBy (chain limit op? operand fuel left ts) <:+ ts := by
  induction fuel generalizing left ts with
  | zero => exact List.suffix_rfl
  | succ fuel ih =>
    cases ts with
    | nil => exact List.suffix_rfl
    | cons t ts =>
      simp only [chain]
      split
      · exact List.suffix_rfl
      · next op isOp =>
        refine ((leftBy_bind_suffix fun right rest _ => ?_).trans (forward.suffix ts)).trans
          (List.suffix_cons t ts)
        exact (leftBy_bind_suffix fun left rest _ => ih left rest).trans
          ((forward_growBinary limit op left right).suffix rest)

/-- Chains of one operand more or less are alike if both bounds are large enough. -/
theorem alike_chain (forward : Forward operand) {t : Token} {us vs : List Token}
    {fuel fuel' : Nat} {left : Measured} {ts ts' : List Token} (enough : ts.length ≤ fuel)
    (enough' : ts'.length ≤ fuel') (same : Share t us vs ts ts') :
    Alike t us vs (chain limit op? operand fuel left ts)
      (chain limit op? operand fuel' left ts') := by
  induction fuel generalizing fuel' left ts ts' with
  | zero =>
    obtain ⟨p, ps, ps', rfl, -, -⟩ := same.exists_cons
    exact absurd enough (Nat.not_succ_le_zero _)
  | succ fuel ih =>
    obtain ⟨p, ps, ps', rfl, rfl, later⟩ := same.exists_cons
    cases fuel' with
    | zero => exact absurd enough' (Nat.not_succ_le_zero _)
    | succ fuel' =>
      simp only [chain]
      cases isOp : op? p.kind with
      | none => exact .ok same
      | some op =>
        have further (left : Measured) (rest : List Token) :=
          suffix_chain limit op? forward fuel left rest
        have grown (right : Measured) := forward_growBinary limit op left right
        have ends (right : Measured) (rest : List Token) : leftBy (do
            let (left, ts) ← growBinary limit op left right rest
            chain limit op? operand fuel left ts) <:+ rest :=
          (leftBy_bind_suffix fun left rest _ => further left rest).trans ((grown right).suffix rest)
        rcases later with rfl | later
        · exact .taken ((leftBy_bind_suffix fun right rest _ => ends right rest).trans
            (forward.suffix ps))
        · refine (forward.alike later).bind (fun right rest _ => ends right rest) ?_
          intro right rest rest' read read' same
          refine ((grown right).alike same).bind (fun left rest _ => further left rest) ?_
          intro left more more' grow grow' same
          have shorter := Nat.le_trans ((grown right).length_le grow) (forward.length_le read)
          have shorter' := Nat.le_trans ((grown right).length_le grow') (forward.length_le read')
          exact ih (Nat.le_trans shorter (Nat.le_of_succ_le_succ enough))
            (Nat.le_trans shorter' (Nat.le_of_succ_le_succ enough')) same

theorem forward_joined (limit : Nat) (op? : TokenKind → Option BinaryOp)
    (forward : Forward operand) : Forward (joined limit op? operand) := by
  have ends (left : Measured) (rest : List Token) :=
    suffix_chain limit op? forward rest.length left rest
  constructor
  · intro ts
    exact (leftBy_bind_suffix fun left rest _ => ends left rest).trans (forward.suffix ts)
  · intro t us vs ts ts' same
    refine (forward.alike same).bind (fun left rest _ => ends left rest) ?_
    intro left rest rest' _ _ same
    exact alike_chain forward (Nat.le_refl _) (Nat.le_refl _) same

end Chain

section Level

variable {limit : Nat} {deeper : Option TokenReader}

/-- The reader one level deeper, if there is one, goes forward. -/
def ForwardDeeper (deeper : Option TokenReader) : Prop := ∀ read, deeper = some read → Forward read

theorem forward_sum {unary : TokenReader} (forward : Forward unary) : Forward (sum limit unary) :=
  forward_joined limit sumOp? (forward_joined limit productOp? forward)

theorem forward_nested (forward : ForwardDeeper deeper) : Forward (nested limit deeper) := by
  cases deeper with
  | none => exact .error _
  | some read => exact forward read rfl

theorem forward_closed (offset : Nat) (inner : Measured) :
    Forward (fun ts => do
      let ts ← closing offset ts
      .ok (inner, ts)) := by
  refine .of_first rfl fun t => ?_
  by_cases closes : t.kind = .closeParen
  · refine .inl ⟨fun ts => .ok (inner, ts), .ok inner, fun ts => ?_⟩
    simp only [closing, if_pos closes]
    rfl
  · refine .inr ⟨fun ts => .error ⟨.missingClosingParen offset, ts⟩, .error _, fun ts => ?_⟩
    simp only [closing, if_neg closes]
    rfl

theorem forward_enclosed (forward : ForwardDeeper deeper) (offset : Nat) :
    Forward (enclosed limit deeper offset) := by
  have inner : Forward (nested limit (deeper.map (sum limit))) := by
    refine forward_nested fun read h => ?_
    obtain ⟨unary, rfl, rfl⟩ := Option.map_eq_some_iff.1 h
    exact forward_sum (forward unary rfl)
  exact inner.andThen (forward_closed offset)

theorem forward_base (forward : ForwardDeeper deeper) : Forward (base limit deeper) := by
  refine .of_first rfl fun t => ?_
  simp only [base]
  split
  · exact .inl ⟨_, .ok _, fun _ => rfl⟩
  · next name isName =>
    simp only [identifier]
    split
    · exact .inl ⟨_, .ok _, fun _ => rfl⟩
    · split
      · exact .inr ⟨_, .error _, fun _ => rfl⟩
      · next func called =>
        refine .inl ⟨_, .of_first rfl fun p => ?_, fun _ => rfl⟩
        by_cases opens : p.kind = .openParen
        · simp only [if_pos opens]
          exact .inl ⟨_, (forward_enclosed forward p.offset).andThen (forward_growUnary limit func),
            fun _ => rfl⟩
        · simp only [if_neg opens]
          exact .inr ⟨_, .error _, fun _ => rfl⟩
  · exact .inl ⟨_, forward_enclosed forward t.offset, fun _ => rfl⟩
  · exact .inr ⟨_, .error _, fun _ => rfl⟩

theorem forward_raised (forward : ForwardDeeper deeper) (left : Measured) :
    Forward (raised limit deeper left) := by
  refine .of_first rfl fun t => ?_
  simp only [raised]
  split
  · exact .inl ⟨_, (forward_nested forward).andThen (forward_growBinary limit .pow left),
      fun _ => rfl⟩
  · exact .inr ⟨_, .ok left, fun _ => rfl⟩

theorem forward_factor (forward : ForwardDeeper deeper) : Forward (factor limit deeper) :=
  (forward_base forward).andThen (forward_raised forward)

theorem forward_signed (forward : ForwardDeeper deeper) : Forward (signed limit deeper) := by
  refine .of_first rfl fun t => ?_
  simp only [signed]
  split
  · exact .inl ⟨_, (forward_nested forward).andThen (forward_growUnary limit .neg), fun _ => rfl⟩
  · exact .inr ⟨_, forward_factor forward, fun _ => rfl⟩

end Level

theorem forward_unary (limit levels : Nat) : Forward (unary limit levels) := by
  induction levels with
  | zero => exact forward_signed fun read h => by cases h
  | succ k ih =>
    refine forward_signed fun read h => ?_
    cases h
    exact ih

theorem forward_expression (limit levels : Nat) : Forward (expression limit levels) := by
  cases levels with
  | zero => exact .error _
  | succ k => exact forward_sum (forward_unary limit k)

end TokenReader

end DomainColoring
