import DomainColoring.Expr.Compile

/-!
# Higher limits

A limit decides nothing but whether a formula nests too deeply. Two readings of the same tokens, one
under a limit and one under a higher limit with more levels, go the same way for as long as the first
does not stop for its nesting (`relaxes_expression`). And a limit that is above the number of tokens is
never reached: every level costs a token, and so does every node above a leaf (`roomy_expression`).
-/

namespace DomainColoring.TokenReader

/-- The answer `a` stands as the answer `b`, unless it is that the tokens nest too deeply. -/
def Stands (limit : Nat) (a b : Except Refusal (Measured × List Token)) : Prop :=
  a = b ∨ ∃ rest, a = .error ⟨.nestingTooDeep limit, rest⟩

namespace Stands

variable {limit : Nat} {a b : Except Refusal (Measured × List Token)}

theorem rfl : Stands limit a a := .inl (Eq.refl a)

/-- Readings one after the other stand if both do. -/
theorem bind {f g : Measured × List Token → Except Refusal (Measured × List Token)}
    (first : Stands limit a b) (second : ∀ x, Stands limit (f x) (g x)) :
    Stands limit (a >>= f) (b >>= g) := by
  rcases first with same | ⟨rest, tooDeep⟩
  · subst same
    cases a with
    | error refusal => exact rfl
    | ok answer => exact second answer
  · subst tooDeep
    exact .inr ⟨rest, Eq.refl _⟩

end Stands

/-- What the reader `read` answers stands with `read'`. -/
def Relaxes (limit : Nat) (read read' : TokenReader) : Prop :=
  ∀ ts, Stands limit (read ts) (read' ts)

/-- A deeper level is not lost, and what its reader answers stands. -/
def RelaxesDeeper (limit : Nat) (deeper deeper' : Option TokenReader) : Prop :=
  ∀ read, deeper = some read → ∃ read', deeper' = some read' ∧ Relaxes limit read read'

section Relaxing

variable {limit limit' : Nat} (le : limit ≤ limit')

include le

theorem stands_grow (e : Expr) (height : Nat) (ts : List Token) :
    Stands limit (grow limit e height ts) (grow limit' e height ts) := by
  unfold grow
  by_cases high : limit < height
  · rw [if_pos high]
    exact .inr ⟨ts, rfl⟩
  · rw [if_neg high, if_neg (Nat.not_lt.2 (Nat.le_trans (Nat.not_lt.1 high) le))]
    exact .rfl

theorem relaxes_chain {op? : TokenKind → Option BinaryOp} {operand operand' : TokenReader}
    (operands : Relaxes limit operand operand') (fuel : Nat) (left : Measured) :
    Relaxes limit (chain limit op? operand fuel left) (chain limit' op? operand' fuel left) := by
  induction fuel generalizing left with
  | zero => exact fun ts => .rfl
  | succ fuel ih =>
    intro ts
    cases ts with
    | nil => exact .rfl
    | cons t ts =>
      simp only [chain]
      cases op? t.kind with
      | none => exact .rfl
      | some op =>
        exact (operands ts).bind fun (right, us) =>
          (stands_grow le _ _ us).bind fun (left, vs) => ih left vs

theorem relaxes_joined {op? : TokenKind → Option BinaryOp} {operand operand' : TokenReader}
    (operands : Relaxes limit operand operand') :
    Relaxes limit (joined limit op? operand) (joined limit' op? operand') := fun ts =>
  (operands ts).bind fun (left, us) => relaxes_chain le operands us.length left us

theorem relaxes_sum {unary unary' : TokenReader} (unaries : Relaxes limit unary unary') :
    Relaxes limit (sum limit unary) (sum limit' unary') :=
  relaxes_joined le (relaxes_joined le unaries)

section Level

variable {deeper deeper' : Option TokenReader} (below : RelaxesDeeper limit deeper deeper')

include below

omit le in
theorem relaxes_nested : Relaxes limit (nested limit deeper) (nested limit' deeper') := by
  intro ts
  cases deeper with
  | none => exact .inr ⟨ts, rfl⟩
  | some read =>
    obtain ⟨read', rfl, stands⟩ := below read rfl
    exact stands ts

theorem relaxes_sums : RelaxesDeeper limit (deeper.map (sum limit)) (deeper'.map (sum limit')) := by
  intro read h
  obtain ⟨unary, rfl, rfl⟩ := Option.map_eq_some_iff.1 h
  obtain ⟨unary', rfl, stands⟩ := below unary rfl
  exact ⟨sum limit' unary', rfl, relaxes_sum le stands⟩

theorem relaxes_enclosed (offset : Nat) :
    Relaxes limit (enclosed limit deeper offset) (enclosed limit' deeper' offset) := fun ts =>
  (relaxes_nested (relaxes_sums le below) ts).bind fun _ => .rfl

theorem relaxes_identifier (name : String) (t : Token) :
    Relaxes limit (identifier limit deeper name t) (identifier limit' deeper' name t) := by
  intro ts
  unfold identifier
  split
  · exact .rfl
  split
  · exact .rfl
  · next func called =>
    cases ts with
    | nil => exact .rfl
    | cons p ts =>
      by_cases opens : p.kind = .openParen
      · simp only [if_pos opens]
        exact (relaxes_enclosed le below p.offset ts).bind fun (argument, us) =>
          stands_grow le _ _ us
      · simp only [if_neg opens]
        exact .rfl

theorem relaxes_base : Relaxes limit (base limit deeper) (base limit' deeper') := by
  intro ts
  cases ts with
  | nil => exact .rfl
  | cons t ts =>
    simp only [base]
    cases t.kind with
    | number value => exact .rfl
    | ident name => exact relaxes_identifier le below name t ts
    | openParen => exact relaxes_enclosed le below t.offset ts
    | _ => exact .rfl

theorem relaxes_raised (left : Measured) :
    Relaxes limit (raised limit deeper left) (raised limit' deeper' left) := by
  intro ts
  cases ts with
  | nil => exact .rfl
  | cons t ts =>
    unfold raised
    by_cases power : t.kind = .caret
    · simp only [if_pos power]
      exact (relaxes_nested below ts).bind fun (exponent, us) => stands_grow le _ _ us
    · simp only [if_neg power]
      exact .rfl

theorem relaxes_factor : Relaxes limit (factor limit deeper) (factor limit' deeper') := fun ts =>
  (relaxes_base le below ts).bind fun (left, us) => relaxes_raised le below left us

theorem relaxes_signed : Relaxes limit (signed limit deeper) (signed limit' deeper') := by
  intro ts
  cases ts with
  | nil => exact relaxes_factor le below []
  | cons t ts =>
    unfold signed
    by_cases minus : t.kind = .minus
    · simp only [if_pos minus]
      exact (relaxes_nested below ts).bind fun (operand, us) => stands_grow le _ _ us
    · simp only [if_neg minus]
      exact relaxes_factor le below (t :: ts)

end Level

theorem relaxes_unary {levels levels' : Nat} (more : levels ≤ levels') :
    Relaxes limit (unary limit levels) (unary limit' levels') := by
  induction levels generalizing levels' with
  | zero => cases levels' <;> exact relaxes_signed le fun read h => by cases h
  | succ k ih =>
    obtain ⟨k', rfl⟩ := Nat.exists_eq_add_of_le' (Nat.le_trans (Nat.le_add_left 1 k) more)
    refine relaxes_signed le fun read h => ?_
    cases h
    exact ⟨unary limit' k', rfl, ih (Nat.le_of_succ_le_succ more)⟩

/-- Under a higher limit and with more levels, an expression is answered as before unless it was
refused for its nesting. -/
theorem relaxes_expression {levels levels' : Nat} (more : levels ≤ levels') :
    Relaxes limit (expression limit levels) (expression limit' levels') := by
  refine relaxes_nested (relaxes_sums le fun read h => ?_)
  cases levels with
  | zero => cases h
  | succ k =>
    obtain ⟨k', rfl⟩ := Nat.exists_eq_add_of_le' (Nat.le_trans (Nat.le_add_left 1 k) more)
    cases h
    exact ⟨unary limit' k', rfl, relaxes_unary le (Nat.le_of_succ_le_succ more)⟩

end Relaxing

/-- An answer to `n` tokens that is not that they nest too deeply, with a tree lower than the number of
tokens taken. -/
def Low (n : Nat) : Except Refusal (Measured × List Token) → Prop
  | .error refusal => ∀ limit, refusal.error ≠ .nestingTooDeep limit
  | .ok (m, rest) => m.height + rest.length < n

theorem Low.bind {k n : Nat} {a : Except Refusal (Measured × List Token)}
    {f : Measured × List Token → Except Refusal (Measured × List Token)} (first : Low k a)
    (second : ∀ m rest, m.height + rest.length < k → Low n (f (m, rest))) : Low n (a >>= f) := by
  cases a with
  | error refusal => exact first
  | ok answer => exact second answer.1 answer.2 first

/-- Up to `room` tokens never nest too deeply for the reader. -/
def Roomy (room : Nat) (read : TokenReader) : Prop :=
  ∀ ts : List Token, ts.length ≤ room → Low ts.length (read ts)

/-- All but one of up to `room` tokens never nest too deeply one level deeper. -/
def RoomyDeeper (room : Nat) (deeper : Option TokenReader) : Prop :=
  ∀ k, room = k + 1 → ∃ read, deeper = some read ∧ Roomy k read

section Room

variable {limit room : Nat} (fits : room ≤ limit)

include fits

theorem low_grow {n height : Nat} {e : Expr} {rest : List Token} (le : n ≤ room)
    (h : height + rest.length < n) : Low n (grow limit e height rest) := by
  unfold grow
  rw [if_neg (by omega)]
  exact h

theorem low_growUnary {n : Nat} {func : UnaryFunc} {operand : Measured} {rest : List Token}
    (le : n ≤ room) (low : operand.height + 1 + rest.length < n) :
    Low n (growUnary limit func operand rest) :=
  low_grow fits le low

theorem low_growBinary {n : Nat} {op : BinaryOp} {left right : Measured} {rest : List Token}
    (le : n ≤ room) (lowLeft : left.height + 1 + rest.length < n)
    (lowRight : right.height + 1 + rest.length < n) :
    Low n (growBinary limit op left right rest) :=
  low_grow fits le (by omega)

/-- Each link of a chain makes the tree one higher, and costs an operator. -/
theorem low_chain {op? : TokenKind → Option BinaryOp} {operand : TokenReader}
    (roomy : Roomy room operand) {fuel n : Nat} (le : n ≤ room) {left : Measured} {ts : List Token}
    (h : left.height + ts.length < n) : Low n (chain limit op? operand fuel left ts) := by
  induction fuel generalizing left ts with
  | zero => exact h
  | succ fuel ih =>
    cases ts with
    | nil => exact h
    | cons t ts =>
      rw [List.length_cons] at h
      simp only [chain]
      cases op? t.kind with
      | none => exact h
      | some op =>
        refine (roomy ts (by omega)).bind fun right us low => ?_
        have lowLeft : left.height + 1 + us.length < n := by omega
        have lowRight : right.height + 1 + us.length < n := by omega
        exact (low_growBinary fits le lowLeft lowRight).bind fun left vs low => ih low

theorem roomy_joined {op? : TokenKind → Option BinaryOp} {operand : TokenReader}
    (roomy : Roomy room operand) : Roomy room (joined limit op? operand) := fun ts le =>
  (roomy ts le).bind fun _ _ low => low_chain fits roomy le low

theorem roomy_sum {unary : TokenReader} (roomy : Roomy room unary) :
    Roomy room (sum limit unary) :=
  roomy_joined fits (roomy_joined fits roomy)

section Level

variable {deeper : Option TokenReader} (below : RoomyDeeper room deeper)

include below

omit fits in
/-- What is nested comes after a token. -/
theorem low_nested {ts : List Token} (lt : ts.length < room) :
    Low ts.length (nested limit deeper ts) := by
  obtain ⟨k, rfl⟩ := Nat.exists_eq_add_of_lt lt
  obtain ⟨read, rfl, roomy⟩ := below _ rfl
  exact roomy ts (Nat.le_add_right _ _)

theorem roomyDeeper_sum : RoomyDeeper room (deeper.map (sum limit)) := by
  rintro k rfl
  obtain ⟨unary, rfl, roomy⟩ := below k rfl
  exact ⟨sum limit unary, rfl, roomy_sum (Nat.le_of_succ_le fits) roomy⟩

theorem low_enclosed (offset : Nat) {ts : List Token} (lt : ts.length < room) :
    Low ts.length (enclosed limit deeper offset ts) := by
  refine (low_nested (roomyDeeper_sum fits below) lt).bind fun inner us low => ?_
  unfold closing
  cases us with
  | nil => exact fun _ h => by cases h
  | cons c us =>
    by_cases closes : c.kind = .closeParen
    · simp only [if_pos closes]
      rw [List.length_cons] at low
      exact Nat.lt_of_succ_lt low
    · simp only [if_neg closes]
      exact fun _ h => by cases h

theorem roomy_base : Roomy room (base limit deeper) := by
  intro ts le
  cases ts with
  | nil => exact fun _ h => by cases h
  | cons t ts =>
    rw [List.length_cons] at le ⊢
    have leaf (e : Expr) : Low (ts.length + 1) (.ok (⟨e, 0⟩, ts)) := by
      simp only [Low]
      omega
    simp only [base]
    cases t.kind with
    | number value => exact leaf _
    | ident name =>
      simp only [identifier]
      cases leaf? name with
      | some e => exact leaf e
      | none =>
        cases UnaryFunc.ofName? name with
        | none => exact fun _ h => by cases h
        | some func =>
          cases ts with
          | nil => exact fun _ h => by cases h
          | cons p ts =>
            rw [List.length_cons] at le ⊢
            by_cases opens : p.kind = .openParen
            · simp only [if_pos opens]
              refine (low_enclosed fits below p.offset (by omega)).bind fun argument us low => ?_
              have lower : argument.height + 1 + us.length < ts.length + 1 + 1 := by omega
              exact low_growUnary fits le lower
            · simp only [if_neg opens]
              exact fun _ h => by cases h
    | openParen =>
      have inner := low_enclosed fits below t.offset le
      cases read : enclosed limit deeper t.offset ts with
      | error refusal => rwa [read] at inner
      | ok answer =>
        rw [read] at inner
        exact Nat.lt_succ_of_lt inner
    | _ => exact fun _ h => by cases h

theorem roomy_factor : Roomy room (factor limit deeper) := by
  intro ts le
  refine (roomy_base fits below ts le).bind fun left rest low => ?_
  cases rest with
  | nil => exact low
  | cons t us =>
    rw [List.length_cons] at low
    unfold raised
    by_cases power : t.kind = .caret
    · simp only [if_pos power]
      refine (low_nested below (by omega)).bind fun exponent vs lowExponent => ?_
      have lowLeft : left.height + 1 + vs.length < ts.length := by omega
      have lowRight : exponent.height + 1 + vs.length < ts.length := by omega
      exact low_growBinary fits le lowLeft lowRight
    · simp only [if_neg power]
      exact low

theorem roomy_signed : Roomy room (signed limit deeper) := by
  intro ts le
  cases ts with
  | nil => exact roomy_factor fits below [] le
  | cons t ts =>
    unfold signed
    by_cases minus : t.kind = .minus
    · simp only [if_pos minus]
      rw [List.length_cons] at le ⊢
      refine (low_nested below le).bind fun operand us low => ?_
      have lower : operand.height + 1 + us.length < ts.length + 1 := by omega
      exact low_growUnary fits le lower
    · simp only [if_neg minus]
      exact roomy_factor fits below (t :: ts) le

end Level

theorem roomy_unary : Roomy room (unary limit room) := by
  induction room with
  | zero => exact roomy_signed fits fun k h => by cases h
  | succ k ih =>
    refine roomy_signed fits fun j h => ?_
    cases h
    exact ⟨unary limit k, rfl, ih (Nat.le_of_succ_le fits)⟩

/-- One level more than there are tokens is enough for an expression, and so is a limit of as many. -/
theorem roomy_expression : Roomy room (expression limit (room + 1)) :=
  roomy_sum fits (roomy_unary fits)

end Room

end DomainColoring.TokenReader

namespace DomainColoring

open TokenReader

namespace Expr

variable {limit limit' : Nat} {ts : List Token}

/-- Under a higher limit, tokens are answered as before unless they were refused for their nesting. -/
theorem ofTokens_of_le (le : limit ≤ limit') (ts : List Token) :
    ofTokens limit ts = ofTokens limit' ts ∨ ofTokens limit ts = .error (.nestingTooDeep limit) := by
  unfold ofTokens
  rcases relaxes_expression le le ts with same | ⟨rest, tooDeep⟩
  · rw [same]
    exact .inl rfl
  · rw [tooDeep]
    exact .inr rfl

/-- Fewer tokens than the limit are not refused for their nesting. -/
theorem ofTokens_ne_nestingTooDeep (fits : ts.length + 1 ≤ limit) (n : Nat) :
    ofTokens limit ts ≠ .error (.nestingTooDeep n) := by
  obtain ⟨room, rfl⟩ := Nat.exists_eq_add_of_le' (Nat.le_trans (Nat.le_add_left 1 _) fits)
  have low := roomy_expression (Nat.le_succ room) ts (Nat.le_of_succ_le_succ fits)
  unfold ofTokens
  split
  · next refusal refused =>
    rw [refused] at low
    exact fun h => low n (Except.error.inj h)
  · exact fun h => by cases h
  · exact fun h => by cases h

end Expr

/-- Either the tokens of a text are read, or it is refused before, whatever the limit. -/
theorem compile_cases (mode : Strictness) (text : String) :
    (∀ limit, compile ⟨mode, limit⟩ text = Expr.ofTokens limit (tokenize text).tokens) ∨
      ∃ c : Skipped, ∀ limit,
        compile ⟨mode, limit⟩ text = .error (.unrecognizedCharacter c.char c.offset) := by
  cases mode with
  | lenient => exact .inl fun limit => compile_lenient limit text
  | strict =>
    cases skipped : (tokenize text).skipped with
    | nil => exact .inl fun limit => by rw [compile_strict, skipped]
    | cons c cs => exact .inr ⟨c, fun limit => by rw [compile_strict, skipped]⟩

/-- A higher limit changes the answer to a text only where the lower one refuses it for its nesting: an
expression stays the same expression, and every other error the same error. A limit above the number of
tokens refuses no text for its nesting. -/
theorem compile_of_le (mode : Strictness) (text : String) {limit limit' : Nat}
    (le : limit ≤ limit') :
    (∀ e, compile ⟨mode, limit⟩ text = .ok e → compile ⟨mode, limit'⟩ text = .ok e) ∧
    (∀ error, compile ⟨mode, limit⟩ text = .error error → (∀ n, error ≠ .nestingTooDeep n) →
      compile ⟨mode, limit'⟩ text = .error error) ∧
    ((tokenize text).tokens.length + 1 ≤ limit →
      ∀ n, compile ⟨mode, limit⟩ text ≠ .error (.nestingTooDeep n)) := by
  rcases compile_cases mode text with read | ⟨c, refused⟩
  · rw [read, read]
    refine ⟨fun e accepted => ?_, fun error refused flat => ?_, Expr.ofTokens_ne_nestingTooDeep⟩
    · rcases Expr.ofTokens_of_le le (tokenize text).tokens with same | tooDeep
      · rw [← same, accepted]
      · rw [tooDeep] at accepted
        cases accepted
    · rcases Expr.ofTokens_of_le le (tokenize text).tokens with same | tooDeep
      · rw [← same, refused]
      · rw [tooDeep] at refused
        exact absurd (Except.error.inj refused).symm (flat limit)
  · rw [refused, refused]
    exact ⟨fun e h => h, fun error h _ => h, fun _ n h => by cases h⟩

/-- Two levels are too few for `sin(-z`, and with three it lacks a parenthesis, so it does with 64. -/
theorem compile_of_le_unclosed :
    3 ≤ 64 ∧ compile ⟨.strict, 2⟩ "sin(-z" = .error (.nestingTooDeep 2) ∧
      compile ⟨.strict, 3⟩ "sin(-z" = .error (.missingClosingParen 3) ∧
      compile ⟨.strict, 64⟩ "sin(-z" = .error (.missingClosingParen 3) := by
  have tokens : tokenize "sin(-z" =
      ⟨[⟨.ident "sin", 0⟩, ⟨.openParen, 3⟩, ⟨.minus, 4⟩, ⟨.ident "z", 5⟩], []⟩ := by decide +kernel
  have tooDeep : compile ⟨.strict, 2⟩ "sin(-z" = .error (.nestingTooDeep 2) := by
    rw [compile_strict, tokens]
    rfl
  have unclosed : compile ⟨.strict, 3⟩ "sin(-z" = .error (.missingClosingParen 3) := by
    rw [compile_strict, tokens]
    rfl
  have le : 3 ≤ 64 := by decide
  exact ⟨le, tooDeep, unclosed,
    (compile_of_le .strict "sin(-z" le).2.1 _ unclosed fun n h => by cases h⟩

end DomainColoring
