import DomainColoring.Expr.Compile

/-!
# Offsets are only reported

A reader looks at the kinds of tokens; where they are it only says in errors. So if every token is moved
by a function of its offset, whatever the function, then the answer is the answer to the tokens as they
were, with its offsets moved by the same function (`Expr.ofTokens_mapOffset`). The offset of an open
parenthesis is handed on by the reader that takes the parenthesis, so what is compared are two readers:
one as it was built and one that was built from moved tokens (`TokenReader.Moves`).
-/

namespace DomainColoring

/-- The error with its offset moved. -/
def SyntaxError.mapOffset (f : Nat → Nat) : SyntaxError → SyntaxError
  | unexpectedToken found offset => unexpectedToken found (f offset)
  | unexpectedEnd => unexpectedEnd
  | unknownIdentifier name offset => unknownIdentifier name (f offset)
  | missingClosingParen offset => missingClosingParen (f offset)
  | trailingInput found offset => trailingInput found (f offset)
  | nestingTooDeep limit => nestingTooDeep limit
  | unrecognizedCharacter char offset => unrecognizedCharacter char (f offset)

def Token.mapOffset (f : Nat → Nat) (t : Token) : Token := ⟨t.kind, f t.offset⟩

def Skipped.mapOffset (f : Nat → Nat) (s : Skipped) : Skipped := ⟨f s.offset, s.char⟩

def TokenStream.mapOffset (f : Nat → Nat) (s : TokenStream) : TokenStream :=
  ⟨s.tokens.map (·.mapOffset f), s.skipped.map (·.mapOffset f)⟩

namespace TokenReader

variable {f : Nat → Nat}

/-- The answer with all its offsets moved. -/
def moved (f : Nat → Nat) : Except Refusal (Measured × List Token) →
    Except Refusal (Measured × List Token)
  | .error refusal => .error ⟨refusal.error.mapOffset f, refusal.rest.map (·.mapOffset f)⟩
  | .ok (m, rest) => .ok (m, rest.map (·.mapOffset f))

/-- Moved tokens are answered by `read'` as `read` answers the tokens, but moved. -/
def Moves (f : Nat → Nat) (read read' : TokenReader) : Prop :=
  ∀ ts, read' (ts.map (·.mapOffset f)) = moved f (read ts)

/-- Readings one after the other. -/
theorem Moves.bind {read read' : TokenReader}
    {next next' : Measured × List Token → Except Refusal (Measured × List Token)}
    (first : Moves f read read')
    (second : ∀ m ts, next' (m, ts.map (·.mapOffset f)) = moved f (next (m, ts))) (ts : List Token) :
    (read' (ts.map (·.mapOffset f)) >>= next') = moved f (read ts >>= next) := by
  rw [first ts]
  cases read ts with
  | error refusal => rfl
  | ok answer => exact second answer.1 answer.2

theorem moves_grow (limit : Nat) (e : Expr) (height : Nat) :
    Moves f (grow limit e height) (grow limit e height) := by
  intro ts
  unfold grow
  split <;> rfl

theorem moves_chain {limit : Nat} {op? : TokenKind → Option BinaryOp} {operand : TokenReader}
    (operands : Moves f operand operand) (fuel : Nat) (left : Measured) :
    Moves f (chain limit op? operand fuel left) (chain limit op? operand fuel left) := by
  induction fuel generalizing left with
  | zero => exact fun ts => rfl
  | succ fuel ih =>
    intro ts
    cases ts with
    | nil => rfl
    | cons t ts =>
      have kind : (t.mapOffset f).kind = t.kind := rfl
      simp only [List.map_cons, chain, kind]
      cases op? t.kind with
      | none => rfl
      | some op => exact operands.bind (fun right us =>
        (moves_grow limit _ _).bind (fun left vs => ih left vs) us) ts

theorem moves_joined {limit : Nat} {op? : TokenKind → Option BinaryOp} {operand : TokenReader}
    (operands : Moves f operand operand) :
    Moves f (joined limit op? operand) (joined limit op? operand) :=
  operands.bind fun left ts => by
    dsimp only
    rw [List.length_map]
    exact moves_chain operands ts.length left ts

theorem moves_sum {limit : Nat} {unary : TokenReader} (unaries : Moves f unary unary) :
    Moves f (sum limit unary) (sum limit unary) :=
  moves_joined (moves_joined unaries)

section Level

variable {limit : Nat} {deeper : Option TokenReader} (below : ∀ read ∈ deeper, Moves f read read)

include below

theorem moves_nested : Moves f (nested limit deeper) (nested limit deeper) := by
  cases deeper with
  | none => exact fun ts => rfl
  | some read => exact below read rfl

theorem moves_enclosed (offset : Nat) :
    Moves f (enclosed limit deeper offset) (enclosed limit deeper (f offset)) := by
  have inner : Moves f (nested limit (deeper.map (sum limit))) (nested limit (deeper.map (sum limit))) := by
    refine moves_nested fun read h => ?_
    obtain ⟨unary, known, rfl⟩ := Option.map_eq_some_iff.1 h
    exact moves_sum (below unary known)
  refine inner.bind fun m ts => ?_
  cases ts with
  | nil => rfl
  | cons t ts =>
    have kind : (t.mapOffset f).kind = t.kind := rfl
    simp only [List.map_cons, closing, kind]
    split <;> rfl

theorem moves_identifier (name : String) (t : Token) :
    Moves f (identifier limit deeper name t) (identifier limit deeper name (t.mapOffset f)) := by
  intro ts
  unfold identifier
  split
  · rfl
  split
  · rfl
  · next func called =>
    cases ts with
    | nil => rfl
    | cons p ts =>
      have kind : (p.mapOffset f).kind = p.kind := rfl
      simp only [List.map_cons, kind]
      split
      · exact (moves_enclosed below p.offset).bind (fun argument us => moves_grow limit _ _ us) ts
      · rfl

theorem moves_base : Moves f (base limit deeper) (base limit deeper) := by
  intro ts
  cases ts with
  | nil => rfl
  | cons t ts =>
    have kind : (t.mapOffset f).kind = t.kind := rfl
    simp only [List.map_cons, base, kind]
    cases t.kind with
    | number value => rfl
    | ident name => exact moves_identifier below name t ts
    | openParen => exact moves_enclosed below t.offset ts
    | _ => rfl

theorem moves_raised (left : Measured) :
    Moves f (raised limit deeper left) (raised limit deeper left) := by
  intro ts
  cases ts with
  | nil => rfl
  | cons t ts =>
    have kind : (t.mapOffset f).kind = t.kind := rfl
    simp only [List.map_cons, raised, kind]
    split
    · exact (moves_nested below).bind (fun exponent us => moves_grow limit _ _ us) ts
    · rfl

theorem moves_factor : Moves f (factor limit deeper) (factor limit deeper) :=
  (moves_base below).bind (moves_raised below)

theorem moves_signed : Moves f (signed limit deeper) (signed limit deeper) := by
  intro ts
  cases ts with
  | nil => exact moves_factor below []
  | cons t ts =>
    have kind : (t.mapOffset f).kind = t.kind := rfl
    simp only [List.map_cons, signed, kind]
    split
    · exact (moves_nested below).bind (fun operand us => moves_grow limit _ _ us) ts
    · exact moves_factor below (t :: ts)

end Level

theorem moves_unary (limit levels : Nat) : Moves f (unary limit levels) (unary limit levels) := by
  induction levels with
  | zero => exact moves_signed fun read h => by cases h
  | succ k ih =>
    refine moves_signed fun read h => ?_
    cases h
    exact ih

theorem moves_expression (limit levels : Nat) :
    Moves f (expression limit levels) (expression limit levels) := by
  refine moves_nested fun read h => ?_
  cases levels with
  | zero => cases h
  | succ k =>
    cases h
    exact moves_sum (moves_unary limit k)

end TokenReader

/-- Moved tokens compile to the tree that they compiled to, or are refused for the same reason at the place
to which it has moved. -/
theorem Expr.ofTokens_mapOffset (f : Nat → Nat) (limit : Nat) (ts : List Token) :
    ofTokens limit (ts.map (·.mapOffset f)) = (ofTokens limit ts).mapError (·.mapOffset f) := by
  unfold ofTokens
  rw [TokenReader.moves_expression limit limit ts]
  cases TokenReader.expression limit limit ts with
  | error refusal => rfl
  | ok answer =>
    obtain ⟨m, rest⟩ := answer
    cases rest with
    | nil => rfl
    | cons t rest => rfl

/-- A text whose tokens and skipped characters are those of another text, moved, compiles as the other. -/
theorem compile_of_mapOffset {f : Nat → Nat} {text text' : String}
    (moved : tokenize text' = (tokenize text).mapOffset f) (options : CompileOptions) :
    compile options text' = (compile options text).mapError (·.mapOffset f) := by
  obtain ⟨mode, limit⟩ := options
  cases mode with
  | lenient =>
    rw [compile_lenient, compile_lenient, moved]
    exact Expr.ofTokens_mapOffset f limit _
  | strict =>
    rw [compile_strict, compile_strict, moved]
    cases skipped : (tokenize text).skipped with
    | nil =>
      simp only [TokenStream.mapOffset, skipped, List.map_nil]
      exact Expr.ofTokens_mapOffset f limit _
    | cons c cs =>
      simp only [TokenStream.mapOffset, skipped, List.map_cons]
      rfl

end DomainColoring
