import DomainColoring.Proofs.Grammar.Lookahead
import DomainColoring.Proofs.Grammar.Prefixes

/-!
# Where a formula is refused

A formula that is refused, but for its nesting, is refused at the first token at which it could no
longer become one. That the tokens before can be completed is shown reader by reader: what a reader has
taken when it refuses begins a phrase (`Refused`), and a few tokens complete it. That those up to the
refused token cannot be completed needs no look at the grammar: no reader has looked any further, so
every list that begins with them is refused in the same way (`TokenReader.Forward`), but a sentence is
refused for its nesting only (`Derives.ofTokens_eq`).
-/

namespace DomainColoring

/-- What the error of a refusal is about, given the tokens before those that it leaves: the first that
it leaves, the end, or the innermost parenthesis left open. -/
def Refusal.Explains (r : Refusal) (pre : List Token) : Prop :=
  match r.error with
  | .unexpectedToken found offset => ∃ t ∈ r.rest.head?, found = t.kind.text ∧ offset = t.offset
  | .unexpectedEnd => r.rest = []
  | .unknownIdentifier name offset => ∃ t ∈ r.rest.head?, t.kind = .ident name ∧ offset = t.offset
  | .missingClosingParen offset =>
    ∃ us p vs, pre = us ++ p :: vs ∧ p.kind = .openParen ∧ p.offset = offset ∧ Balanced vs
  | .trailingInput _ _ => False
  | .nestingTooDeep _ => True
  | .unrecognizedCharacter _ _ => False

/-- The tokens that are taken before a refusal begin a phrase, and explain it. -/
def Refused (p : Phrase) (ts : List Token) (r : Refusal) : Prop :=
  ∃ pre, ts = pre ++ r.rest ∧ p.Opens (pre.map Token.kind) ∧ r.Explains pre

theorem Refusal.Explains.prepend {r : Refusal} {pre : List Token} (h : r.Explains pre)
    (us : List Token) : r.Explains (us ++ pre) := by
  unfold Explains at h ⊢
  split
  · next found offset is => rwa [is] at h
  · next is => rwa [is] at h
  · next name offset is => rwa [is] at h
  · next offset is =>
    rw [is] at h
    obtain ⟨vs, p, ws, rfl, paren⟩ := h
    exact ⟨us ++ vs, p, ws, by rw [List.append_assoc], paren⟩
  · next is => rwa [is] at h
  · trivial
  · next is => rwa [is] at h

namespace Refused

variable {p q : Phrase} {ts : List Token} {r : Refusal}

/-- A refusal within a part is one of the whole. -/
theorem within (h : Refused q ts r) (us : List Token)
    (opens : ∀ {ks}, q.Opens ks → p.Opens (us.map Token.kind ++ ks)) : Refused p (us ++ ts) r := by
  obtain ⟨pre, split, begins, explains⟩ := h
  refine ⟨us ++ pre, by rw [split, List.append_assoc], ?_, explains.prepend us⟩
  rw [List.map_append]
  exact opens begins

theorem here {error : SyntaxError} (opens : p.Opens [])
    (explains : Refusal.Explains ⟨error, ts⟩ []) : Refused p ts ⟨error, ts⟩ :=
  ⟨[], rfl, opens, explains⟩

/-- A phrase that is refused once it is complete is refused for its height. -/
theorem grown {limit height : Nat} {e x : Expr} {n : Nat} {pre rest : List Token}
    (derives : Derives p (pre.map Token.kind) e n)
    (h : TokenReader.grow limit x height rest = .error r) : Refused p (pre ++ rest) r := by
  unfold TokenReader.grow at h
  split at h
  · cases h
    exact ⟨pre, rfl, .of_derives derives, trivial⟩
  · cases h

end Refused

namespace TokenReader

/-- What the reader refuses, it refuses within a phrase `p`. -/
def Refuses (p : Phrase) (read : TokenReader) : Prop :=
  ∀ {ts : List Token} {r : Refusal}, read ts = .error r → Refused p ts r

/-- What the reader one level deeper refuses, it refuses within a unary phrase. -/
def RefusesDeeper (deeper : Option TokenReader) : Prop :=
  ∀ read, deeper = some read → Refuses .unary read

section Layers

variable {limit levels : Nat} {layer : Layer} {op? : TokenKind → Option BinaryOp}
  {operand : TokenReader}

theorem refused_chain (ops : ∀ {k op}, op? k = some op → op ∈ layer.ops ∧ k = op.token)
    (sound : Sound limit levels layer.operand operand) (refuses : Refuses layer.operand operand)
    {fuel : Nat} {l : Expr} {ts : List Token} {r : Refusal}
    (h : chain limit op? operand fuel ⟨l, l.height⟩ ts = .error r) :
    Refused (.more layer l) ts r := by
  induction fuel generalizing l ts with
  | zero => cases h
  | succ fuel ih =>
    cases ts with
    | nil => cases h
    | cons t ts =>
      simp only [chain] at h
      split at h
      · cases h
      · next op isOp =>
        obtain ⟨member, token⟩ := ops isOp
        rcases error_of_bind_error h with stopped | ⟨⟨right, us⟩, read, h⟩
        · refine (refuses stopped).within [t] fun opens => ?_
          rw [List.map_singleton, token]
          exact .operand member opens
        obtain ⟨pre, x, i, rfl, rfl, derives, -, -⟩ := sound read
        rcases error_of_bind_error h with stopped | ⟨⟨left, vs⟩, grown, h⟩
        · have whole : Derives (.more layer l) ((t :: pre).map Token.kind) (.binary op l x)
              (max i 0) := by
            rw [List.map_cons, token, ← (pre.map Token.kind).append_nil]
            exact .more member derives .done
          exact Refused.grown whole stopped
        obtain ⟨-, rfl, rfl⟩ := of_grow grown
        refine (ih (l := .binary op l x) h).within (t :: pre) fun opens => ?_
        rw [List.map_cons, token]
        exact .more member derives opens

theorem refuses_joined (ops : ∀ {k op}, op? k = some op → op ∈ layer.ops ∧ k = op.token)
    (sound : Sound limit levels layer.operand operand) (refuses : Refuses layer.operand operand) :
    Refuses (.joined layer) (joined limit op? operand) := by
  intro ts r h
  rcases error_of_bind_error h with stopped | ⟨⟨left, us⟩, read, h⟩
  · exact (refuses stopped).within [] .first
  obtain ⟨pre, l, n, rfl, rfl, derives, -, -⟩ := sound read
  exact (refused_chain ops sound refuses h).within pre (.rest derives)

end Layers

section Level

variable {limit levels : Nat} {deeper : Option TokenReader}

theorem refuses_sum {unary : TokenReader} (sound : Sound limit levels .unary unary)
    (refuses : Refuses .unary unary) : Refuses .expression (sum limit unary) :=
  refuses_joined of_sumOp? (sound_joined of_productOp? sound)
    (refuses_joined of_productOp? sound refuses)

theorem refuses_nested (refuses : RefusesDeeper deeper) : Refuses .unary (nested limit deeper) := by
  intro ts r h
  cases deeper with
  | none =>
    cases h
    exact .here Phrase.Opens.nothing.1 trivial
  | some read => exact refuses read rfl h

/-- A refusal between parentheses, or where they should be closed, when the tokens `us` come before. -/
theorem refused_enclosed (sound : SoundDeeper limit levels deeper) (refuses : RefusesDeeper deeper)
    (us : List Token) {p : Token} {ts : List Token} {r : Refusal} (opens : p.kind = .openParen)
    (h : enclosed limit deeper p.offset ts = .error r) {q : Phrase}
    (begins : ∀ {ks}, Phrase.expression.Opens ks → q.Opens ((us ++ [p]).map Token.kind ++ ks)) :
    Refused q (us ++ p :: ts) r := by
  have split (vs : List Token) : us ++ p :: vs = (us ++ [p]) ++ vs := by simp
  rcases error_of_bind_error h with stopped | ⟨⟨inner, vs⟩, read, h⟩
  · rw [split]
    refine Refused.within (q := .expression) ?_ (us ++ [p]) begins
    cases deeper with
    | none =>
      cases stopped
      exact .here Phrase.Opens.nothing.2 trivial
    | some unary =>
      obtain ⟨k, -, sound⟩ := sound unary rfl
      exact refuses_sum sound (refuses unary rfl) stopped
  rcases error_of_bind_error h with stopped | ⟨ws, closed, h⟩
  · cases deeper with
    | none => cases read
    | some unary =>
      obtain ⟨k, -, sound⟩ := sound unary rfl
      obtain ⟨pre, e, n, rfl, rfl, derives, -, -⟩ := sound_sum sound read
      have left : r = ⟨.missingClosingParen p.offset, vs⟩ := by
        unfold closing at stopped
        split at stopped
        · exact (Except.error.inj stopped).symm
        · split at stopped
          · cases stopped
          · exact (Except.error.inj stopped).symm
      subst left
      refine ⟨us ++ p :: pre, by simp, ?_, us, p, pre, rfl, opens, rfl, derives.balanced rfl⟩
      have whole := begins (.of_derives derives)
      rwa [← List.map_append, ← split] at whole
  · cases h

theorem refuses_base (sound : SoundDeeper limit levels deeper) (refuses : RefusesDeeper deeper) :
    Refuses .base (base limit deeper) := by
  intro ts r h
  cases ts with
  | nil =>
    cases h
    exact .here .base rfl
  | cons t ts =>
    simp only [base] at h
    split at h
    · cases h
    · next name isName =>
      simp only [identifier] at h
      split at h
      · cases h
      · split at h
        · cases h
          exact .here .base ⟨t, rfl, isName, rfl⟩
        · next func called =>
          obtain ⟨named, rfl⟩ := of_ofName? called
          have begun : Phrase.base.Opens ([t].map Token.kind) := by
            rw [List.map_singleton, isName]
            exact .name named
          split at h
          · cases h
            exact ⟨[t], rfl, begun, rfl⟩
          · next p us =>
            split at h
            · next opens =>
              have begins {ks : List TokenKind} (inner : Phrase.expression.Opens ks) :
                  Phrase.base.Opens (([t] ++ [p]).map Token.kind ++ ks) := by
                simp only [List.cons_append, List.nil_append, List.map_cons, List.map_nil, isName,
                  opens]
                exact .call named inner
              rcases error_of_bind_error h with stopped | ⟨⟨argument, vs⟩, read, h⟩
              · exact refused_enclosed sound refuses [t] opens stopped begins
              · obtain ⟨k, c, -, closes, pre, e, n, rfl, rfl, derives, -, -⟩ :=
                  sound_enclosed sound read
                have whole : Derives .base ((t :: p :: (pre ++ [c])).map Token.kind)
                    (.unary func e) (n + 1) := by
                  simp only [List.map_cons, List.map_append, List.map_nil, isName, opens, closes]
                  exact .call named derives
                have refused := Refused.grown whole h
                simpa using refused
            · cases h
              exact ⟨[t], rfl, begun, p, rfl, rfl, rfl⟩
    · next opens =>
      refine refused_enclosed sound refuses [] opens h fun inner => ?_
      rw [List.nil_append, List.map_singleton, opens]
      exact .paren inner
    · cases h
      exact .here .base ⟨t, rfl, rfl, rfl⟩

theorem refuses_factor (sound : SoundDeeper limit levels deeper) (refuses : RefusesDeeper deeper) :
    Refuses .factor (factor limit deeper) := by
  intro ts r h
  rcases error_of_bind_error h with stopped | ⟨⟨left, us⟩, read, h⟩
  · exact (refuses_base sound refuses stopped).within [] .factor
  obtain ⟨pre, b, m, rfl, rfl, derives, -, -⟩ := sound_base sound read
  cases us with
  | nil => cases h
  | cons t us =>
    simp only [raised] at h
    split at h
    · next caret =>
      have split (vs : List Token) : pre ++ t :: vs = (pre ++ [t]) ++ vs := by simp
      have kinds : (pre ++ [t]).map Token.kind = pre.map Token.kind ++ [.caret] := by simp [caret]
      rcases error_of_bind_error h with stopped | ⟨⟨exponent, vs⟩, read, h⟩
      · rw [split]
        refine (refuses_nested refuses stopped).within (pre ++ [t]) fun opens => ?_
        rw [kinds, List.append_assoc]
        exact .power derives opens
      · obtain ⟨k, -, more, x, n, rfl, rfl, power, -, -⟩ := sound_nested sound read
        have whole : Derives .factor ((pre ++ t :: more).map Token.kind) (.binary .pow b x)
            (max m (n + 1)) := by
          rw [List.map_append, List.map_cons, caret]
          exact .power derives power
        have refused := Refused.grown whole h
        simpa using refused
    · cases h

theorem refuses_signed (sound : SoundDeeper limit levels deeper) (refuses : RefusesDeeper deeper) :
    Refuses .unary (signed limit deeper) := by
  have plain {ts : List Token} {r : Refusal} (h : factor limit deeper ts = .error r) :
      Refused .unary ts r := (refuses_factor sound refuses h).within [] .unary
  intro ts r h
  unfold signed at h
  split at h
  · exact plain h
  · next t ts =>
    split at h
    · next minus =>
      rcases error_of_bind_error h with stopped | ⟨⟨operand, us⟩, read, h⟩
      · refine (refuses_nested refuses stopped).within [t] fun opens => ?_
        rw [List.map_singleton, minus]
        exact .negation opens
      · obtain ⟨k, -, pre, e, n, rfl, rfl, derives, -, -⟩ := sound_nested sound read
        have whole : Derives .unary ((t :: pre).map Token.kind) (.unary .neg e) (n + 1) := by
          rw [List.map_cons, minus]
          exact .negation derives
        exact Refused.grown whole h
    · exact plain h

end Level

theorem refuses_unary (limit levels : Nat) : Refuses .unary (unary limit levels) := by
  induction levels with
  | zero =>
    rw [unary_eq_signed]
    have sound : SoundDeeper limit 0 (deeper limit 0) := fun read h => by cases h
    have refuses : RefusesDeeper (deeper limit 0) := fun read h => by cases h
    intro ts r h
    exact refuses_signed sound refuses h
  | succ k ih =>
    rw [unary_eq_signed]
    have sound : SoundDeeper limit (k + 1) (deeper limit (k + 1)) := by
      rintro read ⟨⟩
      exact ⟨k, rfl, sound_unary limit k⟩
    have refuses : RefusesDeeper (deeper limit (k + 1)) := by
      rintro read ⟨⟩
      exact ih
    intro ts r h
    exact refuses_signed sound refuses h

theorem refuses_expression (limit levels : Nat) :
    Refuses .expression (expression limit levels) := by
  intro ts r h
  cases levels with
  | zero =>
    cases h
    exact .here Phrase.Opens.nothing.2 trivial
  | succ k => exact refuses_sum (sound_unary limit k) (refuses_unary limit k) h

end TokenReader

section Sentences

variable {limit : Nat} {e : SyntaxError}

/-- A sentence is refused for its nesting only. -/
theorem not_sentence_of_error {ts : List Token} (h : Expr.ofTokens limit ts = .error e)
    (flat : ∀ n, e ≠ .nestingTooDeep n) : ¬Sentence ts := by
  rintro ⟨x, n, derives⟩
  rw [derives.ofTokens_eq] at h
  split at h
  · cases h
  · exact flat limit (Except.error.inj h).symm

/-- Tokens are no beginning of a formula if whatever begins with them is refused in one way. -/
theorem not_viable_of_error {ts : List Token} (flat : ∀ n, e ≠ .nestingTooDeep n)
    (h : ∀ us, Expr.ofTokens limit (ts ++ us) = .error e) : ¬Viable ts := by
  rintro ⟨us, sentence⟩
  exact not_sentence_of_error (h us) flat sentence

variable {pre us : List Token} {t : Token}

/-- A refusal that leaves a token is the refusal of all that begins with the tokens up to it. -/
theorem ofTokens_of_refused
    (h : TokenReader.expression limit limit (pre ++ t :: us) = .error ⟨e, t :: us⟩)
    (vs : List Token) : Expr.ofTokens limit (pre ++ [t] ++ vs) = .error e := by
  have share : Share t us vs (pre ++ t :: us) (pre ++ t :: vs) := ⟨pre, rfl, rfl⟩
  have alike := (TokenReader.forward_expression limit limit).alike share
  rw [h] at alike
  rw [List.append_assoc, List.cons_append, List.nil_append, Expr.ofTokens, alike.of_error]

/-- An expression that a token follows is an expression that is followed by it in all that begins so. -/
theorem ofTokens_of_trailed {m : Measured}
    (h : TokenReader.expression limit limit (pre ++ t :: us) = .ok (m, t :: us))
    (vs : List Token) :
    Expr.ofTokens limit (pre ++ [t] ++ vs) = .error (.trailingInput t.kind.text t.offset) := by
  have share : Share t us vs (pre ++ t :: us) (pre ++ t :: vs) := ⟨pre, rfl, rfl⟩
  have alike := (TokenReader.forward_expression limit limit).alike share
  rw [h] at alike
  rw [List.append_assoc, List.cons_append, List.nil_append, Expr.ofTokens, alike.of_ok]

end Sentences

/-- The tokens before a token begin a formula, and those up to it do not. -/
def StopsAt (ts pre : List Token) (t : Token) : Prop :=
  (∃ post, ts = pre ++ t :: post) ∧ Viable pre ∧ ¬Viable (pre ++ [t])

/-- What an error says of the tokens that are refused, unless it is about their nesting. -/
def SyntaxError.Describes (ts : List Token) : SyntaxError → Prop
  | unexpectedToken found offset =>
    ∃ pre t, StopsAt ts pre t ∧ found = t.kind.text ∧ offset = t.offset
  | unexpectedEnd => Viable ts ∧ ¬Sentence ts
  | unknownIdentifier name offset =>
    ∃ pre t, StopsAt ts pre t ∧ t.kind = .ident name ∧ offset = t.offset
  | missingClosingParen offset =>
    ∃ pre post, ts = pre ++ post ∧ Viable pre ∧ (∀ t ∈ post.head?, ¬Viable (pre ++ [t])) ∧
      ∃ p ∈ (unclosed pre).head?, offset = p.offset
  | trailingInput found offset =>
    ∃ pre t, StopsAt ts pre t ∧ Sentence pre ∧ found = t.kind.text ∧ offset = t.offset
  | nestingTooDeep _ => True
  | unrecognizedCharacter _ _ => False

/-- A list of tokens that is refused, but for its nesting, is refused where it can no longer be completed.
An unexpected token, an unknown name and what trails a formula are the first token at which that is so,
and a formula that has a trail is complete before it. Where a parenthesis is missing, the innermost that
is open is named, and the tokens end or the next one cannot stand there. At an unexpected end the tokens
can be completed but are not complete. -/
theorem describes_of_ofTokens_error {limit : Nat} {ts : List Token} {error : SyntaxError}
    (h : Expr.ofTokens limit ts = .error error) : error.Describes ts := by
  have whole := h
  unfold Expr.ofTokens at h
  split at h
  · next refusal refused =>
    cases h
    obtain ⟨pre, rfl, begins, explains⟩ := TokenReader.refuses_expression limit limit refused
    obtain ⟨error, rest⟩ := refusal
    have stops {t : Token} (first : t ∈ rest.head?) (flat : ∀ n, error ≠ .nestingTooDeep n) :
        ¬Viable (pre ++ [t]) := by
      obtain ⟨us, rfl⟩ := List.head?_eq_some_iff.1 first
      exact not_viable_of_error flat (ofTokens_of_refused refused)
    have stopsAt {t : Token} (first : t ∈ rest.head?) (flat : ∀ n, error ≠ .nestingTooDeep n) :
        StopsAt (pre ++ rest) pre t := by
      obtain ⟨us, rfl⟩ := List.head?_eq_some_iff.1 first
      exact ⟨⟨us, rfl⟩, begins.viable, stops first flat⟩
    cases error with
    | unexpectedToken found offset =>
      obtain ⟨t, first, text, place⟩ := explains
      exact ⟨pre, t, stopsAt first (by simp), text, place⟩
    | unexpectedEnd =>
      have ended : rest = [] := explains
      subst ended
      rw [List.append_nil] at whole ⊢
      exact ⟨begins.viable, not_sentence_of_error whole (by simp)⟩
    | unknownIdentifier name offset =>
      obtain ⟨t, first, text, place⟩ := explains
      exact ⟨pre, t, stopsAt first (by simp), text, place⟩
    | missingClosingParen offset =>
      obtain ⟨us, p, vs, rfl, opens, place, balanced⟩ := explains
      refine ⟨_, rest, rfl, begins.viable, fun t first => stops first (by simp), p, ?_, place.symm⟩
      rw [unclosed_append_cons opens balanced]
      rfl
    | trailingInput found offset => exact explains.elim
    | nestingTooDeep limit => trivial
    | unrecognizedCharacter char offset => exact explains.elim
  · cases h
  · next m t us read =>
    cases h
    obtain ⟨k, -, pre, e, n, rfl, rfl, derives, -, -⟩ := TokenReader.sound_expression read
    have sentence : Sentence pre := ⟨e, n, derives⟩
    have viable : Viable pre := ⟨[], by rwa [List.append_nil]⟩
    have stops := not_viable_of_error (by simp) (ofTokens_of_trailed read)
    exact ⟨pre, t, ⟨⟨us, rfl⟩, viable, stops⟩, sentence, rfl, rfl⟩

/-- The tokens of `(z-(i) 2)`, where an operator is missing within the first pair of parentheses. -/
def unjoined : List Token :=
  [⟨.openParen, 0⟩, ⟨.ident "z", 1⟩, ⟨.minus, 2⟩, ⟨.openParen, 3⟩, ⟨.ident "i", 4⟩,
    ⟨.closeParen, 5⟩, ⟨.number 2, 7⟩, ⟨.closeParen, 8⟩]

theorem describes_of_ofTokens_error_unjoined :
    Expr.ofTokens 3 unjoined = .error (.missingClosingParen 0) ∧
      (SyntaxError.missingClosingParen 0).Describes unjoined := by
  have refused : Expr.ofTokens 3 unjoined = .error (.missingClosingParen 0) := rfl
  exact ⟨refused, describes_of_ofTokens_error refused⟩

end DomainColoring
