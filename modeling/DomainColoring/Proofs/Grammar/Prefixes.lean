import DomainColoring.Proofs.Grammar.Completeness

/-!
# Beginnings of formulas

Which tokens begin a formula (`Viable`), and which begin a phrase of the grammar (`Phrase.Opens`): for
each rule, what begins a part of it begins the whole after the parts before. And which parentheses
tokens leave open (`unclosed`), innermost first: a phrase closes all that it opens
(`Derives.balanced`).
-/

namespace DomainColoring

/-- The tokens make up a formula. -/
def Sentence (ts : List Token) : Prop := ∃ e n, Derives .expression (ts.map Token.kind) e n

/-- The tokens begin a formula. -/
def Viable (ts : List Token) : Prop := ∃ us, Sentence (ts ++ us)

section Parentheses

/-- The parentheses that are open after one more token, innermost first. -/
def nest (opened : List Token) (t : Token) : List Token :=
  match t.kind with
  | .openParen => t :: opened
  | .closeParen => opened.tail
  | _ => opened

/-- The parentheses that some tokens leave open, innermost first. -/
def unclosed (ts : List Token) : List Token := ts.foldl nest []

/-- The tokens close all that they open and nothing else. -/
def Balanced (ts : List Token) : Prop := ∀ opened, ts.foldl nest opened = opened

theorem nest_openParen {t : Token} (opens : t.kind = .openParen) (opened : List Token) :
    nest opened t = t :: opened := by
  rw [nest, opens]

theorem nest_closeParen {t : Token} (closes : t.kind = .closeParen) (opened : List Token) :
    nest opened t = opened.tail := by
  rw [nest, closes]

theorem unclosed_append_cons {us vs : List Token} {p : Token} (opens : p.kind = .openParen)
    (balanced : Balanced vs) : unclosed (us ++ p :: vs) = p :: unclosed us := by
  rw [unclosed, List.foldl_append, List.foldl_cons, nest_openParen opens, balanced]
  rfl

theorem Balanced.append {us vs : List Token} (h : Balanced us) (k : Balanced vs) :
    Balanced (us ++ vs) := by
  intro opened
  rw [List.foldl_append, h, k]

/-- Tokens other than parentheses open and close nothing. -/
theorem Balanced.cons {t : Token} {ts : List Token} (noOpen : t.kind ≠ .openParen)
    (noClose : t.kind ≠ .closeParen) (h : Balanced ts) : Balanced (t :: ts) := by
  intro opened
  have same : nest opened t = opened := by
    unfold nest
    split
    · next opens => exact absurd opens noOpen
    · next closes => exact absurd closes noClose
    · rfl
  rw [List.foldl_cons, same, h]

theorem Balanced.enclosed {p c : Token} {ts : List Token} (opens : p.kind = .openParen)
    (closes : c.kind = .closeParen) (h : Balanced ts) : Balanced (p :: (ts ++ [c])) := by
  intro opened
  rw [List.foldl_cons, nest_openParen opens, List.foldl_append, h, List.foldl_cons,
    nest_closeParen closes]
  rfl

theorem balanced_nil : Balanced [] := fun _ => rfl

theorem balanced_single {ts : List Token} {k : TokenKind} (kinds : ts.map Token.kind = [k])
    (noOpen : k ≠ .openParen) (noClose : k ≠ .closeParen) : Balanced ts := by
  obtain ⟨t, _, rfl, rfl, nothing⟩ := List.map_eq_cons_iff.1 kinds
  obtain rfl := List.map_eq_nil_iff.1 nothing
  exact .cons noOpen noClose balanced_nil

theorem BinaryOp.token_ne_paren (op : BinaryOp) :
    op.token ≠ .openParen ∧ op.token ≠ .closeParen := by
  cases op <;> exact ⟨by simp [token], by simp [token]⟩

/-- The parentheses of a phrase are its own. -/
theorem Derives.balanced {p : Phrase} {ks : List TokenKind} {e : Expr} {n : Nat}
    (h : Derives p ks e n) {ts : List Token} (kinds : ts.map Token.kind = ks) : Balanced ts := by
  induction h generalizing ts with
  | joined _ _ first rest =>
    obtain ⟨us, vs, rfl, here, there⟩ := List.map_eq_append_iff.1 kinds
    exact (first here).append (rest there)
  | done =>
    obtain rfl := List.map_eq_nil_iff.1 kinds
    exact balanced_nil
  | @more layer op _ _ _ _ _ _ _ _ _ _ operand rest =>
    obtain ⟨t, _, rfl, token, kinds⟩ := List.map_eq_cons_iff.1 kinds
    obtain ⟨us, vs, rfl, here, there⟩ := List.map_eq_append_iff.1 kinds
    obtain ⟨noOpen, noClose⟩ := op.token_ne_paren
    exact .cons (token ▸ noOpen) (token ▸ noClose) ((operand here).append (rest there))
  | negation _ operand =>
    obtain ⟨t, us, rfl, minus, kinds⟩ := List.map_eq_cons_iff.1 kinds
    exact .cons (minus ▸ by simp) (minus ▸ by simp) (operand kinds)
  | unary _ factor => exact factor kinds
  | power _ _ base exponent =>
    obtain ⟨us, _, rfl, here, kinds⟩ := List.map_eq_append_iff.1 kinds
    obtain ⟨t, vs, rfl, caret, kinds⟩ := List.map_eq_cons_iff.1 kinds
    exact (base here).append (.cons (caret ▸ by simp) (caret ▸ by simp) (exponent kinds))
  | factor _ base => exact base kinds
  | call _ _ argument =>
    obtain ⟨t, _, rfl, name, kinds⟩ := List.map_eq_cons_iff.1 kinds
    obtain ⟨p, _, rfl, opens, kinds⟩ := List.map_eq_cons_iff.1 kinds
    obtain ⟨us, _, rfl, here, kinds⟩ := List.map_eq_append_iff.1 kinds
    obtain ⟨c, _, rfl, closes, kinds⟩ := List.map_eq_cons_iff.1 kinds
    obtain rfl := List.map_eq_nil_iff.1 kinds
    exact .cons (name ▸ by simp) (name ▸ by simp) (.enclosed opens closes (argument here))
  | paren _ inner =>
    obtain ⟨p, _, rfl, opens, kinds⟩ := List.map_eq_cons_iff.1 kinds
    obtain ⟨us, _, rfl, here, kinds⟩ := List.map_eq_append_iff.1 kinds
    obtain ⟨c, _, rfl, closes, kinds⟩ := List.map_eq_cons_iff.1 kinds
    obtain rfl := List.map_eq_nil_iff.1 kinds
    exact .enclosed opens closes (inner here)
  | _ => exact balanced_single kinds (by simp) (by simp)

end Parentheses

namespace Phrase

/-- The tokens begin a phrase: some others complete it. -/
def Opens (p : Phrase) (ks : List TokenKind) : Prop := ∃ ls e n, Derives p (ks ++ ls) e n

namespace Opens

variable {layer : Layer} {op : BinaryOp} {ks ls : List TokenKind} {l r e : Expr} {n : Nat}

theorem of_derives {p : Phrase} (h : Derives p ks e n) : p.Opens ks :=
  ⟨[], e, n, by rwa [List.append_nil]⟩

theorem first (h : layer.operand.Opens ks) : (joined layer).Opens ks := by
  obtain ⟨ls, e, n, derives⟩ := h
  exact ⟨ls, e, n, derives.joined_of_operand⟩

theorem rest (first : Derives layer.operand ks l n) (h : (Phrase.more layer l).Opens ls) :
    (joined layer).Opens (ks ++ ls) := by
  obtain ⟨more, e, m, derives⟩ := h
  exact ⟨more, e, max n m, by simpa using Derives.joined first derives⟩

theorem operand (isOp : op ∈ layer.ops) (h : layer.operand.Opens ks) :
    (Phrase.more layer l).Opens (op.token :: ks) := by
  obtain ⟨ls, r, n, derives⟩ := h
  exact ⟨ls, _, _, by simpa using Derives.more isOp derives (.done (l := .binary op l r))⟩

theorem more (isOp : op ∈ layer.ops) (operand : Derives layer.operand ks r n)
    (h : (Phrase.more layer (.binary op l r)).Opens ls) :
    (Phrase.more layer l).Opens (op.token :: (ks ++ ls)) := by
  obtain ⟨rest, e, m, derives⟩ := h
  exact ⟨rest, e, max n m, by simpa using Derives.more isOp operand derives⟩

theorem negation (h : Phrase.unary.Opens ks) : Phrase.unary.Opens (.minus :: ks) := by
  obtain ⟨ls, e, n, derives⟩ := h
  exact ⟨ls, _, _, .negation derives⟩

theorem unary (h : Phrase.factor.Opens ks) : Phrase.unary.Opens ks := by
  obtain ⟨ls, e, n, derives⟩ := h
  exact ⟨ls, e, n, .unary derives⟩

theorem power (base : Derives .base ks l n) (h : Phrase.unary.Opens ls) :
    Phrase.factor.Opens (ks ++ .caret :: ls) := by
  obtain ⟨rest, e, m, derives⟩ := h
  exact ⟨rest, _, _, by simpa using Derives.power base derives⟩

theorem factor (h : Phrase.base.Opens ks) : Phrase.factor.Opens ks := by
  obtain ⟨ls, e, n, derives⟩ := h
  exact ⟨ls, e, n, .factor derives⟩

theorem base : Phrase.base.Opens [] := ⟨[.ident "z"], .var, 0, .var⟩

theorem call {func : UnaryFunc} (named : func ∈ UnaryFunc.named) (h : expression.Opens ks) :
    Phrase.base.Opens (.ident func.name :: .openParen :: ks) := by
  obtain ⟨ls, e, n, derives⟩ := h
  exact ⟨ls ++ [.closeParen], _, _, by simpa using Derives.call named derives⟩

theorem name {func : UnaryFunc} (named : func ∈ UnaryFunc.named) :
    Phrase.base.Opens [.ident func.name] :=
  ⟨_, _, _, .call named (.expression_of_unary (.unary (.factor .var)))⟩

theorem paren (h : expression.Opens ks) : Phrase.base.Opens (.openParen :: ks) := by
  obtain ⟨ls, e, n, derives⟩ := h
  exact ⟨ls ++ [.closeParen], _, _, by simpa using Derives.paren derives⟩

/-- Nothing needs to be there of a formula for something to complete it. -/
theorem nothing : Phrase.unary.Opens [] ∧ expression.Opens [] := by
  have unary : Phrase.unary.Opens [] := .unary (.factor .base)
  have term : term.Opens [] := first unary
  exact ⟨unary, first term⟩

end Opens

end Phrase

theorem Phrase.Opens.viable {ts : List Token} (h : expression.Opens (ts.map Token.kind)) :
    Viable ts := by
  obtain ⟨ks, e, n, derives⟩ := h
  exact ⟨tokensOf ks, e, n, by rwa [List.map_append, kinds_tokensOf]⟩

end DomainColoring
