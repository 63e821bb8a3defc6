import DomainColoring.Proofs.Grammar.Completeness
import DomainColoring.Proofs.Grammar.Limits

/-!
# Plain formulas

The formulas without negation and with the fewest names:

    Expression := Term (('+' | '-') Term)*
    Term       := Factor (('*' | '/') Factor)*
    Factor     := Base ('^' Factor)?
    Base       := number | 'z' | 'i' | FUNC '(' Expression ')' | '(' Expression ')'
    FUNC       := 'sin' | 'cos' | 'exp' | 'log'

Here the exponent is a factor and the operands of a term are factors; in the grammar of formulas both are
unary phrases, of which the factors are some. So a plain formula is a formula that stands for the same tree
(`DerivesPlain.derives`), and as that grammar is unambiguous it stands for no other (`ofTokens_of_plain`).
-/

namespace DomainColoring

/-- The functions that plain formulas call. -/
def UnaryFunc.plain : List UnaryFunc := [sin, cos, exp, log]

/-- The forms of plain phrases. -/
inductive PlainPhrase where
  | joined (layer : Layer)
  /-- The operators and operands that follow what stands for `left`. -/
  | more (layer : Layer) (left : Expr)
  | factor
  | base
deriving DecidableEq, Repr

/-- What the operators of a layer join in plain formulas. -/
def Layer.plainOperand : Layer → PlainPhrase
  | sums => .joined .products
  | products => .factor

/-- `DerivesPlain p ks e`: the tokens `ks` are a plain phrase `p`, which stands for `e`. -/
inductive DerivesPlain : PlainPhrase → List TokenKind → Expr → Prop
  | joined {layer : Layer} {ks ls : List TokenKind} {l e : Expr}
      (first : DerivesPlain layer.plainOperand ks l) (rest : DerivesPlain (.more layer l) ls e) :
      DerivesPlain (.joined layer) (ks ++ ls) e
  | done {layer : Layer} {l : Expr} : DerivesPlain (.more layer l) [] l
  | more {layer : Layer} {op : BinaryOp} {ks ls : List TokenKind} {l r e : Expr}
      (isOp : op ∈ layer.ops) (operand : DerivesPlain layer.plainOperand ks r)
      (rest : DerivesPlain (.more layer (.binary op l r)) ls e) :
      DerivesPlain (.more layer l) (op.token :: (ks ++ ls)) e
  | power {ks ls : List TokenKind} {b x : Expr} (base : DerivesPlain .base ks b)
      (exponent : DerivesPlain .factor ls x) :
      DerivesPlain .factor (ks ++ .caret :: ls) (.binary .pow b x)
  | factor {ks : List TokenKind} {e : Expr} (base : DerivesPlain .base ks e) :
      DerivesPlain .factor ks e
  | number (value : Float) : DerivesPlain .base [.number value] (.constant (.real value))
  | var : DerivesPlain .base [.ident "z"] .var
  | unit : DerivesPlain .base [.ident "i"] (.constant .unit)
  | call {func : UnaryFunc} {ks : List TokenKind} {e : Expr} (plain : func ∈ UnaryFunc.plain)
      (argument : DerivesPlain (.joined .sums) ks e) :
      DerivesPlain .base (.ident func.name :: .openParen :: (ks ++ [.closeParen])) (.unary func e)
  | paren {ks : List TokenKind} {e : Expr} (inner : DerivesPlain (.joined .sums) ks e) :
      DerivesPlain .base (.openParen :: (ks ++ [.closeParen])) e

/-- The form of phrases among which the plain phrases of a form are. -/
def PlainPhrase.phrase : PlainPhrase → Phrase
  | joined layer => .joined layer
  | more layer left => .more layer left
  | factor => .factor
  | base => .base

theorem UnaryFunc.named_of_plain {func : UnaryFunc} (plain : func ∈ UnaryFunc.plain) :
    func ∈ UnaryFunc.named := by
  revert func
  decide

/-- A plain operand of a layer is an operand of the layer: a factor is a unary phrase. -/
theorem Layer.derives_operand {layer : Layer} {ks : List TokenKind} {e : Expr} {n : Nat}
    (h : Derives layer.plainOperand.phrase ks e n) : Derives layer.operand ks e n := by
  cases layer with
  | sums => exact h
  | products => exact .unary h

/-- A plain phrase is a phrase, and stands for the same tree. -/
theorem DerivesPlain.derives {p : PlainPhrase} {ks : List TokenKind} {e : Expr}
    (h : DerivesPlain p ks e) : ∃ n, Derives p.phrase ks e n := by
  induction h with
  | joined _ _ first rest =>
    obtain ⟨m, first⟩ := first
    obtain ⟨n, rest⟩ := rest
    exact ⟨max m n, .joined (Layer.derives_operand first) rest⟩
  | done => exact ⟨0, .done⟩
  | more isOp _ _ operand rest =>
    obtain ⟨m, operand⟩ := operand
    obtain ⟨n, rest⟩ := rest
    exact ⟨max m n, .more isOp (Layer.derives_operand operand) rest⟩
  | power _ _ base exponent =>
    obtain ⟨m, base⟩ := base
    obtain ⟨n, exponent⟩ := exponent
    exact ⟨max m (n + 1), .power base (.unary exponent)⟩
  | factor _ base =>
    obtain ⟨n, base⟩ := base
    exact ⟨n, .factor base⟩
  | number value => exact ⟨0, .number value⟩
  | var => exact ⟨0, .var⟩
  | unit => exact ⟨0, .unit⟩
  | call plain _ argument =>
    obtain ⟨n, argument⟩ := argument
    exact ⟨n + 1, .call (UnaryFunc.named_of_plain plain) argument⟩
  | paren _ inner =>
    obtain ⟨n, inner⟩ := inner
    exact ⟨n + 1, .paren inner⟩

/-- A phrase compiles under every limit above the number of its tokens. -/
theorem Derives.ofTokens_eq_ok {limit : Nat} {ts : List Token} {e : Expr} {n : Nat}
    (h : Derives .expression (ts.map Token.kind) e n) (room : ts.length + 1 ≤ limit) :
    Expr.ofTokens limit ts = .ok e := by
  have answer := h.ofTokens_eq limit
  split at answer
  · exact answer
  · exact absurd answer (Expr.ofTokens_ne_nestingTooDeep room limit)

/-- A plain formula compiles under every limit above the number of its tokens, and the tree is the one that
the plain grammar gives it; it gives no other. -/
theorem ofTokens_of_plain {limit : Nat} {ts : List Token} {e : Expr}
    (h : DerivesPlain (.joined .sums) (ts.map Token.kind) e) (room : ts.length + 1 ≤ limit) :
    Expr.ofTokens limit ts = .ok e ∧
      ∀ d, DerivesPlain (.joined .sums) (ts.map Token.kind) d → d = e := by
  obtain ⟨n, formula⟩ := h.derives
  refine ⟨formula.ofTokens_eq_ok room, fun d other => ?_⟩
  obtain ⟨m, other⟩ := other.derives
  exact (other.unique formula).1

/-- The tokens of `z^i^2-sin(z)/3-i`. -/
def plainDifference : List Token :=
  [⟨.ident "z", 0⟩, ⟨.caret, 1⟩, ⟨.ident "i", 2⟩, ⟨.caret, 3⟩, ⟨.number 2, 4⟩, ⟨.minus, 5⟩,
    ⟨.ident "sin", 6⟩, ⟨.openParen, 9⟩, ⟨.ident "z", 10⟩, ⟨.closeParen, 11⟩, ⟨.slash, 12⟩,
    ⟨.number 3, 13⟩, ⟨.minus, 14⟩, ⟨.ident "i", 15⟩]

theorem ofTokens_of_plain_difference :
    ∃ e, DerivesPlain (.joined .sums) (plainDifference.map Token.kind) e ∧
      Expr.ofTokens 15 plainDifference = .ok e ∧
      e = .binary .sub
        (.binary .sub
          (.binary .pow .var (.binary .pow (.constant .unit) (.constant (.real 2))))
          (.binary .div (.unary .sin .var) (.constant (.real 3))))
        (.constant .unit) := by
  have isQuotient : BinaryOp.div ∈ Layer.products.ops := by decide
  have isDifference : BinaryOp.sub ∈ Layer.sums.ops := by decide
  have alone {ks : List TokenKind} {e : Expr} (h : DerivesPlain .factor ks e) :
      DerivesPlain (.joined .products) (ks ++ []) e := .joined h .done
  have argument : DerivesPlain (.joined .sums) (([.ident "z"] ++ []) ++ []) .var :=
    .joined (alone (.factor .var)) .done
  have powers : DerivesPlain .factor
      ([.ident "z"] ++ .caret :: ([.ident "i"] ++ .caret :: [.number 2])) _ :=
    .power .var (.power .unit (.factor (.number 2)))
  have sine : DerivesPlain .base
      (.ident UnaryFunc.sin.name :: .openParen :: ([.ident "z"] ++ [.closeParen])) (.unary .sin .var) :=
    .call (by decide) argument
  have quotient : DerivesPlain (.joined .products)
      ([.ident "sin", .openParen, .ident "z", .closeParen] ++ .slash :: ([.number 3] ++ [])) _ :=
    .joined (.factor sine) (.more isQuotient (.factor (.number 3)) .done)
  have differences (l : Expr) : DerivesPlain (.more .sums l)
      (.minus :: ([.ident "sin", .openParen, .ident "z", .closeParen, .slash, .number 3] ++
        .minus :: ([.ident "i"] ++ []))) _ :=
    .more isDifference quotient (.more isDifference (alone (.factor .unit)) .done)
  have sentence : DerivesPlain (.joined .sums) (plainDifference.map Token.kind) _ :=
    @DerivesPlain.joined .sums _ _ _ _ (alone powers) (differences _)
  exact ⟨_, sentence, (ofTokens_of_plain sentence (by decide)).1, rfl⟩

end DomainColoring
