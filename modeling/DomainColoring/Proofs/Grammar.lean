import DomainColoring.Expr.Parser

/-!
# The grammar of formulas

Which tokens make up a formula, which tree they stand for and how deeply they nest, said without
reading them:

    Expression := Term (('+' | '-') Term)*
    Term       := Unary (('*' | '/') Unary)*
    Unary      := '-' Unary | Factor
    Factor     := Base ('^' Unary)?
    Base       := number | 'z' | 'i' | 'pi' | 'e'
                | function '(' Expression ')' | '(' Expression ')'

Expressions and terms differ only in their operators and operands, so they are one form on two
layers. The repetition in it is a phrase of its own, which carries the tree of what stands before:
operators of one layer associate to the left.
-/

namespace DomainColoring

/-- The token that an operator is written as. -/
def BinaryOp.token : BinaryOp → TokenKind
  | add => .plus
  | sub => .minus
  | mul => .star
  | div => .slash
  | pow => .caret

/-- The layers of operators that associate to the left. -/
inductive Layer where
  | sums
  | products
deriving DecidableEq, Repr

def Layer.ops : Layer → List BinaryOp
  | sums => [.add, .sub]
  | products => [.mul, .div]

/-- The forms of phrases. -/
inductive Phrase where
  /-- Operands joined by the operators of a layer. -/
  | joined (layer : Layer)
  /-- The operators and operands that follow what stands for `left`. -/
  | more (layer : Layer) (left : Expr)
  | unary
  | factor
  | base
deriving DecidableEq, Repr

namespace Phrase

/-- Terms joined by plus and minus signs. -/
abbrev expression : Phrase := joined .sums

/-- Unary phrases joined by stars and slashes. -/
abbrev term : Phrase := joined .products

end Phrase

/-- What the operators of a layer join. -/
def Layer.operand : Layer → Phrase
  | sums => .term
  | products => .unary

/-- `Derives p ks e n`: the tokens `ks` are a phrase `p`, which stands for `e`. A parenthesised
expression, an argument, the operand of a minus sign and an exponent are nested in what they are
part of; `n` is how many of them lie one within the other at most. -/
inductive Derives : Phrase → List TokenKind → Expr → Nat → Prop
  | joined {layer : Layer} {ks ls : List TokenKind} {l e : Expr} {m n : Nat}
      (first : Derives layer.operand ks l m) (rest : Derives (.more layer l) ls e n) :
      Derives (.joined layer) (ks ++ ls) e (max m n)
  | done {layer : Layer} {l : Expr} : Derives (.more layer l) [] l 0
  | more {layer : Layer} {op : BinaryOp} {ks ls : List TokenKind} {l r e : Expr} {m n : Nat}
      (isOp : op ∈ layer.ops) (operand : Derives layer.operand ks r m)
      (rest : Derives (.more layer (.binary op l r)) ls e n) :
      Derives (.more layer l) (op.token :: (ks ++ ls)) e (max m n)
  | negation {ks : List TokenKind} {e : Expr} {n : Nat} (operand : Derives .unary ks e n) :
      Derives .unary (.minus :: ks) (.unary .neg e) (n + 1)
  | unary {ks : List TokenKind} {e : Expr} {n : Nat} (factor : Derives .factor ks e n) :
      Derives .unary ks e n
  | power {ks ls : List TokenKind} {b x : Expr} {m n : Nat} (base : Derives .base ks b m)
      (exponent : Derives .unary ls x n) :
      Derives .factor (ks ++ .caret :: ls) (.binary .pow b x) (max m (n + 1))
  | factor {ks : List TokenKind} {e : Expr} {n : Nat} (base : Derives .base ks e n) :
      Derives .factor ks e n
  | number (value : Float) : Derives .base [.number value] (.constant (.real value)) 0
  | var : Derives .base [.ident "z"] .var 0
  | unit : Derives .base [.ident "i"] (.constant .unit) 0
  | pi : Derives .base [.ident "pi"] (.constant (.real Elementary.pi)) 0
  | euler : Derives .base [.ident "e"] (.constant (.real TokenReader.eulerNumber)) 0
  | call {func : UnaryFunc} {ks : List TokenKind} {e : Expr} {n : Nat}
      (named : func ∈ UnaryFunc.named) (argument : Derives .expression ks e n) :
      Derives .base (.ident func.name :: .openParen :: (ks ++ [.closeParen])) (.unary func e)
        (n + 1)
  | paren {ks : List TokenKind} {e : Expr} {n : Nat} (inner : Derives .expression ks e n) :
      Derives .base (.openParen :: (ks ++ [.closeParen])) e (n + 1)

namespace Phrase

/-- The height that the tree of a phrase has at least. -/
def least : Phrase → Nat
  | more _ left => left.height
  | _ => 0

end Phrase

namespace Expr

theorem height_left_lt (op : BinaryOp) (l r : Expr) : l.height < (binary op l r).height :=
  Nat.lt_succ_of_le (Nat.le_max_left _ _)

theorem height_right_lt (op : BinaryOp) (l r : Expr) : r.height < (binary op l r).height :=
  Nat.lt_succ_of_le (Nat.le_max_right _ _)

end Expr

namespace Derives

/-- Operands alone are joined by nothing. -/
theorem joined_of_operand {layer : Layer} {ks : List TokenKind} {e : Expr} {n : Nat}
    (h : Derives layer.operand ks e n) : Derives (.joined layer) ks e n := by
  have joined : Derives (.joined layer) (ks ++ []) e (max n 0) := .joined h .done
  rwa [List.append_nil, Nat.max_zero] at joined

theorem expression_of_unary {ks : List TokenKind} {e : Expr} {n : Nat}
    (h : Derives .unary ks e n) : Derives .expression ks e n := by
  have term : Derives .term ks e n := joined_of_operand h
  exact joined_of_operand term

/-- Two operands with an operator of their layer between them. -/
theorem joined_of_operands {layer : Layer} {op : BinaryOp} {ks ls : List TokenKind} {l r : Expr}
    {m n : Nat} (isOp : op ∈ layer.ops) (left : Derives layer.operand ks l m)
    (right : Derives layer.operand ls r n) :
    Derives (.joined layer) (ks ++ op.token :: ls) (.binary op l r) (max m n) := by
  have joined : Derives (.joined layer) (ks ++ op.token :: (ls ++ [])) (.binary op l r)
      (max m (max n 0)) := .joined left (.more isOp right .done)
  rwa [List.append_nil, Nat.max_zero] at joined

/-- What follows an operand only adds to its tree. -/
theorem least_le {p : Phrase} {ks : List TokenKind} {e : Expr} {n : Nat} (h : Derives p ks e n) :
    p.least ≤ e.height := by
  induction h with
  | done => exact Nat.le_refl _
  | @more layer op ks ls l r e m n isOp operand rest _ ih =>
    exact Nat.le_trans (Nat.le_of_lt (Expr.height_left_lt op l r)) ih
  | _ => exact Nat.zero_le _

end Derives

end DomainColoring
