import DomainColoring.Expr.Printer
import DomainColoring.Proofs.Grammar.Soundness

/-!
# The order of tokens in a tree

Parentheses and the precedence of operators decide where in the tree a token goes, but not after which
token it comes: the nodes of the tree from left to right are the tokens from left to right, one for one,
except that parentheses leave no node (`inOrder_of_ofTokens`). The induction is on the derivation. What
follows the operands of a layer is added on the right of the tree that it is given.
-/

namespace DomainColoring

/-- What a node of an expression is written as. A minus sign is one symbol, whether it subtracts or
negates. -/
inductive Symbol where
  | constant (value : Complex Float)
  | var
  | function (func : UnaryFunc)
  | operator (char : Char)
deriving DecidableEq, Repr

namespace Symbol

/-- The symbol that a name stands for. -/
def ofName? : String → Option Symbol
  | "z" => some .var
  | "i" => some (.constant .unit)
  | "pi" => some (.constant (.real Elementary.pi))
  | "e" => some (.constant (.real TokenReader.eulerNumber))
  | name => (UnaryFunc.ofName? name).map .function

/-- The symbol that a token stands for. A parenthesis stands for none. -/
def ofKind? : TokenKind → Option Symbol
  | .number value => some (.constant (.real value))
  | .ident name => ofName? name
  | .plus => some (.operator '+')
  | .minus => some (.operator '-')
  | .star => some (.operator '*')
  | .slash => some (.operator '/')
  | .caret => some (.operator '^')
  | .openParen => none
  | .closeParen => none

end Symbol

namespace Expr

/-- The symbols of an expression: an operator between its operands, a function or a minus sign before
its operand. -/
def inOrder : Expr → List Symbol
  | constant value => [.constant value]
  | var => [.var]
  | unary .neg operand => .operator '-' :: operand.inOrder
  | unary func operand => .function func :: operand.inOrder
  | binary op left right => left.inOrder ++ .operator op.symbol :: right.inOrder

/-- Every node has one symbol. -/
theorem length_inOrder (e : Expr) : e.inOrder.length = e.nodeCount := by
  fun_induction inOrder e with
  | case1 value => rfl
  | case2 => rfl
  | case3 operand ih => rw [List.length_cons, ih, nodeCount, Nat.add_comm]
  | case4 func operand other ih => rw [List.length_cons, ih, nodeCount, Nat.add_comm]
  | case5 op left right ihl ihr =>
    rw [List.length_append, List.length_cons, ihl, ihr, nodeCount]
    omega

theorem inOrder_function {func : UnaryFunc} (named : func ∈ UnaryFunc.named) (operand : Expr) :
    (unary func operand).inOrder = .function func :: operand.inOrder := by
  rw [inOrder]
  rintro rfl
  exact absurd named (by decide)

end Expr

def TokenKind.isParen : TokenKind → Bool
  | openParen => true
  | closeParen => true
  | _ => false

/-- What tokens without their parentheses stand for, in order. -/
def readOff (ks : List TokenKind) : List (Option Symbol) :=
  (ks.filter fun k => !k.isParen).map Symbol.ofKind?

theorem readOff_append (ks ls : List TokenKind) : readOff (ks ++ ls) = readOff ks ++ readOff ls := by
  rw [readOff, List.filter_append, List.map_append, readOff, readOff]

theorem readOff_enclosed (ks : List TokenKind) :
    readOff (.openParen :: (ks ++ [.closeParen])) = readOff ks := by
  have opens : readOff (.openParen :: (ks ++ [.closeParen])) = readOff (ks ++ [.closeParen]) := rfl
  rw [opens, readOff_append]
  exact List.append_nil _

theorem readOff_operator (op : BinaryOp) (ks : List TokenKind) :
    readOff (op.token :: ks) = some (.operator op.symbol) :: readOff ks := by
  cases op <;> rfl

theorem readOff_name {func : UnaryFunc} (named : func ∈ UnaryFunc.named) (ks : List TokenKind) :
    readOff (.ident func.name :: ks) = some (.function func) :: readOff ks := by
  cases func with
  | neg => exact absurd named (by decide)
  | _ => rfl

/-- The symbols of what the tree of a phrase is given. -/
def Phrase.givenInOrder : Phrase → List Symbol
  | more _ left => left.inOrder
  | _ => []

theorem Layer.givenInOrder_operand (layer : Layer) : layer.operand.givenInOrder = [] := by
  cases layer <;> rfl

/-- The symbols of a tree are those that it was given, and then what the tokens of the phrase stand for. -/
theorem Derives.inOrder_eq {p : Phrase} {ks : List TokenKind} {e : Expr} {n : Nat}
    (h : Derives p ks e n) :
    e.inOrder.map some = p.givenInOrder.map some ++ readOff ks := by
  induction h with
  | @joined layer ks ls l e m n _ _ first rest =>
    rw [layer.givenInOrder_operand] at first
    rw [rest, Phrase.givenInOrder, first, readOff_append]
    rfl
  | done => exact (List.append_nil _).symm
  | @more layer op ks ls l r e m n _ _ _ operand rest =>
    rw [layer.givenInOrder_operand] at operand
    have right : r.inOrder.map some = readOff ks := operand
    rw [rest, readOff_operator, readOff_append]
    simp only [Phrase.givenInOrder, Expr.inOrder, List.map_append, List.map_cons, right,
      List.append_assoc, List.cons_append]
  | negation _ operand => exact congrArg (some (Symbol.operator '-') :: ·) operand
  | unary _ factor => exact factor
  | @power ks ls b x m n _ _ base exponent =>
    have left : b.inOrder.map some = readOff ks := base
    have right : x.inOrder.map some = readOff ls := exponent
    have caret : readOff (.caret :: ls) = some (.operator '^') :: readOff ls := rfl
    rw [readOff_append, caret, Expr.inOrder, List.map_append, List.map_cons, left, right]
    rfl
  | factor _ base => exact base
  | number value => rfl
  | var => rfl
  | unit => rfl
  | pi => rfl
  | euler => rfl
  | @call func ks e n named _ argument =>
    have inner : e.inOrder.map some = readOff ks := argument
    rw [readOff_name named, readOff_enclosed, Expr.inOrder_function named, List.map_cons, inner]
    rfl
  | paren _ inner =>
    rw [readOff_enclosed]
    exact inner

/-- The symbols of a tree that tokens compile to are what the tokens stand for, less the parentheses: none
is lost, doubled or moved. So the tree has as many nodes as there are tokens that are not parentheses. -/
theorem inOrder_of_ofTokens {limit : Nat} {ts : List Token} {e : Expr}
    (h : Expr.ofTokens limit ts = .ok e) :
    e.inOrder.map some = readOff (ts.map Token.kind) ∧
      e.nodeCount = ts.countP fun t => !t.kind.isParen := by
  obtain ⟨n, derives, -, -⟩ := Expr.derives_of_ofTokens h
  have order : e.inOrder.map some = readOff (ts.map Token.kind) := derives.inOrder_eq
  refine ⟨order, ?_⟩
  calc e.nodeCount = (e.inOrder.map some).length := by rw [List.length_map, e.length_inOrder]
    _ = (readOff (ts.map Token.kind)).length := by rw [order]
    _ = ts.countP fun t => !t.kind.isParen := by
      rw [readOff, List.length_map, List.filter_map, List.length_map, List.countP_eq_length_filter]
      rfl

/-- The tokens of `-2*(z-sin((i)))`. -/
def scaledDifference : List Token :=
  [⟨.minus, 0⟩, ⟨.number 2, 1⟩, ⟨.star, 2⟩, ⟨.openParen, 3⟩, ⟨.ident "z", 4⟩, ⟨.minus, 5⟩,
    ⟨.ident "sin", 6⟩, ⟨.openParen, 9⟩, ⟨.openParen, 10⟩, ⟨.ident "i", 11⟩, ⟨.closeParen, 12⟩,
    ⟨.closeParen, 13⟩, ⟨.closeParen, 14⟩]

theorem inOrder_of_ofTokens_scaledDifference :
    ∃ e, Expr.ofTokens 4 scaledDifference = .ok e ∧
      e.inOrder.map some = [.operator '-', .constant (.real 2), .operator '*', .var, .operator '-',
        .function .sin, .constant .unit].map some ∧
      e.nodeCount = 7 := by
  have read : Expr.ofTokens 4 scaledDifference =
      .ok (.binary .mul (.unary .neg (.constant (.real 2)))
        (.binary .sub .var (.unary .sin (.constant .unit)))) := rfl
  obtain ⟨order, count⟩ := inOrder_of_ofTokens read
  exact ⟨_, read, order, count⟩

end DomainColoring
