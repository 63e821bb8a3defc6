import DomainColoring.Complex
import DomainColoring.Scalar.Binary64

/-!
# Expressions

Functions of one complex variable as trees, and their values. Evaluation never fails: a singular
point has a value that is not finite.
-/

namespace DomainColoring

/-- Functions of one argument. Negation is written as an operator, the others by name. -/
inductive UnaryFunc where
  | neg
  | sin
  | cos
  | tan
  | exp
  | log
  | sqrt
  | sinh
  | cosh
  | tanh
  | conj
  | abs
  | re
  | im
deriving DecidableEq, Repr

inductive BinaryOp where
  | add
  | sub
  | mul
  | div
  | pow
deriving DecidableEq, Repr

namespace UnaryFunc

/-- The functions that are called by name. -/
def named : List UnaryFunc :=
  [sin, cos, tan, exp, log, sqrt, sinh, cosh, tanh, conj, abs, re, im]

def name : UnaryFunc → String
  | neg => "-"
  | sin => "sin"
  | cos => "cos"
  | tan => "tan"
  | exp => "exp"
  | log => "log"
  | sqrt => "sqrt"
  | sinh => "sinh"
  | cosh => "cosh"
  | tanh => "tanh"
  | conj => "conj"
  | abs => "abs"
  | re => "re"
  | im => "im"

/-- The function that a name calls. -/
def ofName? (name : String) : Option UnaryFunc := named.find? (·.name = name)

/-- The value of a function at a point. -/
def apply {α : Type} [Elementary α] : UnaryFunc → Complex α → Complex α
  | neg, a => -a
  | sin, a => a.sin
  | cos, a => a.cos
  | tan, a => a.tan
  | exp, a => a.exp
  | log, a => a.log
  | sqrt, a => a.sqrt
  | sinh, a => a.sinh
  | cosh, a => a.cosh
  | tanh, a => a.tanh
  | conj, a => a.conj
  | abs, a => .real a.norm
  | re, a => .real a.re
  | im, a => .real a.im

end UnaryFunc

namespace BinaryOp

def symbol : BinaryOp → Char
  | add => '+'
  | sub => '-'
  | mul => '*'
  | div => '/'
  | pow => '^'

def apply {α : Type} [Elementary α] : BinaryOp → Complex α → Complex α → Complex α
  | add, a, b => a + b
  | sub, a, b => a - b
  | mul, a, b => a * b
  | div, a, b => a / b
  | pow, a, b => a.pow b

end BinaryOp

/-- A function of the complex variable `z`. -/
inductive Expr where
  | constant (value : Complex Float)
  /-- The variable. -/
  | var
  | unary (func : UnaryFunc) (operand : Expr)
  | binary (op : BinaryOp) (left right : Expr)
deriving DecidableEq, Repr

namespace Expr

/-- The function whose value is its argument. -/
def identity : Expr := var

/-- The value at `z`. -/
def eval (z : Complex Float) : Expr → Complex Float
  | constant value => value
  | var => z
  | unary func operand => func.apply (operand.eval z)
  | binary op left right => op.apply (left.eval z) (right.eval z)

/-- The number of nodes. -/
def nodeCount : Expr → Nat
  | constant _ => 1
  | var => 1
  | unary _ operand => 1 + operand.nodeCount
  | binary _ left right => 1 + left.nodeCount + right.nodeCount

/-- The number of nodes above the deepest leaf. -/
def height : Expr → Nat
  | constant _ => 0
  | var => 0
  | unary _ operand => operand.height + 1
  | binary _ left right => max left.height right.height + 1

/-- Equality of trees with constants compared as numbers. -/
def sameAs : Expr → Expr → Bool
  | constant a, constant b => a == b
  | var, var => true
  | unary f a, unary g b => f == g && a.sameAs b
  | binary f a b, binary g c d => f == g && a.sameAs c && b.sameAs d
  | _, _ => false

end Expr

end DomainColoring
