import DomainColoring.Decimal.Text
import DomainColoring.Expr

/-!
# Expressions as text

Every operation is written with its own parentheses, so no precedence is needed to read the text.
-/

namespace DomainColoring

namespace Complex

/-- The two components with the sign of the imaginary one between them. -/
def text (a : Complex Float) : String :=
  if a.im < 0 then numberText a.re ++ "-" ++ numberText (-a.im) ++ "i"
  else numberText a.re ++ "+" ++ numberText a.im ++ "i"

end Complex

namespace Expr

/-- A real constant, the imaginary unit, or a sum of both parts. -/
def constantChars (a : Complex Float) : List Char :=
  if a.im == 0 then NumberText.plain.render a.re
  else if a.re == 0 && a.im == 1 then ['i']
  else
    '(' :: NumberText.plain.render a.re ++ " + (".toList
      ++ NumberText.plain.render a.im ++ " * i))".toList

/-- The text of an expression, as characters. -/
def chars : Expr → List Char
  | constant value => constantChars value
  | var => ['z']
  | unary .neg operand => '-' :: '(' :: operand.chars ++ [')']
  | unary func operand => func.name.toList ++ '(' :: operand.chars ++ [')']
  | binary op left right =>
    '(' :: left.chars ++ ' ' :: op.symbol :: ' ' :: right.chars ++ [')']

/-- The text of an expression. -/
def text (e : Expr) : String := String.ofList e.chars

end Expr

end DomainColoring
