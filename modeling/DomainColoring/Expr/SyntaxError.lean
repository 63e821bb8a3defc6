/-!
# Syntax errors

Why a formula is refused. Offsets count bytes of the text from its start.
-/

namespace DomainColoring

inductive SyntaxError where
  | unexpectedToken (found : String) (offset : Nat)
  | unexpectedEnd
  | unknownIdentifier (name : String) (offset : Nat)
  /-- The offset is that of the parenthesis left open. -/
  | missingClosingParen (offset : Nat)
  | trailingInput (found : String) (offset : Nat)
  | nestingTooDeep (limit : Nat)
  | unrecognizedCharacter (char : Char) (offset : Nat)
deriving DecidableEq, Repr

namespace SyntaxError

def message : SyntaxError → String
  | unexpectedToken found offset => s!"unexpected token '{found}' at offset {offset}"
  | unexpectedEnd => "unexpected end of input"
  | unknownIdentifier name offset => s!"unknown identifier '{name}' at offset {offset}"
  | missingClosingParen offset => s!"missing closing parenthesis for '(' at offset {offset}"
  | trailingInput found offset => s!"unexpected trailing input '{found}' at offset {offset}"
  | nestingTooDeep limit => s!"expression nests deeper than {limit} levels"
  | unrecognizedCharacter char offset => s!"unrecognized character '{char}' at offset {offset}"

end SyntaxError

end DomainColoring
