import DomainColoring.Decimal.Text

/-!
# Tokens

The words of a formula: names, unsigned numbers, five operators and two parentheses, each with the
byte offset at which it starts.
-/

namespace DomainColoring

inductive TokenKind where
  | ident (name : String)
  | number (value : Float)
  | plus
  | minus
  | star
  | slash
  | caret
  | openParen
  | closeParen
deriving DecidableEq, Repr

structure Token where
  kind : TokenKind
  /-- Bytes of text before the token. -/
  offset : Nat
deriving DecidableEq, Repr

/-- The text of a token in messages; a number is written in plain notation. -/
def TokenKind.text : TokenKind → String
  | ident name => name
  | number value => numberText value
  | plus => "+"
  | minus => "-"
  | star => "*"
  | slash => "/"
  | caret => "^"
  | openParen => "("
  | closeParen => ")"

/-- The operator or parenthesis that a character stands for. -/
def TokenKind.ofChar? : Char → Option TokenKind
  | '+' => some plus
  | '-' => some minus
  | '*' => some star
  | '/' => some slash
  | '^' => some caret
  | '(' => some openParen
  | ')' => some closeParen
  | _ => none

/-- A character that no token has room for, and its offset. -/
structure Skipped where
  offset : Nat
  char : Char
deriving DecidableEq, Repr

/-- The tokens of a text in order, and what lies between them that is not blank. -/
structure TokenStream where
  tokens : List Token
  skipped : List Skipped
deriving DecidableEq, Repr

end DomainColoring
