import DomainColoring.Decimal.Text

/-!
# Writing JSON

Compact JSON text: no blanks, and members in the order given.
-/

namespace DomainColoring.JsonText

/-- A hexadecimal digit in lower case. -/
def hexDigit (n : Nat) : Char := if n < 10 then Char.ofNat (48 + n) else Char.ofNat (87 + n)

/-- A character within a string. Only quotes, backslashes and control characters are escaped. -/
def escape (c : Char) : List Char :=
  match c with
  | '"' => ['\\', '"']
  | '\\' => ['\\', '\\']
  | '\x08' => ['\\', 'b']
  | '\x0c' => ['\\', 'f']
  | '\n' => ['\\', 'n']
  | '\r' => ['\\', 'r']
  | '\t' => ['\\', 't']
  | c =>
    if c.toNat < 0x20 then
      ['\\', 'u', '0', '0', hexDigit (c.toNat / 16), hexDigit (c.toNat % 16)]
    else [c]

def string (text : String) : List Char := '"' :: text.toList.flatMap escape ++ ['"']

/-- Plain notation with a fraction for orders from -5 to 15, and scientific notation with a signed
exponent beyond. -/
def layout (d : Decimal) : List Char :=
  let order := d.order
  if -5 ≤ order ∧ order ≤ 15 then
    if 0 ≤ d.exponent then d.positional ++ ['.', '0'] else d.positional
  else
    d.significand ++ 'e' :: (if order < 0 then [] else ['+']) ++ Decimal.exponentText order

/-- Shortest digits; what is not finite is null. -/
def numberText : NumberText where
  notANumber := "null"
  infinity := "null"
  negativeInfinity := "null"
  zero := "0.0".toList
  choose := Decimal.shortest .even
  layout := layout

def number (x : Float) : List Char := numberText.render x

def count (n : Nat) : List Char := Nat.toDigits 10 n

def members : List (String × List Char) → List Char
  | [] => []
  | [(name, value)] => string name ++ ':' :: value
  | (name, value) :: rest => string name ++ ':' :: value ++ ',' :: members rest

def object (fields : List (String × List Char)) : List Char :=
  '\x7b' :: members fields ++ ['\x7d']

end DomainColoring.JsonText
