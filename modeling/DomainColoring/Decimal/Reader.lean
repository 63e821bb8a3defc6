import DomainColoring.Decimal
import DomainColoring.Scalar.Binary64

/-!
# Machine numbers from text

A text is a number if it is digits with at most one point before, among or after them, perhaps with an
exponent, or one of the words for what is not finite; any of these may have a sign. Letters count in
either case. Nothing else is a number, blanks around it included.
-/

namespace DomainColoring

/-- Whether there is a minus sign, and the characters after the sign, if there is one. -/
def splitSign : List Char → Bool × List Char
  | '-' :: cs => (true, cs)
  | '+' :: cs => (false, cs)
  | cs => (false, cs)

namespace Decimal

/-- The exponent that stands after the digits of a number, zero if nothing does. -/
def exponent? : List Char → Option Int
  | [] => some 0
  | c :: cs =>
    let (negative, ds) := splitSign cs
    if c.toLower = 'e' ∧ ds ≠ [] ∧ ds.all Char.isDigit then
      some (if negative then -(ofDigits ds : Int) else ofDigits ds)
    else none

/-- The digits after a point, if there is one, and what follows them. -/
def splitFraction : List Char → List Char × List Char
  | '.' :: cs => (cs.takeWhile Char.isDigit, cs.dropWhile Char.isDigit)
  | cs => ([], cs)

/-- The number that characters without a sign are written for. -/
def ofChars? (cs : List Char) : Option Decimal :=
  let whole := cs.takeWhile Char.isDigit
  let (fraction, rest) := splitFraction (cs.dropWhile Char.isDigit)
  if whole = [] ∧ fraction = [] then none
  else (exponent? rest).map fun e => ⟨ofDigits (whole ++ fraction), e - fraction.length⟩

end Decimal

/-- The machine number that characters without a sign are written for. -/
def magnitudeOfChars? (cs : List Char) : Option Float :=
  let word := String.ofList (cs.map Char.toLower)
  if word = "inf" ∨ word = "infinity" then some Binary64.infinity
  else if word = "nan" then some Binary64.notANumber
  else (Decimal.ofChars? cs).map Decimal.toFloat

/-- The machine number that a text is written for. -/
def numberOfText? (text : String) : Option Float :=
  let (negative, cs) := splitSign text.toList
  (magnitudeOfChars? cs).map fun x => if negative then -x else x

end DomainColoring
