import DomainColoring.Decimal.Significant

/-!
# Machine numbers as text

A `NumberText` fixes how machine numbers are written: the words for what is not finite, the digits
that are chosen and their layout. `plain` is the notation of formulas and messages.
-/

namespace DomainColoring

/-- A way of writing machine numbers. -/
structure NumberText where
  notANumber : String
  infinity : String
  negativeInfinity : String
  /-- Zero, without its sign. -/
  zero : List Char
  /-- The digits for the positive number `x`, which is `m · 2 ^ e`. -/
  choose : (x : Float) → (m : Nat) → (e : Int) → Decimal
  layout : Decimal → List Char

namespace NumberText

/-- Writes a minus sign before what is negative. -/
def signed : Float.Model.UnpackedFloat.Sign → List Char → List Char
  | .positive, cs => cs
  | .negative, cs => '-' :: cs

def render (t : NumberText) (x : Float) : List Char :=
  match Binary64.exactValue x with
  | .notANumber => t.notANumber.toList
  | .infinity .positive => t.infinity.toList
  | .infinity .negative => t.negativeInfinity.toList
  | .zero s => signed s t.zero
  | .finite s m e _ => signed s (t.layout (t.choose x.abs m e))

/-- Shortest digits written positionally: neither exponent nor a fraction of zeros. -/
def plain : NumberText where
  notANumber := "NaN"
  infinity := "inf"
  negativeInfinity := "-inf"
  zero := ['0']
  choose := Decimal.shortest .up
  layout := Decimal.positional

/-- Shortest digits in scientific notation. -/
def scientific : NumberText := { plain with zero := "0e0".toList, layout := Decimal.scientific }

/-- The value rounded to `n` significant digits, in scientific notation. -/
def rounded (n : Nat) : NumberText :=
  { scientific with choose := fun _ m e => Decimal.significant n m e }

end NumberText

/-- The plain text of a machine number. -/
def numberText (x : Float) : String := String.ofList (NumberText.plain.render x)

end DomainColoring
