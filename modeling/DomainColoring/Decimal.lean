/-!
# Decimal numbers

Non-negative decimal numbers as a natural number of digits and a power of ten, the machine number
nearest to one, and the two ways of writing one: positional and scientific.
-/

namespace DomainColoring

/-- The number `digits · 10 ^ exponent`. -/
structure Decimal where
  digits : Nat
  exponent : Int
deriving DecidableEq, Repr

namespace Decimal

/-- The value of a text of decimal digits. -/
def ofDigits (cs : List Char) : Nat := cs.foldl (fun n c => 10 * n + (c.toNat - '0'.toNat)) 0

/-- The number written as `whole`, a point and `fraction`. -/
def ofParts (whole fraction : List Char) : Decimal :=
  ⟨ofDigits (whole ++ fraction), -(fraction.length : Int)⟩

/-- The nearest machine number, ties to the even significand; infinite beyond the largest. -/
def toFloat (d : Decimal) : Float := .ofModel (.ofScientific d.digits d.exponent)

/-- The same number without a positive power of ten, which is how positional text is read. -/
def expand (d : Decimal) : Decimal :=
  if 0 ≤ d.exponent then ⟨d.digits * Nat.pow 10 d.exponent.toNat, 0⟩ else d

/-- The power of ten of the leading digit. -/
def order (d : Decimal) : Int := d.exponent + ((Nat.toDigits 10 d.digits).length - 1 : Nat)

/-- The same number without trailing zeros among its digits. -/
def trim (d : Decimal) : Decimal :=
  if d.digits = 0 then ⟨0, 0⟩
  else if d.digits % 10 = 0 then trim ⟨d.digits / 10, d.exponent + 1⟩
  else d
termination_by d.digits
decreasing_by omega

/-- Digits with zeros filled in up to the units and a point before the fraction; no exponent. -/
def positional (d : Decimal) : List Char :=
  let cs := Nat.toDigits 10 d.digits
  if 0 ≤ d.exponent then cs ++ List.replicate d.exponent.toNat '0'
  else
    let places := (-d.exponent).toNat
    if places < cs.length then
      cs.take (cs.length - places) ++ '.' :: cs.drop (cs.length - places)
    else '0' :: '.' :: List.replicate (places - cs.length) '0' ++ cs

/-- The significand of scientific notation: a point after the leading digit, if more follow. -/
def significand (d : Decimal) : List Char :=
  match Nat.toDigits 10 d.digits with
  | c :: r@(_ :: _) => c :: '.' :: r
  | cs => cs

/-- The exponent of scientific notation, with a sign only if it is negative. -/
def exponentText (e : Int) : List Char :=
  if e < 0 then '-' :: Nat.toDigits 10 e.natAbs else Nat.toDigits 10 e.natAbs

/-- Scientific notation: `2.5e-1`. -/
def scientific (d : Decimal) : List Char := d.significand ++ 'e' :: exponentText d.order

end Decimal

end DomainColoring
