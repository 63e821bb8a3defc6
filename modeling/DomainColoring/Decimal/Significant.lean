import DomainColoring.Decimal.Shortest

/-!
# A fixed number of significant digits

The exact value of a machine number rounded to so many decimal digits, a tie to the even digit.
-/

namespace DomainColoring.Decimal

/-- The power of ten of the leading digit of `m · 2 ^ e`, searched downward from `g`. -/
def leadingOrder (m : Nat) (e : Int) : Nat → Int → Int
  | 0, g => g
  | n + 1, g =>
    let (num, den) := ratio m e g
    if den ≤ num then g else leadingOrder m e n (g - 1)

/-- The value `m · 2 ^ e` to `n` significant digits, without trailing zeros. -/
def significant (n m : Nat) (e : Int) : Decimal :=
  let g := leadingOrder m e 3 (coarsestGrid m e) - (n - 1 : Nat)
  let (num, den) := ratio m e g
  trim ⟨roundDiv .even num den, g⟩

end DomainColoring.Decimal
