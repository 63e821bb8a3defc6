import DomainColoring.Json

/-!
# Reading JSON

From text to a JSON value. The value of a text is defined by recursion on a bound that its length
gives; each step takes a character or is followed by one that does, so the bound is never met.
-/

namespace DomainColoring.Json

/-- The characters that may stand between the parts of a text. -/
def isBlank (c : Char) : Bool := c == ' ' || c == '\t' || c == '\n' || c == '\r'

def skipBlank (cs : List Char) : List Char := cs.dropWhile isBlank

/-- The value of a hexadecimal digit in either case. -/
def hexDigit? (c : Char) : Option Nat :=
  if c.isDigit then some (c.toNat - '0'.toNat)
  else if 'a' ≤ c ∧ c ≤ 'f' then some (c.toNat - 'a'.toNat + 10)
  else if 'A' ≤ c ∧ c ≤ 'F' then some (c.toNat - 'A'.toNat + 10)
  else none

def hex4? (a b c d : Char) : Option Nat := do
  let a ← hexDigit? a
  let b ← hexDigit? b
  let c ← hexDigit? c
  let d ← hexDigit? d
  some (((a * 16 + b) * 16 + c) * 16 + d)

/-- The character that a letter after a backslash stands for. -/
def escaped? : Char → Option Char
  | '"' => some '"'
  | '\\' => some '\\'
  | '/' => some '/'
  | 'b' => some '\x08'
  | 'f' => some '\x0c'
  | 'n' => some '\n'
  | 'r' => some '\r'
  | 't' => some '\t'
  | _ => none

/-- The rest of a string of which the opening quote is taken, and what follows it. -/
def readString : List Char → Option (List StringPart × List Char)
  | [] => none
  | '"' :: cs => some ([], cs)
  | '\\' :: 'u' :: a :: b :: c :: d :: cs => do
    let n ← hex4? a b c d
    let (parts, cs) ← readString cs
    some (.code n :: parts, cs)
  | '\\' :: e :: cs => do
    let c ← escaped? e
    let (parts, cs) ← readString cs
    some (.char c :: parts, cs)
  | c :: cs =>
    if c = '\\' || c.toNat < 0x20 then none
    else do
      let (parts, cs) ← readString cs
      some (.char c :: parts, cs)

/-- Takes a minus sign, if there is one. -/
def readMinus : List Char → Bool × List Char
  | '-' :: cs => (true, cs)
  | cs => (false, cs)

/-- At least one digit. -/
def readDigits (cs : List Char) : Option (List Char × List Char) :=
  match cs.takeWhile Char.isDigit with
  | [] => none
  | digits => some (digits, cs.dropWhile Char.isDigit)

/-- The digits before the point; only a lone zero starts with a zero. -/
def readWhole (cs : List Char) : Option (List Char × List Char) := do
  let (digits, cs) ← readDigits cs
  if digits.head? = some '0' && digits.length ≠ 1 then none else some (digits, cs)

def readFraction : List Char → Option (Option (List Char) × List Char)
  | '.' :: cs => (readDigits cs).map fun (digits, cs) => (some digits, cs)
  | cs => some (none, cs)

/-- The exponent after its letter. -/
def readSigned : List Char → Option (Int × List Char)
  | '-' :: cs => (readDigits cs).map fun (digits, cs) => (-(Decimal.ofDigits digits : Int), cs)
  | '+' :: cs => (readDigits cs).map fun (digits, cs) => ((Decimal.ofDigits digits : Int), cs)
  | cs => (readDigits cs).map fun (digits, cs) => ((Decimal.ofDigits digits : Int), cs)

def readExponent : List Char → Option (Option Int × List Char)
  | 'e' :: cs => (readSigned cs).map fun (e, cs) => (some e, cs)
  | 'E' :: cs => (readSigned cs).map fun (e, cs) => (some e, cs)
  | cs => some (none, cs)

def readNumber (cs : List Char) : Option (JsonNumber × List Char) := do
  let (negative, cs) := readMinus cs
  let (whole, cs) ← readWhole cs
  let (fraction, cs) ← readFraction cs
  let (exponent, cs) ← readExponent cs
  some (⟨negative, whole, fraction, exponent⟩, cs)

mutual

/-- A value and what follows it. -/
def readValue : (bound : Nat) → List Char → Option (Json × List Char)
  | 0, _ => none
  | n + 1, cs =>
    match skipBlank cs with
    | '\x7b' :: cs =>
      match skipBlank cs with
      | '\x7d' :: cs => some (.object [], cs)
      | cs => (readMembers n cs).map fun (members, cs) => (.object members, cs)
    | '[' :: cs =>
      match skipBlank cs with
      | ']' :: cs => some (.array [], cs)
      | cs => (readItems n cs).map fun (items, cs) => (.array items, cs)
    | '"' :: cs => (readString cs).map fun (parts, cs) => (.string parts, cs)
    | 'n' :: 'u' :: 'l' :: 'l' :: cs => some (.null, cs)
    | 't' :: 'r' :: 'u' :: 'e' :: cs => some (.bool true, cs)
    | 'f' :: 'a' :: 'l' :: 's' :: 'e' :: cs => some (.bool false, cs)
    | cs => (readNumber cs).map fun (n, cs) => (.number n, cs)

/-- At least one item of an array, and what follows its closing bracket. -/
def readItems : (bound : Nat) → List Char → Option (List Json × List Char)
  | 0, _ => none
  | n + 1, cs => do
    let (item, cs) ← readValue n cs
    match skipBlank cs with
    | ',' :: cs =>
      let (items, cs) ← readItems n cs
      some (item :: items, cs)
    | ']' :: cs => some ([item], cs)
    | _ => none

/-- At least one member of an object, and what follows its closing brace. -/
def readMembers : (bound : Nat) → List Char → Option (List (List StringPart × Json) × List Char)
  | 0, _ => none
  | n + 1, cs =>
    match skipBlank cs with
    | '"' :: cs => do
      let (name, cs) ← readString cs
      match skipBlank cs with
      | ':' :: cs =>
        let (value, cs) ← readValue n cs
        match skipBlank cs with
        | ',' :: cs =>
          let (members, cs) ← readMembers n cs
          some ((name, value) :: members, cs)
        | '\x7d' :: cs => some ([(name, value)], cs)
        | _ => none
      | _ => none
    | _ => none

end

/-- The value that a whole text is. -/
def ofChars? (cs : List Char) : Option Json :=
  match readValue (2 * cs.length + 1) cs with
  | some (value, cs) => if skipBlank cs = [] then some value else none
  | none => none

def ofText? (text : String) : Option Json := ofChars? text.toList

end DomainColoring.Json
