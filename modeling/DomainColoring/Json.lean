import DomainColoring.Json.Number

/-!
# JSON values

A JSON text as it is written: numbers keep their digits and strings their escapes, because whether
a number is in range and whether escapes make up characters matters only where a value is used.
-/

namespace DomainColoring

/-- A piece of a string: a character, or a numeric escape, which is half a character at times. -/
inductive StringPart where
  | char (c : Char)
  | code (n : Nat)
deriving DecidableEq, Repr

inductive Json where
  | null
  | bool (value : Bool)
  | number (value : JsonNumber)
  | string (parts : List StringPart)
  | array (items : List Json)
  | object (members : List (List StringPart × Json))
deriving Repr

namespace StringPart

/-- The character of two surrogate escapes. -/
def ofSurrogates (high low : Nat) : Char :=
  Char.ofNat (0x10000 + (high - 0xD800) * 0x400 + (low - 0xDC00))

def isHighSurrogate (n : Nat) : Bool := decide (0xD800 ≤ n ∧ n < 0xDC00)

def isLowSurrogate (n : Nat) : Bool := decide (0xDC00 ≤ n ∧ n < 0xE000)

/-- The characters of a string; none if a surrogate escape stands without its partner. -/
def decode? : List StringPart → Option (List Char)
  | [] => some []
  | char c :: rest => (decode? rest).map (c :: ·)
  | code n :: rest =>
    if isHighSurrogate n then
      match rest with
      | code m :: rest =>
        if isLowSurrogate m then (decode? rest).map (ofSurrogates n m :: ·) else none
      | _ => none
    else if isLowSurrogate n then none
    else (decode? rest).map (Char.ofNat n :: ·)

/-- The text of a string. -/
def text? (parts : List StringPart) : Option String := (decode? parts).map String.ofList

end StringPart

namespace Json

mutual

/-- Whether every string is made of characters, every number is in range, and containers nest at
most `levels` deep. -/
def isReadable : (levels : Nat) → Json → Bool
  | _, null => true
  | _, bool _ => true
  | _, number n => n.toFloat?.isSome
  | _, string parts => (StringPart.decode? parts).isSome
  | 0, array _ => false
  | 0, object _ => false
  | n + 1, array items => areReadable n items
  | n + 1, object members => membersReadable n members

def areReadable : (levels : Nat) → List Json → Bool
  | _, [] => true
  | n, item :: items => isReadable n item && areReadable n items

def membersReadable : (levels : Nat) → List (List StringPart × Json) → Bool
  | _, [] => true
  | n, (name, value) :: members =>
    (StringPart.decode? name).isSome && isReadable n value && membersReadable n members

end

def toFloat? : Json → Option Float
  | number n => n.toFloat?
  | _ => none

def toUInt32? : Json → Option UInt32
  | number n => n.toUInt32?
  | _ => none

def toText? : Json → Option String
  | string parts => StringPart.text? parts
  | _ => none

/-- The members of an object with their names as text. -/
def namedMembers? (members : List (List StringPart × Json)) : Option (List (String × Json)) :=
  members.mapM fun (name, value) => (StringPart.text? name).map (·, value)

/-- The value of the only member of a name. -/
def only? (name : String) (members : List (String × Json)) : Option Json :=
  match members.filter (·.1 == name) with
  | [(_, value)] => some value
  | _ => none

/-- The values of the fields of a record: the object has each name once, whatever else it has, or an
array has the values alone, in order. -/
def fields? (names : List String) : Json → Option (List Json)
  | object members => do
    let members ← namedMembers? members
    names.mapM (only? · members)
  | array items => if items.length = names.length then some items else none
  | _ => none

/-- Whether a value stands where nothing is to be said: it is null, or empty if that is allowed. -/
def isBare (allowEmpty : Bool) : Json → Bool
  | null => true
  | object [] => allowEmpty
  | _ => false

/-- The name of a choice without parts: a string, or the name of the only member, which is bare. -/
def choice? (allowEmpty : Bool) : Json → Option String
  | string parts => StringPart.text? parts
  | object [(name, value)] => if isBare allowEmpty value then StringPart.text? name else none
  | _ => none

end Json

end DomainColoring
