import DomainColoring.Decimal.Reader
import DomainColoring.Token.Lexer

/-!
# Scanning in place

The tokens of a text, found by going through its characters and its bytes side by side. Characters are
taken one after the other together with their offsets; where a literal ends is found in the bytes, and
the characters before that end are then taken. The text of a name or a literal is cut out between two
offsets, which is possible only where characters begin.
-/

namespace DomainColoring

/-- The part of a text between two offsets, if characters begin, or the text ends, at both. -/
def sliceBetween? (text : String) (first last : Nat) : Option String :=
  if h : (String.Pos.Raw.mk first).IsValid text ∧ (String.Pos.Raw.mk last).IsValid text ∧
      first ≤ last then
    some (text.extract ⟨⟨first⟩, h.1⟩ ⟨⟨last⟩, h.2.1⟩)
  else none

/-- The byte of a decimal digit. -/
def isDigitByte (b : UInt8) : Bool := 48 ≤ b.toNat && b.toNat ≤ 57

/-- The byte of a point. -/
def pointByte : UInt8 := 46

/-- The first offset from `i` on at which there is no digit. -/
def digitsEnd (bytes : ByteArray) (i : Nat) : Nat :=
  if h : i < bytes.size then
    if isDigitByte bytes[i] then digitsEnd bytes (i + 1) else i
  else i
termination_by bytes.size - i

/-- The offset at which the literal ends that begins at `start`; `start` if none does. -/
def literalEnd (bytes : ByteArray) (start : Nat) : Nat :=
  let wholeEnd := digitsEnd bytes start
  if bytes[wholeEnd]? = some pointByte then
    let fractionEnd := digitsEnd bytes (wholeEnd + 1)
    if 0 < wholeEnd - start ∨ 0 < fractionEnd - wholeEnd - 1 then fractionEnd else wholeEnd
  else wholeEnd

theorem le_digitsEnd (bytes : ByteArray) (i : Nat) : i ≤ digitsEnd bytes i := by
  fun_induction digitsEnd bytes i with
  | case1 i inside digit ih => exact Nat.le_of_succ_le ih
  | case2 i inside other => exact Nat.le_refl i
  | case3 i outside => exact Nat.le_refl i

theorem le_literalEnd (bytes : ByteArray) (start : Nat) : start ≤ literalEnd bytes start := by
  have whole := le_digitsEnd bytes start
  have fraction := le_digitsEnd bytes (digitsEnd bytes start + 1)
  unfold literalEnd
  dsimp only
  split
  · split <;> omega
  · exact whole

/-- A place in a text: the characters that follow it, and the number of bytes before it. -/
structure Place where
  offset : Nat
  rest : List Char
deriving DecidableEq, Repr

/-- The place before the first character at which `goesOn` fails, from the characters `cs` at `offset`
on. -/
def placeAfter (goesOn : Nat → Char → Bool) (offset : Nat) : List Char → Place
  | [] => ⟨offset, []⟩
  | c :: cs =>
    if goesOn offset c then placeAfter goesOn (offset + c.utf8Size) cs else ⟨offset, c :: cs⟩

theorem length_placeAfter_le (goesOn : Nat → Char → Bool) (offset : Nat) (cs : List Char) :
    (placeAfter goesOn offset cs).rest.length ≤ cs.length := by
  fun_induction placeAfter goesOn offset cs with
  | case1 offset => exact Nat.le_refl _
  | case2 offset c cs goes ih => exact Nat.le_succ_of_le ih
  | case3 offset c cs stops => exact Nat.le_refl _

theorem length_placeAfter_lt {goesOn : Nat → Char → Bool} {offset : Nat} {c : Char}
    (goes : goesOn offset c = true) (cs : List Char) :
    (placeAfter goesOn offset (c :: cs)).rest.length < (c :: cs).length := by
  rw [placeAfter, if_pos goes]
  exact Nat.lt_succ_of_le (length_placeAfter_le _ _ _)

/-- What a scanner has found so far, and where it is. -/
structure Scanner where
  place : Place
  found : TokenStream
  /-- The offsets of literals that were skipped because no number could be read from them. -/
  unreadable : List Nat
deriving DecidableEq, Repr

namespace Scanner

/-- Goes to a later place. -/
def goTo (s : Scanner) (place : Place) : Scanner := { s with place }

/-- Adds a token that starts here. -/
def emit (s : Scanner) (kind : TokenKind) : Scanner :=
  { s with found := ⟨s.found.tokens ++ [⟨kind, s.place.offset⟩], s.found.skipped⟩ }

/-- Adds the character `c`, which is here, to those that are skipped. -/
def drop (s : Scanner) (c : Char) : Scanner :=
  { s with found := ⟨s.found.tokens, s.found.skipped ++ [⟨s.place.offset, c⟩]⟩ }

/-- Skips a literal, which starts with `c`, because it cannot be read. -/
def giveUp (s : Scanner) (c : Char) : Scanner :=
  { s.drop c with unreadable := s.unreadable ++ [s.place.offset] }

/-- Scans the name that starts with the character `c` before `cs`. -/
def scanWord (text : String) (s : Scanner) (c : Char) (cs : List Char) : Option Scanner := do
  let after := placeAfter (fun _ d => Lexeme.continuesWord d) s.place.offset (c :: cs)
  let name ← sliceBetween? text s.place.offset after.offset
  some ((s.emit (.ident name)).goTo after)

/-- Scans the literal that starts with the character `c` before `cs`. A point that starts none is
skipped. -/
def scanLiteral (text : String) (s : Scanner) (c : Char) (cs : List Char) : Option Scanner :=
  let last := literalEnd text.toByteArray s.place.offset
  if last = s.place.offset then
    some ((s.drop c).goTo ⟨s.place.offset + c.utf8Size, cs⟩)
  else do
    let after := placeAfter (fun i _ => i < last) s.place.offset (c :: cs)
    let literal ← sliceBetween? text s.place.offset last
    match numberOfText? literal with
    | some value => some ((s.emit (.number value)).goTo after)
    | none => some ((s.giveUp c).goTo after)

/-- Scans what starts with the character `c` before `cs`. Fails if it would cut a character. -/
def step (text : String) (s : Scanner) (c : Char) (cs : List Char) : Option Scanner :=
  let next : Place := ⟨s.place.offset + c.utf8Size, cs⟩
  if Character.isBlank c then some (s.goTo next)
  else if Lexeme.startsWord c then scanWord text s c cs
  else if c.isDigit || c == '.' then scanLiteral text s c cs
  else
    match TokenKind.ofChar? c with
    | some kind => some ((s.emit kind).goTo next)
    | none => some ((s.drop c).goTo next)

theorem length_step_lt {text : String} {s t : Scanner} {c : Char} {cs : List Char}
    (h : step text s c cs = some t) : t.place.rest.length < (c :: cs).length := by
  have one : cs.length < (c :: cs).length := Nat.lt_succ_self _
  unfold step at h
  split at h
  · cases h
    exact one
  split at h
  · next starts =>
    obtain ⟨name, -, h⟩ := Option.bind_eq_some_iff.1 h
    cases h
    refine length_placeAfter_lt ?_ cs
    simp only [Lexeme.startsWord, Bool.or_eq_true] at starts
    simp only [Lexeme.continuesWord, Bool.or_eq_true]
    exact starts.imp .inl id
  split at h
  · unfold scanLiteral at h
    dsimp only at h
    split at h
    · cases h
      exact one
    · next long =>
      have le := le_literalEnd text.toByteArray s.place.offset
      obtain ⟨literal, -, h⟩ := Option.bind_eq_some_iff.1 h
      have shorter : (placeAfter (fun i _ => decide (i < literalEnd text.toByteArray s.place.offset))
          s.place.offset (c :: cs)).rest.length < (c :: cs).length :=
        length_placeAfter_lt (decide_eq_true (by omega)) cs
      split at h <;> cases h <;> exact shorter
  split at h <;> cases h <;> exact one

/-- Scans to the end of a text. -/
def run (text : String) (s : Scanner) : Option Scanner :=
  match _here : s.place.rest with
  | [] => some s
  | c :: cs =>
    match _next : step text s c cs with
    | none => none
    | some t => run text t
termination_by s.place.rest.length
decreasing_by
  rw [_here]
  exact length_step_lt _next

/-- Scans a text. -/
def scan (text : String) : Option Scanner := run text ⟨⟨0, text.toList⟩, ⟨[], []⟩, []⟩

end Scanner

end DomainColoring
