import DomainColoring.Json.Reader
import DomainColoring.Json.Writer

/-!
# Strings are read back

A character is written as itself or as an escape, and either is read as one piece of a string
(`readString_escape`) that decodes to the character (`decode?_part`). No piece is half a surrogate
pair, since only control characters are written as numbers. A text is the list of its characters, so
whole strings follow by induction.
-/

namespace DomainColoring.JsonText

open Json

/-- The piece of a string that a character is read back as: a numeric escape is a number until the
string is decoded. -/
def part (c : Char) : StringPart :=
  if c.toNat < 0x20 ∧ c ∉ ['\x08', '\x0c', '\n', '\r', '\t'] then .code c.toNat else .char c

theorem hex4?_hexDigit :
    ∀ n < 0x20, hex4? '0' '0' (hexDigit (n / 16)) (hexDigit (n % 16)) = some n := by
  decide

theorem readString_letter {letter c : Char} (letter_ne : letter ≠ 'u')
    (named : escaped? letter = some c) (cs : List Char) :
    readString ('\\' :: letter :: cs) = (readString cs).map fun p => (.char c :: p.1, p.2) := by
  rw [readString]
  · rw [named]
    cases readString cs <;> rfl
  · intro a b c d _ u
    exact absurd u letter_ne

theorem readString_code {a b c d : Char} {n : Nat} (hex : hex4? a b c d = some n) (cs : List Char) :
    readString ('\\' :: 'u' :: a :: b :: c :: d :: cs) =
      (readString cs).map fun p => (.code n :: p.1, p.2) := by
  rw [readString, hex]
  cases readString cs <;> rfl

theorem readString_plain {c : Char} (quote : c ≠ '"') (backslash : c ≠ '\\')
    (printable : ¬c.toNat < 0x20) (cs : List Char) :
    readString (c :: cs) = (readString cs).map fun p => (.char c :: p.1, p.2) := by
  rw [readString]
  · rw [if_neg (by simp [backslash, printable])]
    cases readString cs <;> rfl
  · exact quote
  · intro a b c d _ h
    exact absurd h backslash
  · intro e _ h
    exact absurd h backslash

theorem readString_escape (c : Char) (cs : List Char) :
    readString (escape c ++ cs) = (readString cs).map fun p => (part c :: p.1, p.2) := by
  unfold escape
  split
  -- seven characters are escaped by a letter
  iterate 7 exact readString_letter (by decide) rfl cs
  next quote backslash back feed line ret tab =>
    unfold part
    split
    · next control =>
      have hexed : c ∉ ['\x08', '\x0c', '\n', '\r', '\t'] := by
        simp only [List.mem_cons, List.not_mem_nil, or_false, not_or]
        exact ⟨back, feed, line, ret, tab⟩
      rw [if_pos ⟨control, hexed⟩]
      exact readString_code (hex4?_hexDigit _ control) cs
    · next printable =>
      rw [if_neg fun h => printable h.1]
      exact readString_plain quote backslash printable cs

theorem decode?_part (c : Char) (parts : List StringPart) :
    StringPart.decode? (part c :: parts) = (StringPart.decode? parts).map (c :: ·) := by
  unfold part
  split
  · next control =>
    have high : StringPart.isHighSurrogate c.toNat = false :=
      decide_eq_false fun h => by have := h.1; omega
    have low : StringPart.isLowSurrogate c.toNat = false :=
      decide_eq_false fun h => by have := h.1; omega
    rw [StringPart.decode?.eq_def]
    simp only [high, low, Bool.false_eq_true, if_false, Char.ofNat_toNat]
  · rfl

/-- The pieces that a text is read back as. -/
def parts (text : String) : List StringPart := text.toList.map part

theorem readString_flatMap (cs rest : List Char) :
    readString (cs.flatMap escape ++ '"' :: rest) = some (cs.map part, rest) := by
  induction cs with
  | nil => rfl
  | cons c cs ih =>
    rw [List.flatMap_cons, List.append_assoc, readString_escape, ih]
    rfl

theorem decode?_map (cs : List Char) : StringPart.decode? (cs.map part) = some cs := by
  induction cs with
  | nil => rfl
  | cons c cs ih =>
    rw [List.map_cons, decode?_part, ih]
    rfl

/-- A written text is read up to its closing quote. -/
theorem readString_string (text : String) (rest : List Char) :
    ∃ body, string text = '"' :: body ∧ readString (body ++ rest) = some (parts text, rest) := by
  refine ⟨text.toList.flatMap escape ++ ['"'], rfl, ?_⟩
  rw [List.append_assoc]
  exact readString_flatMap text.toList rest

theorem text?_parts (text : String) : StringPart.text? (parts text) = some text := by
  rw [StringPart.text?, parts, decode?_map]
  exact congrArg some String.ofList_toList

end DomainColoring.JsonText
