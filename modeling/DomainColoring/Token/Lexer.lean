import DomainColoring.Token
import DomainColoring.Character.Alphabetic
import DomainColoring.Character.Numeric
import DomainColoring.Character.Blank

/-!
# From text to tokens

A text is cut into lexemes, which keep every character: `lexemes` loses and invents nothing
(`flatMap_chars_lexemes`). Tokens, and the characters that no token has room for, are read off the
lexemes together with their byte offsets.
-/

namespace DomainColoring

open Character

/-- A piece of text. -/
inductive Lexeme where
  | blank (c : Char)
  /-- A name. -/
  | word (cs : List Char)
  /-- Digits, possibly with a point and more digits. -/
  | literal (whole : List Char) (point : Bool) (fraction : List Char)
  /-- An operator or a parenthesis. -/
  | mark (c : Char) (kind : TokenKind)
  | stray (c : Char)
deriving DecidableEq, Repr

namespace Lexeme

/-- The characters of a piece. -/
def chars : Lexeme → List Char
  | blank c => [c]
  | word cs => cs
  | literal whole point fraction => whole ++ if point then '.' :: fraction else []
  | mark c _ => [c]
  | stray c => [c]

/-- A name starts with a letter or an underscore. -/
def startsWord (c : Char) : Bool := isAlphabetic c || c == '_'

/-- A name goes on with letters, digits and underscores. -/
def continuesWord (c : Char) : Bool := isAlphabetic c || isNumeric c || c == '_'

/-- The literal of the digits `whole` and a point before `cs`, and the characters after it. -/
def pointLiteral (whole cs : List Char) : Lexeme × List Char :=
  (literal whole true (cs.takeWhile Char.isDigit), cs.dropWhile Char.isDigit)

/-- The longest literal that starts with the digits `whole`, and the characters after it. -/
def literalAfter (whole : List Char) : List Char → Lexeme × List Char
  | '.' :: cs => pointLiteral whole cs
  | cs => (literal whole false [], cs)

/-- The piece that starts with `c`, and the characters after it. -/
def next (c : Char) (cs : List Char) : Lexeme × List Char :=
  if isBlank c then (blank c, cs)
  else if startsWord c then (word (c :: cs.takeWhile continuesWord), cs.dropWhile continuesWord)
  else if c.isDigit then
    literalAfter (c :: cs.takeWhile Char.isDigit) (cs.dropWhile Char.isDigit)
  else if c = '.' ∧ cs.head?.any Char.isDigit then pointLiteral [] cs
  else
    match TokenKind.ofChar? c with
    | some kind => (mark c kind, cs)
    | none => (stray c, cs)

theorem chars_literalAfter (whole cs : List Char) :
    (literalAfter whole cs).1.chars ++ (literalAfter whole cs).2 = whole ++ cs := by
  unfold literalAfter
  split <;> simp [chars, pointLiteral]

/-- A piece and what follows it make up the text. -/
theorem chars_next (c : Char) (cs : List Char) :
    (next c cs).1.chars ++ (next c cs).2 = c :: cs := by
  unfold next
  split
  · rfl
  split
  · simp [chars]
  split
  · simp [chars_literalAfter]
  split
  · next h => simp [chars, pointLiteral, h.1]
  split <;> rfl

theorem length_dropWhile_le (p : Char → Bool) (cs : List Char) :
    (cs.dropWhile p).length ≤ cs.length :=
  (List.dropWhile_sublist p).length_le

theorem length_literalAfter_le (whole cs : List Char) :
    (literalAfter whole cs).2.length ≤ cs.length := by
  unfold literalAfter
  split
  · exact Nat.le_succ_of_le (length_dropWhile_le _ _)
  · exact Nat.le_refl _

theorem length_next_le (c : Char) (cs : List Char) : (next c cs).2.length ≤ cs.length := by
  unfold next
  split
  · exact Nat.le_refl _
  split
  · exact length_dropWhile_le _ _
  split
  · exact Nat.le_trans (length_literalAfter_le _ _) (length_dropWhile_le _ _)
  split
  · exact length_dropWhile_le _ _
  split <;> exact Nat.le_refl _

/-- The token that a piece is, if it is one. -/
def token? : Lexeme → Option TokenKind
  | blank _ => none
  | word cs => some (.ident (String.ofList cs))
  | literal whole _ fraction => some (.number (Decimal.ofParts whole fraction).toFloat)
  | mark _ kind => some kind
  | stray _ => none

end Lexeme

/-- The pieces of a text. -/
def lexemes : List Char → List Lexeme
  | [] => []
  | c :: cs => (Lexeme.next c cs).1 :: lexemes (Lexeme.next c cs).2
termination_by cs => cs.length
decreasing_by
  have := Lexeme.length_next_le c cs
  simp only [List.length_cons]
  omega

/-- Every character of a text is in one piece, in order. -/
theorem flatMap_chars_lexemes (cs : List Char) : (lexemes cs).flatMap Lexeme.chars = cs := by
  fun_induction lexemes cs with
  | case1 => rfl
  | case2 c cs ih => rw [List.flatMap_cons, ih, Lexeme.chars_next]

/-- The number of bytes that encode some characters. -/
def byteLength : List Char → Nat
  | [] => 0
  | c :: cs => c.utf8Size + byteLength cs

namespace TokenStream

/-- Puts a token in front. -/
def token (t : Token) (s : TokenStream) : TokenStream := ⟨t :: s.tokens, s.skipped⟩

/-- Puts a skipped character in front. -/
def skip (c : Skipped) (s : TokenStream) : TokenStream := ⟨s.tokens, c :: s.skipped⟩

/-- The tokens and skipped characters of pieces of which the first starts at `offset`. -/
def ofLexemes (offset : Nat) : List Lexeme → TokenStream
  | [] => ⟨[], []⟩
  | l :: ls =>
    let rest := ofLexemes (offset + byteLength l.chars) ls
    match l, l.token? with
    | .stray c, _ => rest.skip ⟨offset, c⟩
    | _, some kind => rest.token ⟨kind, offset⟩
    | _, none => rest

/-- The tokens of a text. -/
def ofChars (cs : List Char) : TokenStream := ofLexemes 0 (lexemes cs)

end TokenStream

/-- The tokens of a text. Never fails: what is no token is skipped. -/
def tokenize (text : String) : TokenStream := TokenStream.ofChars text.toList

end DomainColoring
