import DomainColoring.Expr.Compile
import DomainColoring.Proofs.Token.Partition

/-!
# Blanking what is skipped

If spaces are written over the characters of a text that are skipped, as many as these have bytes, then
the tokens and their offsets stay what they are. A piece of a text cannot merge with the next one when that
becomes blank, because a piece ends before a space wherever it ends.
-/

namespace DomainColoring

open Character Lexeme

/-- Writes spaces over the characters that are skipped, if the first character is at `offset`. -/
def blanked (skipped : List Skipped) (offset : Nat) : List Char → List Char
  | [] => []
  | c :: cs =>
    (if ⟨offset, c⟩ ∈ skipped then List.replicate c.utf8Size ' ' else [c]) ++
      blanked skipped (offset + c.utf8Size) cs

/-- A text with spaces over the characters that are skipped. -/
def blankSkipped (text : String) : String :=
  String.ofList (blanked (tokenize text).skipped 0 text.toList)

namespace Lexeme

/-- The pieces that stand in the place of a piece once what is skipped has become blank. -/
def blanks : Lexeme → List Lexeme
  | stray c => List.replicate c.utf8Size (blank ' ')
  | l => [l]

theorem chars_replicate (n : Nat) :
    (List.replicate n (blank ' ')).flatMap chars = List.replicate n ' ' := by
  induction n with
  | zero => rfl
  | succ n ih =>
    rw [List.replicate_succ, List.flatMap_cons, ih]
    rfl

/-- What may stand before a text may stand before a blank. -/
theorem Apt.of_head? {l : Lexeme} {rest ds : List Char} (h : Apt l rest)
    (first : ∀ d ∈ ds.head?, isBlank d = true ∨ d ∈ rest.head?) : Apt l ds := by
  -- Only the first character after a piece matters, and no piece goes on with a blank.
  have stops {p : Char → Prop} (blank : ∀ d, isBlank d = true → p d) (ends : ∀ d ∈ rest.head?, p d) :
      ∀ d ∈ ds.head?, p d := fun d member => (first d member).elim (blank d) (ends d)
  have noName (d : Char) (blank : isBlank d = true) : continuesWord d = false := by
    cases name : continuesWord d with
    | false => rfl
    | true =>
      rw [isBlank_of_continuesWord name] at blank
      cases blank
  have noDigit (d : Char) (blank : isBlank d = true) : d.isDigit = false :=
    isDigit_of_continuesWord (noName d blank)
  have noPoint (d : Char) (blank : isBlank d = true) : d ≠ '.' := by
    rintro rfl
    cases blank
  cases h with
  | blank space => exact .blank space
  | word visible starts more ends => exact .word visible starts more (stops noName ends)
  | whole nonempty digits ends =>
    exact .whole nonempty digits (stops (fun d blank => ⟨noDigit d blank, noPoint d blank⟩) ends)
  | fraction nonempty digits places ends =>
    exact .fraction nonempty digits places (stops noDigit ends)
  | mark known => exact .mark known
  | stray visible noName' noDigit' unknown lone =>
    exact .stray visible noName' noDigit' unknown fun point => stops noDigit (lone point)

theorem cut_replicate {ls : List Lexeme} (h : Cut ls) (n : Nat) :
    Cut (List.replicate n (blank ' ') ++ ls) := by
  induction n with
  | zero => exact h
  | succ n ih => exact ⟨.blank rfl, ih⟩

/-- A text starts as before, or with a space, once what is skipped has become blank. -/
theorem head?_blanks (ls : List Lexeme) :
    ∀ d ∈ ((ls.flatMap blanks).flatMap chars).head?,
      isBlank d = true ∨ d ∈ (ls.flatMap chars).head? := by
  induction ls with
  | nil => exact fun _ member => .inr member
  | cons l ls ih =>
    have after (cs : List Char) : ∀ d ∈ (cs ++ (ls.flatMap Lexeme.blanks).flatMap chars).head?,
        isBlank d = true ∨ d ∈ (cs ++ ls.flatMap chars).head? := by
      cases cs with
      | nil => exact ih
      | cons c cs => exact fun _ member => .inr member
    cases l with
    | stray c =>
      obtain ⟨n, size⟩ := Nat.exists_eq_add_one.2 c.utf8Size_pos
      intro d member
      rw [List.flatMap_cons, Lexeme.blanks, size, List.replicate_succ] at member
      obtain rfl := Option.some.inj member
      exact .inl rfl
    | blank c => exact after [c]
    | word cs => exact after cs
    | literal ds point fs => exact after (literal ds point fs).chars
    | mark c k => exact after [c]

/-- Pieces that are cut from a text are cut from it once what is skipped has become blank. -/
theorem Cut.blanks {ls : List Lexeme} (h : Cut ls) : Cut (ls.flatMap blanks) := by
  induction ls with
  | nil => trivial
  | cons l ls ih =>
    have rest : Cut (ls.flatMap Lexeme.blanks) := ih h.2
    cases l with
    | stray c => exact cut_replicate rest c.utf8Size
    | blank c => exact ⟨h.1.of_head? (head?_blanks ls), rest⟩
    | word cs => exact ⟨h.1.of_head? (head?_blanks ls), rest⟩
    | literal ds point fs => exact ⟨h.1.of_head? (head?_blanks ls), rest⟩
    | mark c k => exact ⟨h.1.of_head? (head?_blanks ls), rest⟩

end Lexeme

section Streams

/-- Spaces are passed over. -/
theorem ofLexemes_replicate (n offset : Nat) (ls : List Lexeme) :
    TokenStream.ofLexemes offset (List.replicate n (blank ' ') ++ ls) =
      TokenStream.ofLexemes (offset + n) ls := by
  induction n generalizing offset with
  | zero => rfl
  | succ n ih =>
    have one : byteLength (Lexeme.blank ' ').chars = 1 := rfl
    rw [List.replicate_succ, List.cons_append, Nat.add_comm n 1, ← Nat.add_assoc, ← ih, ← one]
    rfl

/-- Tokens keep their places when what is skipped becomes blank. -/
theorem ofLexemes_blanks (offset : Nat) (ls : List Lexeme) :
    TokenStream.ofLexemes offset (ls.flatMap blanks) =
      ⟨(TokenStream.ofLexemes offset ls).tokens, []⟩ := by
  induction ls generalizing offset with
  | nil => rfl
  | cons l ls ih =>
    specialize ih (offset + byteLength l.chars)
    rw [List.flatMap_cons]
    cases l with
    | stray c =>
      rw [blanks, ofLexemes_replicate]
      exact ih
    | blank c => exact ih
    | word cs => exact congrArg (TokenStream.token _) ih
    | literal ds point fs => exact congrArg (TokenStream.token _) ih
    | mark c k => exact congrArg (TokenStream.token _) ih

end Streams

section Characters

variable {skipped : List Skipped} {offset : Nat} {cs ds : List Char}

theorem blanked_append (skipped : List Skipped) (offset : Nat) (cs ds : List Char) :
    blanked skipped offset (cs ++ ds) =
      blanked skipped offset cs ++ blanked skipped (offset + byteLength cs) ds := by
  induction cs generalizing offset with
  | nil => rfl
  | cons c cs ih =>
    rw [List.cons_append, blanked, ih, blanked, byteLength, Nat.add_assoc, List.append_assoc]

/-- Where nothing is skipped, nothing becomes blank. -/
theorem blanked_eq_self
    (none : ∀ s ∈ skipped, s.offset < offset ∨ offset + byteLength cs ≤ s.offset) :
    blanked skipped offset cs = cs := by
  induction cs generalizing offset with
  | nil => rfl
  | cons c cs ih =>
    have size := c.utf8Size_pos
    have kept : (⟨offset, c⟩ : Skipped) ∉ skipped := by
      intro member
      have apart := none _ member
      simp only [byteLength] at apart
      omega
    have rest : ∀ s ∈ skipped, s.offset < offset + c.utf8Size ∨
        offset + c.utf8Size + byteLength cs ≤ s.offset := by
      intro s member
      have apart := none s member
      simp only [byteLength] at apart
      omega
    rw [blanked, if_neg kept, ih rest]
    rfl

/-- What becomes blank are the pieces that are skipped. -/
theorem blanked_flatMap {ls : List Lexeme} (offset : Nat)
    (strays : ∀ s : Skipped, offset ≤ s.offset →
      (s ∈ skipped ↔ (s.offset, .stray s.char) ∈ placed offset ls)) :
    blanked skipped offset (ls.flatMap chars) = (ls.flatMap blanks).flatMap chars := by
  induction ls generalizing offset with
  | nil => rfl
  | cons l ls ih =>
    have rest := ih (offset + byteLength l.chars) fun s le => by
      refine (strays s (Nat.le_of_add_right_le le)).trans (List.mem_cons.trans (or_iff_right ?_))
      intro first
      obtain ⟨rfl, rfl⟩ := Prod.mk.inj first
      have length := byteLength_pos (List.cons_ne_nil s.char [])
      exact absurd le (Nat.not_le.2 (Nat.lt_add_of_pos_right length))
    have kept (noStray : ∀ c, l ≠ .stray c) : blanked skipped offset l.chars = l.chars := by
      refine blanked_eq_self fun s member => ?_
      refine (Nat.lt_or_ge s.offset offset).imp_right fun le => ?_
      rcases List.mem_cons.1 ((strays s le).1 member) with first | later
      · exact absurd (Prod.mk.inj first).2.symm (noStray s.char)
      · exact (bounds_of_mem_placed later).1
    rw [List.flatMap_cons, blanked_append, rest]
    cases l with
    | stray c =>
      have member : (⟨offset, c⟩ : Skipped) ∈ skipped :=
        (strays ⟨offset, c⟩ (Nat.le_refl offset)).2 List.mem_cons_self
      rw [List.flatMap_cons, List.flatMap_append, blanks, chars_replicate, chars, blanked,
        if_pos member, blanked, List.append_nil]
    | blank c => rw [kept (by simp)]; rfl
    | word cs => rw [kept (by simp)]; rfl
    | literal ds point fs => rw [kept (by simp)]; rfl
    | mark c k => rw [kept (by simp)]; rfl

end Characters

theorem toList_blankSkipped (text : String) :
    (blankSkipped text).toList = ((lexemes text.toList).flatMap blanks).flatMap chars := by
  have strays (s : Skipped) : s ∈ (tokenize text).skipped ↔
      (s.offset, .stray s.char) ∈ placed 0 (lexemes text.toList) := by
    rw [skipped_tokenize, List.mem_filterMap]
    simp only [skippedAt?_eq_some_iff, exists_eq_right]
  have whole := blanked_flatMap 0 fun s _ => strays s
  rw [flatMap_chars_lexemes] at whole
  rw [blankSkipped, String.toList_ofList, whole]

/-- The tokens of a text are left when what is skipped has become blank, and nothing is skipped. -/
theorem tokenize_blankSkipped (text : String) :
    tokenize (blankSkipped text) = ⟨(tokenize text).tokens, []⟩ := by
  rw [tokenize, TokenStream.ofChars, toList_blankSkipped,
    (cut_lexemes text.toList).blanks.lexemes_eq, ofLexemes_blanks]
  rfl

/-- A point and the two bytes of the sign after it become three spaces. -/
example : tokenize (blankSkipped "z.¿+") = ⟨[⟨.ident "z", 0⟩, ⟨.plus, 4⟩], []⟩ := by decide +kernel

/-- Dropping the characters that no token has room for is the same as refusing them once they have become
blank. Where there are none, they may as well be refused at once; otherwise the first is the error. -/
theorem compile_lenient_eq_strict_blankSkipped (text : String) :
    tokenize (blankSkipped text) = ⟨(tokenize text).tokens, []⟩ ∧
      ∀ limit, compile ⟨.lenient, limit⟩ text = compile ⟨.strict, limit⟩ (blankSkipped text) ∧
        compile ⟨.strict, limit⟩ text =
          match (tokenize text).skipped with
          | [] => compile ⟨.lenient, limit⟩ text
          | c :: _ => .error (.unrecognizedCharacter c.char c.offset) := by
  have tokens := tokenize_blankSkipped text
  refine ⟨tokens, fun limit => ⟨?_, ?_⟩⟩
  · rw [compile_lenient, compile_strict, tokens]
  · rw [compile_lenient]
    exact compile_strict limit text

end DomainColoring
