import DomainColoring.Proofs.Grammar.Offsets
import DomainColoring.Proofs.Token.Blanking

/-!
# Blanks between words

Where a text is not cut within a name or a literal, its tokens are those of the part before and those of the
part after (`tokenize_append`), and blanks put in there only move the second part (`tokenize_spaced`). A part
is cut into the same pieces by itself: the last piece of the first part ends before the second part, so it
ends before blanks too, and where there is nothing left.
-/

namespace DomainColoring

open Character Lexeme

/-- Names and numbers, the tokens that may have several characters. -/
def TokenKind.isLong : TokenKind → Bool
  | ident _ => true
  | number _ => true
  | _ => false

/-- The place between `a` and `b` is not strictly within a name or a number of the text `a ++ b`. -/
def Separates (a b : String) : Prop :=
  ∀ t ∈ (tokenize (a ++ b)).tokens, t.kind.isLong = true →
    a.utf8ByteSize ≤ t.offset ∨ t.offset + byteLength (t.source (a ++ b)) ≤ a.utf8ByteSize

instance (a b : String) : Decidable (Separates a b) :=
  inferInstanceAs (Decidable (∀ t ∈ _, _ → _))

/-- The tokens and skipped characters of one text, and then those of another. -/
instance : Append TokenStream where
  append s t := ⟨s.tokens ++ t.tokens, s.skipped ++ t.skipped⟩

section Pieces

variable {l : Lexeme} {ls ms ns : List Lexeme} {cs before after : List Char}

/-- A token of more than one character is a name or a number. -/
theorem Lexeme.Apt.exists_long (h : Apt l cs) {c d : Char} {rest : List Char}
    (several : l.chars = c :: d :: rest) : ∃ k, l.token? = some k ∧ k.isLong = true := by
  cases h with
  | word visible starts more ends => exact ⟨_, rfl, rfl⟩
  | whole nonempty digits ends => exact ⟨_, rfl, rfl⟩
  | fraction nonempty digits places ends => exact ⟨_, rfl, rfl⟩
  | blank space => cases several
  | mark known => cases several
  | stray visible noName noDigit unknown lone => cases several

/-- Pieces are divided by a place that is within none of the long tokens. -/
theorem exists_split (cut : Cut ls) (offset : Nat) (whole : ls.flatMap chars = before ++ after)
    (apart : ∀ p ∈ placed offset ls, ∀ k, p.2.token? = some k → k.isLong = true →
      offset + byteLength before ≤ p.1 ∨
        p.1 + byteLength p.2.chars ≤ offset + byteLength before) :
    ∃ earlier later, ls = earlier ++ later ∧ earlier.flatMap chars = before ∧
      later.flatMap chars = after := by
  induction ls generalizing before offset with
  | nil =>
    obtain ⟨rfl, rfl⟩ := List.append_eq_nil_iff.1 whole.symm
    exact ⟨[], [], rfl, rfl, rfl⟩
  | cons l ls ih =>
    rw [List.flatMap_cons] at whole
    rcases List.append_eq_append_iff.1 whole with ⟨left, rfl, rest⟩ | ⟨right, piece, rest⟩
    · have apart' : ∀ p ∈ placed (offset + byteLength l.chars) ls, ∀ k, p.2.token? = some k →
          k.isLong = true → offset + byteLength l.chars + byteLength left ≤ p.1 ∨
            p.1 + byteLength p.2.chars ≤ offset + byteLength l.chars + byteLength left := by
        intro p member k known long
        have far := apart p (List.mem_cons_of_mem _ member) k known long
        rwa [byteLength_append, ← Nat.add_assoc] at far
      obtain ⟨earlier, later, rfl, first, second⟩ := ih cut.2 _ rest apart'
      exact ⟨l :: earlier, later, rfl, by rw [List.flatMap_cons, first], second⟩
    cases before with
    | nil => exact ⟨[], l :: ls, rfl, rfl, by rw [List.flatMap_cons, piece, rest, List.nil_append]⟩
    | cons c before =>
      cases right with
      | nil =>
        rw [List.append_nil] at piece
        exact ⟨[l], ls, rfl, by rw [List.flatMap_cons, piece]; exact List.append_nil _, rest.symm⟩
      | cons d right =>
        -- the place would be between two characters of one piece, so that is a long token
        obtain ⟨e, es, several⟩ := List.exists_cons_of_ne_nil
          (show before ++ d :: right ≠ [] from List.append_ne_nil_of_right_ne_nil _ (by simp))
        have chars : l.chars = c :: e :: es := by rw [piece, List.cons_append, several]
        obtain ⟨k, known, long⟩ := cut.1.exists_long chars
        have inside := apart (offset, l) List.mem_cons_self k known long
        have first := byteLength_pos (List.cons_ne_nil c before)
        have second := byteLength_pos (List.cons_ne_nil d right)
        simp only [piece, byteLength_append] at inside
        omega

/-- Pieces stay pieces when what follows them becomes blank or nothing. -/
theorem Lexeme.Cut.append_of_head? (h : Cut (ls ++ ms)) (next : Cut ns)
    (first : ∀ d ∈ (ns.flatMap chars).head?, isBlank d = true ∨ d ∈ (ms.flatMap chars).head?) :
    Cut (ls ++ ns) := by
  induction ls with
  | nil => exact next
  | cons l ls ih =>
    refine ⟨h.1.of_head? ?_, ih h.2⟩
    change ∀ d ∈ ((ls ++ ns).flatMap chars).head?,
      isBlank d = true ∨ d ∈ ((ls ++ ms).flatMap chars).head?
    rw [List.flatMap_append, List.flatMap_append]
    cases ls.flatMap chars with
    | nil => exact first
    | cons c cs => exact fun d member => .inr member

theorem Lexeme.Cut.left (h : Cut (ls ++ ms)) : Cut ls := by
  have alone : Cut (ls ++ []) := h.append_of_head? trivial (by simp)
  rwa [List.append_nil] at alone

theorem cut_blanks (blank : ∀ c ∈ cs, isBlank c = true) (h : Cut ls) :
    Cut (cs.map Lexeme.blank ++ ls) := by
  induction cs with
  | nil => exact h
  | cons c cs ih =>
    exact ⟨.blank (blank c List.mem_cons_self), ih fun d member => blank d (List.mem_cons_of_mem c member)⟩

theorem flatMap_chars_blanks (cs : List Char) : (cs.map Lexeme.blank).flatMap chars = cs := by
  induction cs with
  | nil => rfl
  | cons c cs ih => exact congrArg (c :: ·) ih

/-- The pieces of the parts of a text, and those of the text with blanks between the parts. -/
theorem lexemes_spaced (cut : Cut (ls ++ ms)) (blank : ∀ c ∈ cs, isBlank c = true) (some : cs ≠ []) :
    lexemes (ls.flatMap chars ++ cs ++ ms.flatMap chars) = ls ++ (cs.map Lexeme.blank ++ ms) := by
  have spaced : Cut (ls ++ (cs.map Lexeme.blank ++ ms)) := by
    refine cut.append_of_head? (cut_blanks blank cut.append_right) fun d member => .inl ?_
    obtain ⟨c, cs, rfl⟩ := List.exists_cons_of_ne_nil some
    cases member
    exact blank _ List.mem_cons_self
  have whole := spaced.lexemes_eq
  rwa [List.flatMap_append, List.flatMap_append, flatMap_chars_blanks, ← List.append_assoc] at whole

end Pieces

section Streams

variable {f g : Nat → Nat} {s : TokenStream}

theorem TokenStream.mapOffset_append (s t : TokenStream) :
    (s ++ t).mapOffset f = s.mapOffset f ++ t.mapOffset f :=
  congrArg₂ TokenStream.mk List.map_append List.map_append

theorem TokenStream.mapOffset_mapOffset (s : TokenStream) :
    (s.mapOffset g).mapOffset f = s.mapOffset fun offset => f (g offset) :=
  congrArg₂ TokenStream.mk List.map_map List.map_map

theorem TokenStream.mapOffset_eq_self (tokens : ∀ t ∈ s.tokens, f t.offset = t.offset)
    (skipped : ∀ c ∈ s.skipped, f c.offset = c.offset) : s.mapOffset f = s := by
  have same : s.tokens.map (·.mapOffset f) = s.tokens.map id :=
    List.map_congr_left fun t member => congrArg (Token.mk t.kind) (tokens t member)
  have same' : s.skipped.map (·.mapOffset f) = s.skipped.map id :=
    List.map_congr_left fun c member => congrArg (Skipped.mk · c.char) (skipped c member)
  rw [mapOffset, same, same', List.map_id, List.map_id]

theorem ofLexemes_append (offset : Nat) (ls ms : List Lexeme) :
    TokenStream.ofLexemes offset (ls ++ ms) = TokenStream.ofLexemes offset ls ++
      TokenStream.ofLexemes (offset + byteLength (ls.flatMap chars)) ms := by
  refine congrArg₂ TokenStream.mk ?_ ?_
  · rw [tokens_eq_filterMap, placed_append, List.filterMap_append, tokens_eq_filterMap, tokens_eq_filterMap]
  · rw [skipped_eq_filterMap, placed_append, List.filterMap_append, skipped_eq_filterMap,
      skipped_eq_filterMap]

theorem ofLexemes_add (k offset : Nat) (ls : List Lexeme) :
    TokenStream.ofLexemes (k + offset) ls = (TokenStream.ofLexemes offset ls).mapOffset (k + ·) := by
  induction ls generalizing offset with
  | nil => rfl
  | cons l ls ih =>
    specialize ih (offset + byteLength l.chars)
    rw [← Nat.add_assoc] at ih
    cases l <;> simp only [TokenStream.ofLexemes, ih] <;> rfl

theorem ofLexemes_map_blank (cs : List Char) (offset : Nat) (ls : List Lexeme) :
    TokenStream.ofLexemes offset (cs.map Lexeme.blank ++ ls) =
      TokenStream.ofLexemes (offset + byteLength cs) ls := by
  induction cs generalizing offset with
  | nil => rfl
  | cons c cs ih =>
    have next := ih (offset + byteLength [c])
    rwa [Nat.add_assoc, ← byteLength_append] at next

end Streams

section Texts

variable {a b w : String}

/-- The pieces of a text that is cut between two words are those of its parts. -/
theorem lexemes_append_of_separates (h : Separates a b) :
    lexemes (a ++ b).toList = lexemes a.toList ++ lexemes b.toList ∧
      Cut (lexemes a.toList ++ lexemes b.toList) := by
  have cut := cut_lexemes (a ++ b).toList
  have whole : (lexemes (a ++ b).toList).flatMap chars = a.toList ++ b.toList := by
    rw [flatMap_chars_lexemes, String.toList_append]
  obtain ⟨earlier, later, split, first, second⟩ := exists_split cut 0 whole fun p member k known long => by
    have token : tokenAt? p = some ⟨k, p.1⟩ := tokenAt?_eq_some_iff.2 ⟨known, rfl⟩
    have present : ⟨k, p.1⟩ ∈ (tokenize (a ++ b)).tokens := by
      rw [tokens_tokenize]
      exact List.mem_filterMap.2 ⟨p, member, token⟩
    have apart := h ⟨k, p.1⟩ present long
    rwa [source_eq member token, ← byteLength_toList, ← Nat.zero_add (byteLength a.toList)] at apart
  rw [split] at cut
  have left : lexemes a.toList = earlier := lexemes_eq_iff.2 ⟨cut.left, first⟩
  have right : lexemes b.toList = later := lexemes_eq_iff.2 ⟨cut.append_right, second⟩
  rw [left, right]
  exact ⟨split, cut⟩

theorem tokenize_append (h : Separates a b) :
    tokenize (a ++ b) = tokenize a ++ (tokenize b).mapOffset (a.utf8ByteSize + ·) := by
  unfold tokenize TokenStream.ofChars
  rw [(lexemes_append_of_separates h).1, ofLexemes_append, flatMap_chars_lexemes, Nat.zero_add,
    byteLength_toList]
  exact congrArg (_ ++ ·) (ofLexemes_add _ 0 _)

theorem tokenize_spaced (h : Separates a b) (blank : ∀ c ∈ w.toList, isBlank c = true) (some : w ≠ "") :
    tokenize (a ++ w ++ b) = tokenize a ++ (tokenize b).mapOffset ((a ++ w).utf8ByteSize + ·) := by
  have some : w.toList ≠ [] := fun empty => some (String.toList_eq_nil_iff.1 empty)
  have spaced := lexemes_spaced (lexemes_append_of_separates h).2 blank some
  rw [flatMap_chars_lexemes, flatMap_chars_lexemes, ← String.toList_append, ← String.toList_append]
    at spaced
  unfold tokenize TokenStream.ofChars
  rw [spaced, ofLexemes_append, ofLexemes_map_blank, flatMap_chars_lexemes, Nat.zero_add,
    ← byteLength_append, ← String.toList_append, byteLength_toList]
  exact congrArg (_ ++ ·) (ofLexemes_add _ 0 _)

/-- What is found in a text is within it. -/
theorem offset_lt (text : String) :
    (∀ t ∈ (tokenize text).tokens, t.offset < text.utf8ByteSize) ∧
      ∀ s ∈ (tokenize text).skipped, s.offset < text.utf8ByteSize := by
  have within : ∀ p ∈ placed 0 (lexemes text.toList), p.1 < text.utf8ByteSize := by
    intro p member
    obtain ⟨before, after, split, place, apt⟩ := exists_apt_of_mem_placed member
    have some := byteLength_pos apt.chars_ne_nil
    rw [← byteLength_toList, split, byteLength_append, byteLength_append]
    omega
  rw [tokens_tokenize, skipped_tokenize]
  constructor
  · intro t member
    obtain ⟨p, present, token⟩ := List.mem_filterMap.1 member
    rw [← (tokenAt?_eq_some_iff.1 token).2]
    exact within p present
  · intro s member
    obtain ⟨p, present, stray⟩ := List.mem_filterMap.1 member
    rw [skippedAt?_eq_some_iff.1 stray] at present
    exact within _ present

/-- An offset in a text after `k` bytes are put in at `here`. -/
def afterInsert (here k offset : Nat) : Nat := if offset < here then offset else offset + k

/-- Blanks between two words move what comes after them, and nothing else. -/
theorem tokenize_spaced_eq_mapOffset (h : Separates a b) (blank : ∀ c ∈ w.toList, isBlank c = true)
    (some : w ≠ "") :
    tokenize (a ++ w ++ b) =
      (tokenize (a ++ b)).mapOffset (afterInsert a.utf8ByteSize w.utf8ByteSize) := by
  have before (o : Nat) (lt : o < a.utf8ByteSize) :
      afterInsert a.utf8ByteSize w.utf8ByteSize o = o := if_pos lt
  have after (o : Nat) : afterInsert a.utf8ByteSize w.utf8ByteSize (a.utf8ByteSize + o) =
      (a ++ w).utf8ByteSize + o := by
    rw [afterInsert, if_neg (Nat.not_lt.2 (Nat.le_add_right _ _)), String.utf8ByteSize_append]
    omega
  obtain ⟨tokens, skipped⟩ := offset_lt a
  rw [tokenize_spaced h blank some, tokenize_append h, TokenStream.mapOffset_append,
    TokenStream.mapOffset_mapOffset, funext after,
    TokenStream.mapOffset_eq_self (fun t member => before _ (tokens t member))
      fun c member => before _ (skipped c member)]

/-- Blanks between the words of a text change nothing but offsets. The tokens and the skipped characters
are those of the part before them, and then those of the part after them, moved behind them; they are of
the same kinds in the same order as without the blanks. So the text compiles to the same tree as without
them, or is refused for the same reason, at the place to which it has moved. -/
theorem compile_spaced (h : Separates a b) (blank : ∀ c ∈ w.toList, isBlank c = true) (some : w ≠ "") :
    tokenize (a ++ w ++ b) = tokenize a ++ (tokenize b).mapOffset ((a ++ w).utf8ByteSize + ·) ∧
      (tokenize (a ++ w ++ b)).tokens.map Token.kind = (tokenize (a ++ b)).tokens.map Token.kind ∧
      (tokenize (a ++ w ++ b)).skipped.map Skipped.char =
        (tokenize (a ++ b)).skipped.map Skipped.char ∧
      ∀ options, compile options (a ++ w ++ b) =
        (compile options (a ++ b)).mapError
          (·.mapOffset (afterInsert a.utf8ByteSize w.utf8ByteSize)) := by
  have moved := tokenize_spaced_eq_mapOffset h blank some
  refine ⟨tokenize_spaced h blank some, ?kinds, ?chars, compile_of_mapOffset moved⟩
  case kinds =>
    rw [moved, TokenStream.mapOffset, List.map_map]
    rfl
  case chars =>
    rw [moved, TokenStream.mapOffset, List.map_map]
    rfl

/-- The literals `1.` and `.5` of `1..5` are two with and without the no-break space between them, which
has two bytes; so the second is refused at the third byte or at the fifth. -/
theorem compile_spaced_points :
    Separates "1." ".5" ∧ (∀ c ∈ "\u00a0".toList, isBlank c = true) ∧ "\u00a0" ≠ "" ∧
      tokenize ("1." ++ "\u00a0" ++ ".5") =
        tokenize "1." ++ (tokenize ".5").mapOffset (("1." ++ "\u00a0").utf8ByteSize + ·) ∧
      compile .standard ("1." ++ ".5") = .error (.trailingInput "0.5" 2) ∧
      compile .standard ("1." ++ "\u00a0" ++ ".5") = .error (.trailingInput "0.5" 4) := by
  have h : Separates "1." ".5" := by decide +kernel
  have blank : ∀ c ∈ "\u00a0".toList, isBlank c = true := List.forall_mem_singleton.2 (by decide)
  have some : "\u00a0" ≠ "" := by simp
  obtain ⟨tokens, -, -, compiled⟩ := compile_spaced h blank some
  have refused : compile .standard ("1." ++ ".5") = .error (.trailingInput "0.5" 2) := by
    decide +kernel
  refine ⟨h, blank, some, tokens, refused, ?_⟩
  rw [compiled, refused]
  decide +kernel

end Texts

end DomainColoring
