import DomainColoring.Proofs.Token.Literals
import DomainColoring.Proofs.Token.Offsets

/-!
# Where the characters of a text go

Every character of a text is blank, or it is one of those that a token is written with, or it is skipped;
no two of these hold, and no two tokens are written with the same character (`Partitions`).
-/

namespace DomainColoring

open Character Lexeme

/-- The characters from an offset on. -/
def charsFrom : Nat → List Char → List Char
  | 0, cs => cs
  | _ + 1, [] => []
  | n + 1, c :: cs => charsFrom (n + 1 - c.utf8Size) cs

/-- The characters of a text that starts with a token, as far as the token goes. -/
def TokenKind.extent : TokenKind → List Char → List Char
  | ident _, cs => cs.takeWhile continuesWord
  | number _, cs => (literalAfter (cs.takeWhile Char.isDigit) (cs.dropWhile Char.isDigit)).1.chars
  | _, cs => cs.take 1

/-- The characters of a text that a token is written with. -/
def Token.source (text : String) (t : Token) : List Char :=
  t.kind.extent (charsFrom t.offset text.toList)

/-- Whether the character at an offset is one that the token is written with. -/
def Token.covers (text : String) (offset : Nat) (t : Token) : Bool :=
  t.offset ≤ offset && offset < t.offset + byteLength (t.source text)

/-- A token is written with the characters `cs` before `rest`: a name with all that it goes on with, a
number with the longest literal, which is read as the number, and all else with one character. -/
def TokenKind.WrittenAs (cs rest : List Char) : TokenKind → Prop
  | ident name =>
    String.ofList cs = name ∧ cs.head?.any startsWord = true ∧ (∀ c ∈ cs, continuesWord c = true) ∧
      ∀ c ∈ rest.head?, continuesWord c = false
  | number value =>
    IsLiteral cs ∧ (∀ ds, ds <+: cs ++ rest → IsLiteral ds → ds.length ≤ cs.length) ∧
      numberOfText? (String.ofList cs) = some value
  | kind => ∃ c, cs = [c] ∧ ofChar? c = some kind

/-- A character that no token is written with, before the characters `rest`. -/
structure IsStray (c : Char) (rest : List Char) : Prop where
  visible : isBlank c = false
  noName : startsWord c = false
  noDigit : c.isDigit = false
  unknown : TokenKind.ofChar? c = none
  lone : c = '.' → ∀ d ∈ rest.head?, d.isDigit = false

/-- The characters of a text are divided among blanks, tokens and what is skipped. -/
structure Partitions (text : String) (stream : TokenStream) : Prop where
  /-- Each character is in one of them. -/
  once : ∀ before c after, text.toList = before ++ c :: after →
    (if isBlank c then 1 else 0) + stream.tokens.countP (Token.covers text (byteLength before)) +
      stream.skipped.countP (·.offset == byteLength before) = 1
  ascending : (stream.tokens.map Token.offset).Pairwise (· < ·)
  skippedAscending : (stream.skipped.map Skipped.offset).Pairwise (· < ·)
  /-- Characters begin at all offsets. -/
  boundaries : ∀ offset ∈ stream.tokens.map Token.offset ++ stream.skipped.map Skipped.offset,
    (String.Pos.Raw.mk offset).IsValid text
  written : ∀ t ∈ stream.tokens, ∃ before after, text.toList = before ++ t.source text ++ after ∧
    byteLength before = t.offset ∧ t.kind.WrittenAs (t.source text) after
  stray : ∀ s ∈ stream.skipped, ∃ before after, text.toList = before ++ s.char :: after ∧
    byteLength before = s.offset ∧ IsStray s.char after

theorem charsFrom_byteLength (before after : List Char) :
    charsFrom (byteLength before) (before ++ after) = after := by
  induction before with
  | nil => rw [byteLength, List.nil_append, charsFrom]
  | cons c before ih =>
    obtain ⟨n, length⟩ := Nat.exists_eq_add_one.2 (byteLength_pos (List.cons_ne_nil c before))
    rw [length, List.cons_append, charsFrom, ← length, byteLength, Nat.add_sub_cancel_left, ih]

section Pieces

variable {l : Lexeme} {k : TokenKind} {c : Char} {rest : List Char}

/-- What belongs to a name is not blank. -/
theorem isBlank_of_continuesWord (h : continuesWord c = true) : isBlank c = false := by
  have blanks : ∀ r ∈ whiteSpace.ranges, ∀ i ≤ r.2 - r.1,
      continuesWord (Char.ofNat (r.1 + i)) = false := by decide +kernel
  rw [← Bool.not_eq_true]
  intro blank
  obtain ⟨r, member, low, high⟩ := whiteSpace.contains_eq_true_iff.1 blank
  have other := blanks r member (c.toNat - r.1) (by omega)
  rw [Nat.add_sub_cancel' low, Char.ofNat_toNat, h] at other
  cases other

/-- No token is written with blanks. -/
theorem Lexeme.Apt.isBlank_eq_false (h : Apt l rest) (known : l.token? = some k) (member : c ∈ l.chars) :
    isBlank c = false := by
  cases l with
  | blank d => cases known
  | stray d => cases known
  | word cs =>
    cases h with
    | word visible starts more ends =>
      exact isBlank_of_continuesWord (continuesWord_of_mem starts more c member)
  | literal ds point fs => exact ((isLiteral_of_apt h).plain c member).classes.1
  | mark d j =>
    cases h with
    | mark sign =>
      cases List.mem_singleton.1 member
      exact (classes_of_ofChar? sign).1

/-- Operators and parentheses are neither names nor numbers. -/
theorem writtenAs_of_ofChar? (sign : TokenKind.ofChar? c = some k) : k.WrittenAs [c] rest := by
  have one : ∃ d, [c] = [d] ∧ TokenKind.ofChar? d = some k := ⟨c, rfl, sign⟩
  unfold TokenKind.ofChar? at sign
  split at sign <;> cases sign <;> exact one

theorem extent_of_ofChar? (sign : TokenKind.ofChar? c = some k) : k.extent (c :: rest) = [c] := by
  unfold TokenKind.ofChar? at sign
  split at sign <;> cases sign <;> rfl

/-- A piece that is a token is written as it should be. -/
theorem Lexeme.Apt.writtenAs (h : Apt l rest) (known : l.token? = some k) :
    k.WrittenAs l.chars rest := by
  cases l with
  | blank d => cases known
  | stray d => cases known
  | word cs =>
    cases known
    cases h with
    | word visible starts more ends =>
      exact ⟨rfl, starts, continuesWord_of_mem starts more, ends⟩
  | literal ds point fs =>
    cases known
    exact ⟨isLiteral_of_apt h, fun _ => length_le_of_apt h, numberOfText?_of_apt h⟩
  | mark d j =>
    cases known
    cases h with
    | mark sign => exact writtenAs_of_ofChar? sign

/-- A token goes as far as its piece. -/
theorem Lexeme.Apt.extent_eq (h : Apt l rest) (known : l.token? = some k) :
    k.extent (l.chars ++ rest) = l.chars := by
  cases h with
  | blank space => cases known
  | @word c cs _ visible starts more ends =>
    cases known
    exact (span_eq (continuesWord_of_mem starts more) ends).1
  | @whole ds _ nonempty digits ends =>
    cases known
    obtain ⟨taken, left⟩ := span_eq digits fun d first => (ends d first).1
    rw [chars, if_neg (by decide), List.append_nil, TokenKind.extent, taken, left,
      literalAfter_eq fun d first => (ends d first).2, chars, if_neg (by decide), List.append_nil]
  | @fraction ds fs _ nonempty digits places ends =>
    cases known
    obtain ⟨taken, left⟩ := @span_eq _ _ ('.' :: (fs ++ rest)) digits fun d first => by
      cases first
      rfl
    obtain ⟨takenPlaces, -⟩ := span_eq places ends
    rw [chars, if_pos rfl, List.append_assoc, List.cons_append, TokenKind.extent, taken, left,
      literalAfter, pointLiteral, takenPlaces, chars, if_pos rfl]
  | mark sign =>
    cases known
    exact extent_of_ofChar? sign
  | stray visible noName noDigit unknown lone => cases known

end Pieces

section Places

variable {ls ms : List Lexeme} {offset : Nat} {p : Nat × Lexeme} {t : Token} {s : Skipped}

/-- Pieces and their offsets, if the first starts at `offset`. -/
def placed (offset : Nat) : List Lexeme → List (Nat × Lexeme)
  | [] => []
  | l :: ls => (offset, l) :: placed (offset + byteLength l.chars) ls

/-- The token that a piece is, if it is one. -/
def tokenAt? (p : Nat × Lexeme) : Option Token := p.2.token?.map (⟨·, p.1⟩)

/-- The skipped character that a piece is, if it is one. -/
def skippedAt? : Nat × Lexeme → Option Skipped
  | (offset, .stray c) => some ⟨offset, c⟩
  | _ => none

theorem tokenAt?_eq_some_iff : tokenAt? p = some t ↔ p.2.token? = some t.kind ∧ p.1 = t.offset := by
  obtain ⟨kind, offset⟩ := t
  simp [tokenAt?]

theorem skippedAt?_eq_some_iff : skippedAt? p = some s ↔ p = (s.offset, .stray s.char) := by
  obtain ⟨offset, l⟩ := p
  obtain ⟨place, c⟩ := s
  cases l <;> simp [skippedAt?]

theorem tokens_eq_filterMap (offset : Nat) (ls : List Lexeme) :
    (TokenStream.ofLexemes offset ls).tokens = (placed offset ls).filterMap tokenAt? := by
  induction ls generalizing offset with
  | nil => rfl
  | cons l ls ih =>
    specialize ih (offset + byteLength l.chars)
    cases l <;> simp [TokenStream.ofLexemes, TokenStream.token, TokenStream.skip, placed, List.filterMap_cons,
      tokenAt?, token?, ih]

theorem skipped_eq_filterMap (offset : Nat) (ls : List Lexeme) :
    (TokenStream.ofLexemes offset ls).skipped = (placed offset ls).filterMap skippedAt? := by
  induction ls generalizing offset with
  | nil => rfl
  | cons l ls ih =>
    specialize ih (offset + byteLength l.chars)
    cases l <;> simp [TokenStream.ofLexemes, TokenStream.token, TokenStream.skip, placed, List.filterMap_cons,
      skippedAt?, token?, ih]

theorem tokens_tokenize (text : String) :
    (tokenize text).tokens = (placed 0 (lexemes text.toList)).filterMap tokenAt? :=
  tokens_eq_filterMap 0 _

theorem skipped_tokenize (text : String) :
    (tokenize text).skipped = (placed 0 (lexemes text.toList)).filterMap skippedAt? :=
  skipped_eq_filterMap 0 _

theorem placed_append (offset : Nat) (ls ms : List Lexeme) :
    placed offset (ls ++ ms) =
      placed offset ls ++ placed (offset + byteLength (ls.flatMap chars)) ms := by
  induction ls generalizing offset with
  | nil => rfl
  | cons l ls ih =>
    rw [List.cons_append, placed, ih, List.flatMap_cons, byteLength_append, Nat.add_assoc]
    rfl

theorem exists_of_mem_placed (member : p ∈ placed offset ls) :
    ∃ earlier later, ls = earlier ++ p.2 :: later ∧
      p.1 = offset + byteLength (earlier.flatMap chars) := by
  induction ls generalizing offset with
  | nil => cases member
  | cons l ls ih =>
    rcases List.mem_cons.1 member with rfl | member
    · exact ⟨[], ls, rfl, rfl⟩
    · obtain ⟨earlier, later, rfl, place⟩ := ih member
      refine ⟨l :: earlier, later, rfl, ?_⟩
      rw [place, List.flatMap_cons, byteLength_append, Nat.add_assoc]

theorem bounds_of_mem_placed (member : p ∈ placed offset ls) :
    offset ≤ p.1 ∧ p.1 + byteLength p.2.chars ≤ offset + byteLength (ls.flatMap chars) := by
  obtain ⟨earlier, later, rfl, place⟩ := exists_of_mem_placed member
  rw [List.flatMap_append, List.flatMap_cons, byteLength_append, byteLength_append]
  omega

theorem pairwise_placed (cut : Cut ls) (offset : Nat) :
    (placed offset ls).Pairwise fun p q => p.1 < q.1 := by
  induction ls generalizing offset with
  | nil => exact .nil
  | cons l ls ih =>
    refine .cons (fun q member => ?_) (ih cut.2 _)
    have length := byteLength_pos cut.1.chars_ne_nil
    have le := (bounds_of_mem_placed member).1
    exact Nat.lt_of_lt_of_le (Nat.lt_add_of_pos_right length) le

/-- Every character of a text is in one of its pieces. -/
theorem exists_piece {before after : List Char} {c : Char}
    (split : ls.flatMap chars = before ++ c :: after) :
    ∃ earlier l later inside left, ls = earlier ++ l :: later ∧ l.chars = inside ++ c :: left ∧
      before = earlier.flatMap chars ++ inside := by
  induction ls generalizing before with
  | nil => simp at split
  | cons l ls ih =>
    have later (inside : List Char) (rest : ls.flatMap chars = inside ++ c :: after) :
        ∃ earlier m later inside' left, l :: ls = earlier ++ m :: later ∧
          m.chars = inside' ++ c :: left ∧
          l.chars ++ inside = earlier.flatMap chars ++ inside' := by
      obtain ⟨earlier, m, later, inside', left, rfl, piece, rfl⟩ := ih rest
      refine ⟨l :: earlier, m, later, inside', left, rfl, piece, ?_⟩
      rw [List.flatMap_cons, List.append_assoc]
    rw [List.flatMap_cons] at split
    rcases List.append_eq_append_iff.1 split with ⟨inside, rfl, rest⟩ | ⟨left, piece, rest⟩
    · exact later inside rest
    rcases List.cons_eq_append_iff.1 rest with ⟨rfl, rest⟩ | ⟨left, rfl, -⟩
    · rw [List.append_nil] at piece
      obtain rfl := piece
      simpa using later [] rest.symm
    · exact ⟨[], l, ls, before, left, rfl, piece, rfl⟩

end Places

section Texts

variable {text : String} {p : Nat × Lexeme} {t : Token}

/-- Where a piece of a text is, and what follows it. -/
theorem exists_apt_of_mem_placed (member : p ∈ placed 0 (lexemes text.toList)) :
    ∃ before after, text.toList = before ++ p.2.chars ++ after ∧ byteLength before = p.1 ∧
      Apt p.2 after := by
  obtain ⟨earlier, later, split, place⟩ := exists_of_mem_placed member
  obtain ⟨cut, whole⟩ := lexemes_eq_iff.1 split
  refine ⟨earlier.flatMap chars, later.flatMap chars, ?_, ?_, cut.append_right.1⟩
  · rw [← whole, List.flatMap_append, List.flatMap_cons, List.append_assoc]
  · rw [place, Nat.zero_add]

/-- A token is written with the characters of its piece. -/
theorem source_eq (member : p ∈ placed 0 (lexemes text.toList)) (token : tokenAt? p = some t) :
    t.source text = p.2.chars := by
  obtain ⟨before, after, split, place, apt⟩ := exists_apt_of_mem_placed member
  obtain ⟨known, offset⟩ := tokenAt?_eq_some_iff.1 token
  rw [Token.source, split, ← offset, ← place, List.append_assoc, charsFrom_byteLength,
    apt.extent_eq known]

/-- Where only one member can count, the count is decided by it. -/
theorem countP_filterMap_eq {α β : Type} {f : α → Option β} {q : β → Bool} {xs zs : List α} (y : α)
    (none : ∀ x ∈ xs ++ zs, ∀ b, f x = some b → q b = false) :
    ((xs ++ y :: zs).filterMap f).countP q = if (f y).any q then 1 else 0 := by
  have zero {ws : List α} (part : ∀ x ∈ ws, x ∈ xs ++ zs) : (ws.filterMap f).countP q = 0 := by
    refine List.countP_eq_zero.2 fun b member => ?_
    obtain ⟨x, member, value⟩ := List.mem_filterMap.1 member
    rw [none x (part x member) b value]
    exact Bool.false_ne_true
  rw [List.filterMap_append, List.countP_append, zero fun x => List.mem_append_left zs, Nat.zero_add,
    List.filterMap_cons]
  cases f y with
  | none => exact zero fun x => List.mem_append_right xs
  | some b =>
    dsimp only
    rw [List.countP_cons, zero fun x => List.mem_append_right xs, Nat.zero_add]
    rfl

theorem covers_eq (member : p ∈ placed 0 (lexemes text.toList)) (token : tokenAt? p = some t)
    (offset : Nat) :
    t.covers text offset = (p.1 ≤ offset && offset < p.1 + byteLength p.2.chars) := by
  rw [Token.covers, source_eq member token, (tokenAt?_eq_some_iff.1 token).2]

/-- A token is written with every character of its piece. -/
theorem any_covers (member : p ∈ placed 0 (lexemes text.toList)) {offset : Nat}
    (low : p.1 ≤ offset) (high : offset < p.1 + byteLength p.2.chars) :
    (tokenAt? p).any (Token.covers text offset) = p.2.token?.isSome := by
  cases known : p.2.token? with
  | none => simp [tokenAt?, known]
  | some k =>
    have token : tokenAt? p = some ⟨k, p.1⟩ := tokenAt?_eq_some_iff.2 ⟨known, rfl⟩
    rw [token, Option.any_some, covers_eq member token]
    simp [low, high]

/-- Where the piece with a character is; all others end before that piece or start after it. -/
theorem exists_place {before after : List Char} {c : Char}
    (split : text.toList = before ++ c :: after) :
    ∃ ps p qs inside left rest, placed 0 (lexemes text.toList) = ps ++ p :: qs ∧ Apt p.2 rest ∧
      p.2.chars = inside ++ c :: left ∧ byteLength before = p.1 + byteLength inside ∧
      ∀ q ∈ ps ++ qs, q.1 + byteLength q.2.chars ≤ p.1 ∨ p.1 + byteLength p.2.chars ≤ q.1 := by
  obtain ⟨earlier, l, later, inside, left, pieces, piece, rfl⟩ :=
    exists_piece ((flatMap_chars_lexemes text.toList).trans split)
  obtain ⟨cut, -⟩ := lexemes_eq_iff.1 pieces
  have places := placed_append 0 earlier (l :: later)
  rw [← pieces, placed] at places
  refine ⟨_, _, _, inside, left, _, places, cut.append_right.1, piece, ?_, fun q member => ?_⟩
  · rw [byteLength_append, Nat.zero_add]
  · rcases List.mem_append.1 member with member | member
    · exact .inl (bounds_of_mem_placed member).2
    · exact .inr (bounds_of_mem_placed member).1

/-- A character of a piece is blank, or the piece is a token, or the piece is skipped. -/
theorem Lexeme.Apt.once {l : Lexeme} {rest inside left : List Char} {c : Char} (apt : Apt l rest)
    (piece : l.chars = inside ++ c :: left) (offset : Nat) :
    (if isBlank c then 1 else 0) + (if l.token?.isSome then 1 else 0) +
      (if (skippedAt? (offset, l)).any (·.offset == offset + byteLength inside) then 1 else 0) = 1 := by
  have alone {d : Char} (piece : [d] = inside ++ c :: left) : d = c ∧ inside = [] := by
    rcases List.singleton_eq_append_iff.1 piece with ⟨empty, last⟩ | ⟨-, last⟩
    · exact ⟨(List.cons.inj last).1.symm, empty⟩
    · cases last
  cases known : l.token? with
  | some k =>
    have visible : isBlank c = false := apt.isBlank_eq_false known (by simp [piece])
    have noStray : skippedAt? (offset, l) = none := by
      cases l with
      | stray c => cases known
      | _ => rfl
    simp [visible, noStray]
  | none =>
    cases apt with
    | blank space =>
      obtain ⟨rfl, rfl⟩ := alone piece
      simp [space, skippedAt?]
    | stray visible noName noDigit unknown lone =>
      obtain ⟨rfl, rfl⟩ := alone piece
      simp [visible, skippedAt?, byteLength]
    | _ => cases known

theorem once_tokenize {before after : List Char} {c : Char}
    (split : text.toList = before ++ c :: after) :
    (if isBlank c then 1 else 0) +
      (tokenize text).tokens.countP (Token.covers text (byteLength before)) +
      (tokenize text).skipped.countP (·.offset == byteLength before) = 1 := by
  obtain ⟨ps, p, qs, inside, left, rest, places, apt, piece, place, others⟩ := exists_place split
  have length : byteLength inside < byteLength p.2.chars := by
    rw [piece, byteLength_append]
    exact Nat.lt_add_of_pos_right (byteLength_pos (List.cons_ne_nil c left))
  have present : ∀ q ∈ ps ++ qs, q ∈ placed 0 (lexemes text.toList) := by
    intro q member
    rw [places]
    exact (List.mem_append.1 member).elim (List.mem_append_left _)
      fun later => List.mem_append_right _ (List.mem_cons_of_mem p later)
  have here : p ∈ placed 0 (lexemes text.toList) := by
    rw [places]
    exact List.mem_append_right _ List.mem_cons_self
  have tokens : (tokenize text).tokens.countP (Token.covers text (byteLength before)) =
      if p.2.token?.isSome then 1 else 0 := by
    have low : p.1 ≤ byteLength before := by omega
    have high : byteLength before < p.1 + byteLength p.2.chars := by omega
    rw [tokens_tokenize, places, countP_filterMap_eq, any_covers here low high]
    intro q member t token
    rw [covers_eq (present q member) token, place, Bool.and_eq_false_iff, decide_eq_false_iff_not,
      decide_eq_false_iff_not]
    have apart := others q member
    omega
  have skipped : (tokenize text).skipped.countP (·.offset == byteLength before) =
      if (skippedAt? p).any (·.offset == p.1 + byteLength inside) then 1 else 0 := by
    rw [skipped_tokenize, places, countP_filterMap_eq, place]
    intro q member s stray
    obtain rfl := skippedAt?_eq_some_iff.1 stray
    have apart := others _ member
    have length : 0 < byteLength (Lexeme.stray s.char).chars :=
      byteLength_pos (List.cons_ne_nil _ _)
    dsimp only at apart
    rw [place, beq_eq_false_iff_ne]
    omega
  rw [tokens, skipped]
  exact apt.once piece p.1

/-- What is read off the pieces one after the other has ascending offsets, as the pieces have. -/
theorem pairwise_offsets {α : Type} {f : Nat × Lexeme → Option α} {g : α → Nat}
    (offset_eq : ∀ p a, f p = some a → p.1 = g a) :
    (((placed 0 (lexemes text.toList)).filterMap f).map g).Pairwise (· < ·) := by
  rw [List.pairwise_map]
  refine (pairwise_placed (cut_lexemes text.toList) 0).filterMap f fun p q lt a first b second => ?_
  rwa [← offset_eq p a first, ← offset_eq q b second]

theorem exists_of_mem_tokens (member : t ∈ (tokenize text).tokens) :
    ∃ before after, text.toList = before ++ t.source text ++ after ∧ byteLength before = t.offset ∧
      t.kind.WrittenAs (t.source text) after := by
  rw [tokens_tokenize] at member
  obtain ⟨p, member, token⟩ := List.mem_filterMap.1 member
  obtain ⟨before, after, split, place, apt⟩ := exists_apt_of_mem_placed member
  obtain ⟨known, offset⟩ := tokenAt?_eq_some_iff.1 token
  rw [source_eq member token]
  exact ⟨before, after, split, place.trans offset, apt.writtenAs known⟩

theorem exists_of_mem_skipped {s : Skipped} (member : s ∈ (tokenize text).skipped) :
    ∃ before after, text.toList = before ++ s.char :: after ∧ byteLength before = s.offset ∧
      IsStray s.char after := by
  rw [skipped_tokenize] at member
  obtain ⟨p, member, stray⟩ := List.mem_filterMap.1 member
  obtain ⟨before, after, split, place, apt⟩ := exists_apt_of_mem_placed member
  obtain rfl := skippedAt?_eq_some_iff.1 stray
  refine ⟨before, after, split.trans (List.append_assoc before [s.char] after), place, ?_⟩
  cases apt with
  | stray visible noName noDigit unknown lone => exact ⟨visible, noName, noDigit, unknown, lone⟩

theorem partitions_tokenize (text : String) : Partitions text (tokenize text) where
  once _ _ _ := once_tokenize
  ascending := by
    rw [tokens_tokenize]
    exact pairwise_offsets fun p t token => (tokenAt?_eq_some_iff.1 token).2
  skippedAscending := by
    rw [skipped_tokenize]
    exact pairwise_offsets fun p s stray => congrArg Prod.fst (skippedAt?_eq_some_iff.1 stray)
  boundaries offset member := by
    rcases List.mem_append.1 member with member | member
    · obtain ⟨t, present, rfl⟩ := List.mem_map.1 member
      obtain ⟨before, after, split, place, -⟩ := exists_of_mem_tokens present
      rw [← place]
      exact isValid_byteLength (split.trans (List.append_assoc _ _ _))
    · obtain ⟨s, present, rfl⟩ := List.mem_map.1 member
      obtain ⟨before, after, split, place, -⟩ := exists_of_mem_skipped present
      rw [← place]
      exact isValid_byteLength split
  written _ := exists_of_mem_tokens
  stray _ := exists_of_mem_skipped

end Texts

end DomainColoring
