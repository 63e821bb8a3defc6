import DomainColoring.Expr.Compile
import DomainColoring.Proofs.Decimal.Literal
import DomainColoring.Proofs.Token.Pieces

/-!
# Cutting text that is known

How text that is put together from operators, parentheses, blanks, names and literals is cut into
pieces again. An operator or a blank is a piece whatever follows it; a name or a literal only before
a character that it cannot go on with (`Breaks`), so what is known of a text is known of it before
such characters (`Lexed`).
-/

namespace DomainColoring

open Character Lexeme

/-- Neither a name nor a literal goes on with the first of the characters. -/
def Breaks (cs : List Char) : Prop := ∀ c ∈ cs.head?, continuesWord c = false ∧ c ≠ '.'

section Characters

variable {c : Char} {k : TokenKind}

theorem Breaks.append {ds rest : List Char} (h : Breaks ds) (after : Breaks rest) :
    Breaks (ds ++ rest) := by
  cases ds with
  | nil => exact after
  | cons d ds => exact h

theorem breaks_blank (cs : List Char) : Breaks (' ' :: cs) := by
  intro c first
  cases first
  decide

theorem breaks_of_ofChar? (h : TokenKind.ofChar? c = some k) (cs : List Char) :
    Breaks (c :: cs) := by
  obtain ⟨-, -, noName, -, noPoint⟩ := classes_of_ofChar? h
  intro d first
  cases first
  exact ⟨noName, noPoint⟩

end Characters

/-- Whether characters are a name. -/
def isName : List Char → Bool
  | [] => false
  | c :: cs => !isBlank c && startsWord c && cs.all continuesWord

section Pieces

variable {cs ds rest : List Char}

theorem lexemes_mark {c : Char} {k : TokenKind} (h : TokenKind.ofChar? c = some k)
    (cs : List Char) : lexemes (c :: cs) = mark c k :: lexemes cs :=
  lexemes_append (.mark h)

theorem lexemes_blank (cs : List Char) : lexemes (' ' :: cs) = blank ' ' :: lexemes cs :=
  lexemes_append (.blank rfl)

/-- A name before a break is one piece. -/
theorem lexemes_word (name : isName cs = true) (ends : Breaks rest) :
    lexemes (cs ++ rest) = word cs :: lexemes rest := by
  cases cs with
  | nil => cases name
  | cons c cs =>
    simp only [isName, Bool.and_eq_true, Bool.not_eq_true', List.all_eq_true] at name
    obtain ⟨⟨visible, starts⟩, more⟩ := name
    exact lexemes_append (.word visible starts more fun d first => (ends d first).1)

/-- A literal before a break is one piece. -/
theorem lexemes_literal {d : Decimal} {whole : List Char} {point : Bool} {fraction : List Char}
    (spelled : Decimal.Spelled d whole point fraction) (ends : Breaks rest) :
    lexemes ((literal whole point fraction).chars ++ rest) =
      literal whole point fraction :: lexemes rest := by
  have stops : ∀ d ∈ rest.head?, d.isDigit = false := fun d first =>
    isDigit_of_continuesWord (ends d first).1
  cases point with
  | true =>
    exact lexemes_append (.fraction (.inl spelled.nonempty) spelled.digits spelled.places stops)
  | false =>
    obtain rfl := spelled.pointless rfl
    exact lexemes_append
      (.whole spelled.nonempty spelled.digits fun d first => ⟨stops d first, (ends d first).2⟩)

end Pieces

/-- Before a break, the characters are cut into pieces that are the tokens `ks`; none is stray. -/
def Lexed (cs : List Char) (ks : List TokenKind) : Prop :=
  ∃ ls, (∀ rest, Breaks rest → lexemes (cs ++ rest) = ls ++ lexemes rest) ∧
    ls.filterMap token? = ks ∧ ∀ c, stray c ∉ ls

namespace Lexed

variable {cs ds : List Char} {ks ls : List TokenKind}

theorem nil : Lexed [] [] := ⟨[], fun _ _ => rfl, rfl, fun _ h => by cases h⟩

theorem mark {c : Char} {k : TokenKind} (h : TokenKind.ofChar? c = some k) (rest : Lexed cs ks) :
    Lexed (c :: cs) (k :: ks) := by
  obtain ⟨ps, cut, rfl, noStray⟩ := rest
  refine ⟨.mark c k :: ps, fun rest ends => ?_, rfl, ?_⟩
  · rw [List.cons_append, lexemes_mark h, cut rest ends]
    rfl
  · simpa using noStray

theorem blank (rest : Lexed cs ks) : Lexed (' ' :: cs) ks := by
  obtain ⟨ps, cut, rfl, noStray⟩ := rest
  refine ⟨.blank ' ' :: ps, fun rest ends => ?_, rfl, ?_⟩
  · rw [List.cons_append, lexemes_blank, cut rest ends]
    rfl
  · simpa using noStray

/-- Two texts one after the other, of which the second starts with a break. -/
theorem append (first : Lexed cs ks) (second : Lexed ds ls) (ends : Breaks ds) :
    Lexed (cs ++ ds) (ks ++ ls) := by
  obtain ⟨ps, cut, rfl, noStray⟩ := first
  obtain ⟨qs, cut', rfl, noStray'⟩ := second
  refine ⟨ps ++ qs, fun rest after => ?_, List.filterMap_append, fun c h => ?_⟩
  · rw [List.append_assoc, cut _ (ends.append after), cut' rest after, List.append_assoc]
  · rcases List.mem_append.1 h with h | h
    · exact noStray c h
    · exact noStray' c h

theorem word (name : isName cs = true) : Lexed cs [.ident (String.ofList cs)] :=
  ⟨[.word cs], fun _ ends => lexemes_word name ends, rfl, by simp⟩

theorem literal {d : Decimal} {whole : List Char} {point : Bool} {fraction : List Char}
    (spelled : Decimal.Spelled d whole point fraction) :
    Lexed (Lexeme.literal whole point fraction).chars [.number d.toFloat] :=
  ⟨[.literal whole point fraction], fun _ ends => lexemes_literal spelled ends,
    by rw [← spelled.value]; rfl, by simp⟩

end Lexed

/-- The tokens of pieces are those that the pieces are, in order. -/
theorem kinds_ofLexemes (offset : Nat) (ls : List Lexeme) :
    (TokenStream.ofLexemes offset ls).tokens.map Token.kind = ls.filterMap token? := by
  induction ls generalizing offset with
  | nil => rfl
  | cons l ls ih =>
    specialize ih (offset + byteLength l.chars)
    cases l <;> simp [TokenStream.ofLexemes, List.filterMap_cons, token?, TokenStream.token,
      TokenStream.skip, ih]

theorem skipped_ofLexemes {ls : List Lexeme} (h : ∀ c, stray c ∉ ls) (offset : Nat) :
    (TokenStream.ofLexemes offset ls).skipped = [] := by
  induction ls generalizing offset with
  | nil => rfl
  | cons l ls ih =>
    specialize ih (fun c later => h c (List.mem_cons_of_mem l later)) (offset + byteLength l.chars)
    cases l with
    | stray c => exact absurd List.mem_cons_self (h c)
    | _ => simp [TokenStream.ofLexemes, token?, TokenStream.token, ih]

/-- A text without stray characters has its tokens in either mode. -/
theorem Lexed.tokenizeWith {cs : List Char} {ks : List TokenKind} (h : Lexed cs ks)
    (mode : Strictness) :
    ∃ ts, tokenizeWith mode (String.ofList cs) = .ok ⟨ts, []⟩ ∧ ts.map Token.kind = ks := by
  obtain ⟨ls, cut, rfl, noStray⟩ := h
  have pieces : lexemes cs = ls := by
    have whole := cut [] fun _ first => by cases first
    rwa [List.append_nil, lexemes, List.append_nil] at whole
  have tokens := kinds_ofLexemes 0 ls
  have skipped := skipped_ofLexemes noStray 0
  refine ⟨_, ?_, tokens⟩
  have stream : tokenize (String.ofList cs) = ⟨(TokenStream.ofLexemes 0 ls).tokens, []⟩ := by
    rw [tokenize, String.toList_ofList, TokenStream.ofChars, pieces, ← skipped]
  simp only [DomainColoring.tokenizeWith, stream]

end DomainColoring
