import DomainColoring.Proofs.Expr.Printed
import DomainColoring.Proofs.Success

/-!
# Compiling a printed formula

The constants of a formula that compiles are the imaginary unit and what literals are read as
(`legible_of_compile`), so if they are finite the formula can be printed and compiled again. Whether
that gives the formula back is decided by the powers of negations in it, which `(-z)^2` is the
simplest of.
-/

namespace DomainColoring

/-- The imaginary unit, or what some literal is read as. -/
def Legible (c : Complex Float) : Prop := c = .unit ∨ ∃ d : Decimal, c = .real d.toFloat

/-- The constants that the tree of a phrase is given. -/
def Phrase.given : Phrase → List (Complex Float)
  | more _ left => left.constants
  | _ => []

theorem Layer.given_operand (layer : Layer) : layer.operand.given = [] := by
  cases layer <;> rfl

theorem legible_pi : Legible (.real Elementary.pi) := .inr ⟨⟨3141592653589793, -15⟩, rfl⟩

theorem legible_euler : Legible (.real TokenReader.eulerNumber) :=
  .inr ⟨⟨2718281828459045, -15⟩, rfl⟩

/-- Whether all numbers among some tokens are what literals are read as. -/
def Literals (ks : List TokenKind) : Prop := ∀ v, .number v ∈ ks → ∃ d : Decimal, v = d.toFloat

theorem Literals.mono {ks ls : List TokenKind} (h : Literals ls) (part : ks ⊆ ls) : Literals ks :=
  fun v member => h v (part member)

/-- The tree of a phrase whose numbers are those of literals is legible. -/
theorem Derives.legible {p : Phrase} {ks : List TokenKind} {e : Expr} {n : Nat}
    (h : Derives p ks e n) (numbers : Literals ks) (given : ∀ c ∈ p.given, Legible c) :
    ∀ c ∈ e.constants, Legible c := by
  have nothing : ∀ c ∈ ([] : List (Complex Float)), Legible c := fun _ h => by cases h
  have noneGiven (layer : Layer) : ∀ c ∈ layer.operand.given, Legible c := by
    rw [layer.given_operand]
    exact nothing
  have single {c : Complex Float} (legible : Legible c) : ∀ d ∈ [c], Legible d := by
    intro d member
    rwa [List.mem_singleton.1 member]
  induction h with
  | @joined layer ks ls _ _ _ _ _ _ first rest =>
    have left := first (numbers.mono (List.subset_append_left ks ls)) (noneGiven layer)
    exact rest (numbers.mono (List.subset_append_right ks ls)) left
  | done => exact given
  | @more layer op ks ls _ _ _ _ _ _ _ _ operand rest =>
    have numbers := numbers.mono (List.subset_cons_self op.token (ks ++ ls))
    have right := operand (numbers.mono (List.subset_append_left ks ls)) (noneGiven layer)
    refine rest (numbers.mono (List.subset_append_right ks ls)) fun c member => ?_
    exact (List.mem_append.1 member).elim (given c) (right c)
  | negation _ operand => exact operand (numbers.mono (List.subset_cons_self _ _)) nothing
  | unary _ factor => exact factor numbers nothing
  | @power ks ls _ _ _ _ _ _ base exponent =>
    have left := base (numbers.mono (List.subset_append_left ks _)) nothing
    have power := numbers.mono (List.subset_append_right ks (.caret :: ls))
    have right := exponent (power.mono (List.subset_cons_self _ _)) nothing
    exact fun c member => (List.mem_append.1 member).elim (left c) (right c)
  | factor _ base => exact base numbers nothing
  | number value =>
    obtain ⟨d, read⟩ := numbers value List.mem_cons_self
    exact single (.inr ⟨d, by rw [read]⟩)
  | var => exact nothing
  | unit => exact single (.inl rfl)
  | pi => exact single legible_pi
  | euler => exact single legible_euler
  | call _ _ argument =>
    have enclosed := (numbers.mono (List.subset_cons_self _ _)).mono (List.subset_cons_self _ _)
    exact argument (enclosed.mono (List.subset_append_left _ _)) nothing
  | paren _ inner =>
    have enclosed := numbers.mono (List.subset_cons_self _ _)
    exact inner (enclosed.mono (List.subset_append_left _ _)) nothing

section Tokens

/-- An operator or a parenthesis is what its character stands for. -/
theorem ofChar?_of_mark {cs : List Char} {c : Char} {k : TokenKind}
    (h : Lexeme.mark c k ∈ lexemes cs) : TokenKind.ofChar? c = some k := by
  obtain ⟨rest, apt⟩ := (cut_lexemes cs).exists_apt h
  cases apt with
  | mark known => exact known

/-- The numbers of a text are those of its literals. -/
theorem literals_tokenize (text : String) : Literals ((tokenize text).tokens.map Token.kind) := by
  intro v h
  rw [tokenize, TokenStream.ofChars, kinds_ofLexemes] at h
  obtain ⟨l, member, token⟩ := List.mem_filterMap.1 h
  cases l with
  | literal whole point fraction =>
    cases token
    exact ⟨_, rfl⟩
  | mark c k =>
    cases token
    have known := ofChar?_of_mark member
    unfold TokenKind.ofChar? at known
    split at known <;> cases known
  | _ => cases token

theorem tokenize_of_tokenizeWith {mode : Strictness} {text : String} {stream : TokenStream}
    (h : tokenizeWith mode text = .ok stream) : stream = tokenize text := by
  unfold tokenizeWith at h
  dsimp only at h
  split at h
  · cases h
  · exact (Except.ok.inj h).symm

end Tokens

/-- A formula that compiles has no other constants. -/
theorem legible_of_compile {options : CompileOptions} {text : String} {e : Expr}
    (h : compile options text = .ok e) : ∀ c ∈ e.constants, Legible c := by
  obtain ⟨stream, tokenized, read⟩ := exists_of_bind_ok h
  obtain ⟨n, derives, -⟩ := Expr.derives_of_ofTokens read
  rw [tokenize_of_tokenizeWith tokenized] at derives
  exact derives.legible (literals_tokenize text) fun c member => by cases member

theorem spellable_of_compile {options : CompileOptions} {text : String} {e : Expr}
    (h : compile options text = .ok e) (finite : ∀ c ∈ e.constants, c.isFinite = true) :
    e.Spellable := by
  intro c member
  rcases legible_of_compile h c member with unit | ⟨d, rfl⟩
  · exact .inl unit
  · have real : d.toFloat.isFinite = true := (Bool.and_eq_true_iff.1 (finite _ member)).1
    exact .inr ⟨_, Binary64.unsigned_toFloat real, rfl⟩

/-- The text of a formula that compiled with finite constants compiles under any limit that is high
enough, to the formula with powers of negations read as negations of powers. So it gives the formula
back exactly if the formula has no power of a negation. -/
theorem compile_text_eq_self_iff {options : CompileOptions} {text : String} {e : Expr}
    (h : compile options text = .ok e) (finite : ∀ c ∈ e.constants, c.isFinite = true) :
    (∃ least, ∀ limit ≥ least, compile ⟨options.mode, limit⟩ e.text = .ok e.reread) ∧
      ((∃ least, ∀ limit ≥ least, compile ⟨options.mode, limit⟩ e.text = .ok e) ↔
        e.raisesNegation = false) := by
  have spellable := spellable_of_compile h finite
  have again : ∀ limit ≥ e.nesting + 1, compile ⟨options.mode, limit⟩ e.text = .ok e.reread := by
    intro limit enough
    rw [e.compile_text spellable, if_pos enough]
  refine ⟨⟨e.nesting + 1, again⟩, ?_⟩
  constructor
  · rintro ⟨least, same⟩
    have enough := again (max least (e.nesting + 1)) (le_max_right _ _)
    rw [same _ (le_max_left _ _)] at enough
    exact e.reread_eq_self_iff.1 (Except.ok.inj enough).symm
  · intro none
    refine ⟨e.nesting + 1, fun limit enough => ?_⟩
    rw [again limit enough, e.reread_eq_self_iff.2 none]

/-- The formula `-z^2`. -/
def negatedSquare : Expr := .unary .neg (.binary .pow .var (.constant (.real 2)))

/-- The formula `(-z)^2`. -/
def squaredNegation : Expr := .binary .pow (.unary .neg .var) (.constant (.real 2))

theorem compile_negatedSquare : compile .standard "-z^2" = .ok negatedSquare := by
  have tokens : tokenize "-z^2" =
      ⟨[⟨.minus, 0⟩, ⟨.ident "z", 1⟩, ⟨.caret, 2⟩, ⟨.number 2, 3⟩], []⟩ := by decide +kernel
  simp only [compile, CompileOptions.standard, tokenizeWith, tokens, bind, Except.bind]
  rfl

theorem compile_squaredNegation : compile .standard "(-z)^2" = .ok squaredNegation := by
  have tokens : tokenize "(-z)^2" = ⟨[⟨.openParen, 0⟩, ⟨.minus, 1⟩, ⟨.ident "z", 2⟩,
      ⟨.closeParen, 3⟩, ⟨.caret, 4⟩, ⟨.number 2, 5⟩], []⟩ := by decide +kernel
  simp only [compile, CompileOptions.standard, tokenizeWith, tokens, bind, Except.bind]
  rfl

theorem compile_text_negatedSquare :
    compile .standard "-z^2" = .ok negatedSquare ∧
      (∀ c ∈ negatedSquare.constants, c.isFinite = true) ∧
      ∃ least, ∀ limit ≥ least,
        compile ⟨.lenient, limit⟩ negatedSquare.text = .ok negatedSquare := by
  have finite : ∀ c ∈ negatedSquare.constants, c.isFinite = true := by decide +kernel
  have exact_iff := (compile_text_eq_self_iff compile_negatedSquare finite).2
  exact ⟨compile_negatedSquare, finite, exact_iff.2 rfl⟩

/-- The text of `(-z)^2` compiles under no limit to what it is the text of, but to `-z^2`, which has
another value at 1. -/
theorem compile_text_squaredNegation :
    compile .standard "(-z)^2" = .ok squaredNegation ∧
      (∀ c ∈ squaredNegation.constants, c.isFinite = true) ∧
      squaredNegation.text = "(-(z) ^ 2)" ∧
      (∀ limit, compile ⟨.lenient, limit⟩ squaredNegation.text ≠ .ok squaredNegation) ∧
      compile .standard squaredNegation.text = .ok negatedSquare ∧
      squaredNegation.eval .one ≠ negatedSquare.eval .one := by
  have finite : ∀ c ∈ squaredNegation.constants, c.isFinite = true := by decide +kernel
  have spellable := spellable_of_compile compile_squaredNegation finite
  have again := squaredNegation.compile_text spellable .lenient
  refine ⟨compile_squaredNegation, finite, by decide +kernel, ?_, again 64, by decide +kernel⟩
  intro limit same
  rw [again limit] at same
  split at same
  · cases same
  · cases same

end DomainColoring
