import DomainColoring.Expr.Printer
import DomainColoring.Proofs.Decimal.Unsigned
import DomainColoring.Proofs.Grammar.Completeness
import DomainColoring.Proofs.Token.Cutting

/-!
# What printed expressions are read as

The text of an expression is cut into the tokens it was made from (`lexed_chars`), and those are a
sentence (`derives_symbols`) — but not always for the same expression. Everything is written in
parentheses of its own except a negation, whose minus sign stands outside of its parentheses; as the
left operand of a power it is read as the negation of the power (`reread`).
-/

namespace DomainColoring

namespace Expr

/-- The constants of an expression from left to right. -/
def constants : Expr → List (Complex Float)
  | constant value => [value]
  | var => []
  | unary _ operand => operand.constants
  | binary _ left right => left.constants ++ right.constants

/-- Constants that the text of a formula can spell: the imaginary unit and the finite real numbers
without a minus sign. -/
def Spellable (e : Expr) : Prop :=
  ∀ c ∈ e.constants, c = .unit ∨ ∃ v, Binary64.Unsigned v ∧ c = .real v

/-- The tokens that an expression is written as. -/
def symbols : Expr → List TokenKind
  | constant value => if value.im == 0 then [.number value.re] else [.ident "i"]
  | var => [.ident "z"]
  | unary .neg operand => .minus :: .openParen :: (operand.symbols ++ [.closeParen])
  | unary func operand => .ident func.name :: .openParen :: (operand.symbols ++ [.closeParen])
  | binary op left right =>
    .openParen :: (left.symbols ++ op.token :: (right.symbols ++ [.closeParen]))

/-- The expression that the text of an expression stands for. -/
def reread : Expr → Expr
  | constant value => constant value
  | var => var
  | unary func operand => unary func operand.reread
  | binary .pow (unary .neg base) exponent => unary .neg (binary .pow base.reread exponent.reread)
  | binary op left right => binary op left.reread right.reread

/-- How deeply the text of an expression nests. -/
def nesting : Expr → Nat
  | constant _ => 0
  | var => 0
  | unary func operand => operand.nesting + if func = .neg then 2 else 1
  | binary .pow (unary .neg base) exponent => max (base.nesting + 1) (exponent.nesting + 1) + 2
  | binary op left right =>
    max left.nesting (right.nesting + if op = .pow then 1 else 0) + 1

/-- Whether some power has a negation as its left operand. -/
def raisesNegation : Expr → Bool
  | constant _ => false
  | var => false
  | unary _ operand => operand.raisesNegation
  | binary .pow (unary .neg _) _ => true
  | binary _ left right => left.raisesNegation || right.raisesNegation

/-- Exactly an expression without powers of negations is read as itself. -/
theorem reread_eq_self_iff (e : Expr) : e.reread = e ↔ e.raisesNegation = false := by
  fun_induction reread e with
  | case1 value => simp [raisesNegation]
  | case2 => simp [raisesNegation]
  | case3 func operand ih => simp [raisesNegation, ih]
  | case4 base exponent _ _ => simp [raisesNegation]
  | case5 op left right other ihl ihr =>
    have here : (binary op left right).raisesNegation =
        (left.raisesNegation || right.raisesNegation) := by
      rw [raisesNegation]
      exact other
    rw [here]
    simp [ihl, ihr]

theorem height_reread_le (e : Expr) : e.reread.height ≤ e.nesting := by
  fun_induction reread e with
  | case1 value => exact Nat.le_refl 0
  | case2 => exact Nat.le_refl 0
  | case3 func operand ih =>
    simp only [height, nesting]
    split <;> omega
  | case4 base exponent ihb ihe =>
    simp only [height, nesting]
    omega
  | case5 op left right other ihl ihr =>
    have here : (binary op left right).nesting =
        max left.nesting (right.nesting + if op = .pow then 1 else 0) + 1 := by
      rw [nesting]
      exact other
    rw [here, height]
    omega

section Spellable

variable {func : UnaryFunc} {op : BinaryOp} {e l r : Expr}

theorem Spellable.operand (h : (unary func e).Spellable) : e.Spellable := h

theorem Spellable.left (h : (binary op l r).Spellable) : l.Spellable :=
  fun c member => h c (List.mem_append_left _ member)

theorem Spellable.right (h : (binary op l r).Spellable) : r.Spellable :=
  fun c member => h c (List.mem_append_right _ member)

theorem Spellable.constant {value : Complex Float} (h : (constant value).Spellable) :
    value = .unit ∨ ∃ v, Binary64.Unsigned v ∧ value = .real v :=
  h value List.mem_cons_self

end Spellable

/-- A real number has the imaginary part zero. -/
theorem im_real (v : Float) : ((Complex.real v).im == 0) = true := by
  have zero : ((Scalar.ofNat 0 : Float) == 0) = true := by decide +kernel
  exact zero

theorem im_unit : ((Complex.unit : Complex Float).im == 0) = false := by decide +kernel

theorem symbols_real (v : Float) : (constant (.real v)).symbols = [.number v] := by
  rw [symbols, if_pos (im_real v)]
  rfl

theorem symbols_unit : (constant .unit).symbols = [.ident "i"] := by
  rw [symbols, im_unit]
  rfl

section Text

theorem isName_name {func : UnaryFunc} (named : func ∈ UnaryFunc.named) :
    isName func.name.toList = true := by
  have all : ∀ func ∈ UnaryFunc.named, isName func.name.toList = true := by decide +kernel
  exact all func named

theorem named_of_ne_neg {func : UnaryFunc} (other : func ≠ .neg) : func ∈ UnaryFunc.named := by
  cases func with
  | neg => exact absurd rfl other
  | _ => decide

theorem lexed_name {name : String} (h : isName name.toList = true) :
    Lexed name.toList [.ident name] := by
  have word := Lexed.word h
  rwa [String.ofList_toList] at word

theorem lexed_real {v : Float} (h : Binary64.Unsigned v) :
    Lexed (constantChars (.real v)) [.number v] := by
  obtain ⟨whole, point, fraction, text, d, spelled, read⟩ := spelled_render h
  have lexed := Lexed.literal spelled
  rw [constantChars, if_pos (im_real v)]
  change Lexed (NumberText.plain.render v) _
  rwa [text, ← read]

theorem lexed_unit : Lexed (constantChars .unit) [.ident "i"] := by
  have chars : constantChars .unit = "i".toList := by decide +kernel
  rw [chars]
  exact lexed_name (by decide +kernel)

/-- What stands in parentheses is cut on its own. -/
theorem lexed_enclosed {cs : List Char} {ks : List TokenKind} (h : Lexed cs ks) :
    Lexed ('(' :: (cs ++ [')'])) (.openParen :: (ks ++ [.closeParen])) := by
  have opens : TokenKind.ofChar? '(' = some .openParen := rfl
  have closes : TokenKind.ofChar? ')' = some .closeParen := rfl
  exact .mark opens (h.append (.mark closes .nil) (breaks_of_ofChar? closes []))

theorem ofChar?_symbol (op : BinaryOp) : TokenKind.ofChar? op.symbol = some op.token := by
  cases op <;> rfl

/-- The text of an expression is cut into the tokens that it was made from. -/
theorem lexed_chars (e : Expr) (h : e.Spellable) : Lexed e.chars e.symbols := by
  induction e with
  | constant value =>
    rcases h.constant with rfl | ⟨v, unsigned, rfl⟩
    · rw [symbols_unit]
      exact lexed_unit
    · rw [symbols_real]
      exact lexed_real unsigned
  | var =>
    have name : isName "z".toList = true := by decide +kernel
    exact lexed_name name
  | unary func operand ih =>
    have enclosed := lexed_enclosed (ih h.operand)
    by_cases other : func = .neg
    · subst other
      have minus : TokenKind.ofChar? '-' = some .minus := rfl
      exact .mark minus enclosed
    · have name := lexed_name (isName_name (named_of_ne_neg other))
      have opens : TokenKind.ofChar? '(' = some .openParen := rfl
      have called := name.append enclosed (breaks_of_ofChar? opens _)
      rw [chars, symbols]
      · simpa using called
      · exact other
      · exact other
  | binary op left right ihl ihr =>
    have operands := (ihl h.left).append
      (.blank (.mark (ofChar?_symbol op) (.blank (ihr h.right)))) (breaks_blank _)
    have enclosed := lexed_enclosed operands
    simpa [chars, symbols] using enclosed

end Text

/-- Unary phrases with any operator between them; of a power the left one has to be a base. -/
theorem derives_operation {op : BinaryOp} {ks ls : List TokenKind} {l r : Expr} {m n : Nat}
    (left : Derives .unary ks l m) (right : Derives .unary ls r n)
    (base : op = .pow → Derives .base ks l m) :
    Derives .expression (ks ++ op.token :: ls) (binary op l r)
      (max m (n + if op = .pow then 1 else 0)) := by
  have leftTerm : Derives .term ks l m := Derives.joined_of_operand left
  have rightTerm : Derives .term ls r n := Derives.joined_of_operand right
  cases op with
  | add => exact Derives.joined_of_operands (by decide) leftTerm rightTerm
  | sub => exact Derives.joined_of_operands (by decide) leftTerm rightTerm
  | mul =>
    have isOp : BinaryOp.mul ∈ Layer.products.ops := by decide
    exact Derives.joined_of_operand (Derives.joined_of_operands isOp left right)
  | div =>
    have isOp : BinaryOp.div ∈ Layer.products.ops := by decide
    exact Derives.joined_of_operand (Derives.joined_of_operands isOp left right)
  | pow => exact Derives.expression_of_unary (.unary (.power (base rfl) right))

/-- Anything but a negation is a base; a negation is at least a unary phrase. -/
theorem derives_symbols (e : Expr) (h : e.Spellable) :
    Derives .unary e.symbols e.reread e.nesting ∧
      ((∀ x, e ≠ unary .neg x) → Derives .base e.symbols e.reread e.nesting) := by
  have of_base {ks : List TokenKind} {x : Expr} {n : Nat} {q : Prop} (base : Derives .base ks x n) :
      Derives .unary ks x n ∧ (q → Derives .base ks x n) :=
    ⟨.unary (.factor base), fun _ => base⟩
  fun_induction reread e with
  | case1 value =>
    rcases h.constant with rfl | ⟨v, -, rfl⟩
    · rw [symbols_unit]
      exact of_base .unit
    · rw [symbols_real]
      exact of_base (.number v)
  | case2 => exact of_base .var
  | case3 func operand ih =>
    have inner := (ih h.operand).1.expression_of_unary
    by_cases other : func = .neg
    · subst other
      exact ⟨.negation (.unary (.factor (.paren inner))), fun not => absurd rfl (not operand)⟩
    · have call := of_base (q := ∀ x, unary func operand ≠ unary .neg x)
        (.call (named_of_ne_neg other) inner)
      have depth : (unary func operand).nesting = operand.nesting + 1 := by
        rw [nesting, if_neg other]
      rw [symbols, depth]
      · exact call
      · exact other
  | case4 base exponent ihb ihe =>
    -- the minus sign before the left operand takes the whole power
    have bracketed := Derives.paren (ihb h.left.operand).1.expression_of_unary
    have negation := Derives.negation (.unary (.power bracketed (ihe h.right).1))
    have sentence := of_base (q := ∀ x, binary .pow (unary .neg base) exponent ≠ unary .neg x)
      (.paren negation.expression_of_unary)
    have tokens : (binary .pow (unary .neg base) exponent).symbols = .openParen :: (.minus ::
        (.openParen :: (base.symbols ++ [.closeParen]) ++ .caret :: exponent.symbols) ++
          [.closeParen]) := by
      simp [symbols, BinaryOp.token]
    rw [tokens, nesting]
    exact sentence
  | case5 op left right other ihl ihr =>
    -- only a power asks for a base, and its left operand is no negation here
    have isBase : op = .pow → Derives .base left.symbols left.reread left.nesting := fun power =>
      (ihl h.left).2 fun x negated => other x power negated
    have operation := derives_operation (ihl h.left).1 (ihr h.right).1 isBase
    have sentence := of_base (q := ∀ x, binary op left right ≠ unary .neg x) (.paren operation)
    have tokens : (binary op left right).symbols =
        .openParen :: (left.symbols ++ op.token :: right.symbols ++ [.closeParen]) := by
      simp [symbols]
    rw [tokens, nesting]
    · exact sentence
    · exact other

/-- The text of an expression compiles to what it is read as, if its nesting is within the limit. -/
theorem compile_text (e : Expr) (h : e.Spellable) (mode : Strictness) (limit : Nat) :
    compile ⟨mode, limit⟩ e.text =
      if e.nesting + 1 ≤ limit then .ok e.reread else .error (.nestingTooDeep limit) := by
  obtain ⟨ts, tokenized, kinds⟩ := (lexed_chars e h).tokenizeWith mode
  have derives : Derives .expression (ts.map Token.kind) e.reread e.nesting := by
    rw [kinds]
    exact (derives_symbols e h).1.expression_of_unary
  have low := height_reread_le e
  have fits : e.nesting + 1 ≤ limit ∧ e.reread.height ≤ limit ↔ e.nesting + 1 ≤ limit := by omega
  have read := derives.ofTokens_eq limit
  simp only [fits] at read
  simp only [compile, text, tokenized, bind, Except.bind, read]

end Expr

end DomainColoring
