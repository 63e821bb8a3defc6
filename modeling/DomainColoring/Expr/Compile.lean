import DomainColoring.Expr.Parser
import DomainColoring.Log
import DomainColoring.Token.Lexer

/-!
# Compiling a formula

From the text of a formula to its expression. Characters that no token has room for are dropped or
refused, as the options say.
-/

namespace DomainColoring

/-- What becomes of characters that no token has room for. -/
inductive Strictness where
  /-- They are dropped. -/
  | lenient
  /-- The first is an error. -/
  | strict
deriving DecidableEq, Repr

structure CompileOptions where
  mode : Strictness
  /-- Bounds both the nesting of the text and the height of the tree. -/
  maxDepth : Nat
deriving DecidableEq, Repr

def CompileOptions.standard : CompileOptions := ⟨.lenient, 64⟩

/-- The tokens of a text under a mode. -/
def tokenizeWith (mode : Strictness) (text : String) : Except SyntaxError TokenStream :=
  let stream := tokenize text
  match mode, stream.skipped with
  | .strict, c :: _ => .error (.unrecognizedCharacter c.char c.offset)
  | _, _ => .ok stream

/-- The expression that a text stands for. -/
def compile (options : CompileOptions) (text : String) : Except SyntaxError Expr := do
  let stream ← tokenizeWith options.mode text
  Expr.ofTokens options.maxDepth stream.tokens

theorem compile_lenient (limit : Nat) (text : String) :
    compile ⟨.lenient, limit⟩ text = Expr.ofTokens limit (tokenize text).tokens := rfl

theorem compile_strict (limit : Nat) (text : String) :
    compile ⟨.strict, limit⟩ text =
      match (tokenize text).skipped with
      | [] => Expr.ofTokens limit (tokenize text).tokens
      | c :: _ => .error (.unrecognizedCharacter c.char c.offset) := by
  unfold compile tokenizeWith
  dsimp only
  cases (tokenize text).skipped <;> rfl

def Skipped.warning (c : Skipped) : LogLine :=
  .warn s!"Ignoring unrecognized character '{c.char}' at offset {c.offset}"

/-- What compiling a text reports: the characters that were dropped, if it got that far. -/
def compileLog (options : CompileOptions) (text : String) : List LogLine :=
  match tokenizeWith options.mode text with
  | .error _ => []
  | .ok stream => stream.skipped.map Skipped.warning

end DomainColoring
