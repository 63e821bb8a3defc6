import DomainColoring.Expr
import DomainColoring.Expr.SyntaxError
import DomainColoring.Token

/-!
# From tokens to expressions

The grammar, lowest precedence first:

    Expression := Term (('+' | '-') Term)*
    Term       := Unary (('*' | '/') Unary)*
    Unary      := '-' Unary | Factor
    Factor     := Base ('^' Unary)?
    Base       := number | 'z' | 'i' | 'pi' | 'e'
                | function '(' Expression ')' | '(' Expression ')'

Two things are bounded by the same limit. The whole formula, every parenthesis, every argument,
every operand of a minus sign and every exponent enters one more level of nesting, and no more
levels than the limit are entered; and no tree is higher than the limit. A reader for one level is
built from the reader for the next deeper one, so it is defined by recursion on the levels left.
-/

namespace DomainColoring

/-- An expression and its height. -/
structure Measured where
  expr : Expr
  height : Nat
deriving DecidableEq, Repr

/-- Why reading stopped, and the tokens from the one that could not be accepted on. -/
structure Refusal where
  error : SyntaxError
  rest : List Token
deriving DecidableEq, Repr

/-- Reads an expression from the front of some tokens, and leaves the rest. -/
abbrev TokenReader := List Token → Except Refusal (Measured × List Token)

namespace TokenReader

/-- Refuses a tree that is higher than the limit. -/
def grow (limit : Nat) (e : Expr) (height : Nat) (rest : List Token) :
    Except Refusal (Measured × List Token) :=
  if limit < height then .error ⟨.nestingTooDeep limit, rest⟩ else .ok (⟨e, height⟩, rest)

def growUnary (limit : Nat) (func : UnaryFunc) (operand : Measured) (rest : List Token) :
    Except Refusal (Measured × List Token) :=
  grow limit (.unary func operand.expr) (operand.height + 1) rest

def growBinary (limit : Nat) (op : BinaryOp) (left right : Measured) (rest : List Token) :
    Except Refusal (Measured × List Token) :=
  grow limit (.binary op left.expr right.expr) (max left.height right.height + 1) rest

/-- Goes one level deeper, if there is one. -/
def nested (limit : Nat) (deeper : Option TokenReader) : TokenReader := fun ts =>
  match deeper with
  | none => .error ⟨.nestingTooDeep limit, ts⟩
  | some read => read ts

/-- Joins operands to `left` for as long as an operator follows; at most `n` do. -/
def chain (limit : Nat) (op? : TokenKind → Option BinaryOp) (operand : TokenReader) :
    (n : Nat) → (left : Measured) → TokenReader
  | 0, left, ts => .ok (left, ts)
  | _ + 1, left, [] => .ok (left, [])
  | n + 1, left, t :: ts =>
    match op? t.kind with
    | none => .ok (left, t :: ts)
    | some op => do
      let (right, ts) ← operand ts
      let (left, ts) ← growBinary limit op left right ts
      chain limit op? operand n left ts

def productOp? : TokenKind → Option BinaryOp
  | .star => some .mul
  | .slash => some .div
  | _ => none

def sumOp? : TokenKind → Option BinaryOp
  | .plus => some .add
  | .minus => some .sub
  | _ => none

/-- Operands joined from the left by operators of one precedence. -/
def joined (limit : Nat) (op? : TokenKind → Option BinaryOp) (operand : TokenReader) :
    TokenReader := fun ts => do
  let (left, ts) ← operand ts
  chain limit op? operand ts.length left ts

/-- A term whose factors are read by `unary`. -/
def term (limit : Nat) (unary : TokenReader) : TokenReader := joined limit productOp? unary

/-- A sum of terms whose factors are read by `unary`. -/
def sum (limit : Nat) (unary : TokenReader) : TokenReader :=
  joined limit sumOp? (term limit unary)

/-- Takes the parenthesis that closes the one at `offset`. -/
def closing (offset : Nat) : List Token → Except Refusal (List Token)
  | [] => .error ⟨.missingClosingParen offset, []⟩
  | t :: ts =>
    if t.kind = .closeParen then .ok ts else .error ⟨.missingClosingParen offset, t :: ts⟩

/-- An expression between the parenthesis at `offset`, already taken, and the one that closes it. -/
def enclosed (limit : Nat) (deeper : Option TokenReader) (offset : Nat) : TokenReader :=
  fun ts => do
    let (inner, ts) ← nested limit (deeper.map (sum limit)) ts
    let ts ← closing offset ts
    .ok (inner, ts)

/-- The number `e`, base of the natural logarithm. -/
def eulerNumber : Float := 2.718281828459045

/-- The leaf that a name stands for. -/
def leaf? : String → Option Expr
  | "z" => some .var
  | "i" => some (.constant .unit)
  | "pi" => some (.constant (.real Elementary.pi))
  | "e" => some (.constant (.real eulerNumber))
  | _ => none

/-- What the name in `t`, already taken, begins. -/
def identifier (limit : Nat) (deeper : Option TokenReader) (name : String) (t : Token) :
    TokenReader := fun ts =>
  match leaf? name with
  | some e => .ok (⟨e, 0⟩, ts)
  | none =>
    match UnaryFunc.ofName? name with
    | none => .error ⟨.unknownIdentifier name t.offset, t :: ts⟩
    | some func =>
      match ts with
      | [] => .error ⟨.unexpectedEnd, []⟩
      | p :: ts =>
        if p.kind = .openParen then do
          let (argument, ts) ← enclosed limit deeper p.offset ts
          growUnary limit func argument ts
        else .error ⟨.unexpectedToken p.kind.text p.offset, p :: ts⟩

/-- A number, a name or a parenthesis. -/
def base (limit : Nat) (deeper : Option TokenReader) : TokenReader
  | [] => .error ⟨.unexpectedEnd, []⟩
  | t :: ts =>
    match t.kind with
    | .number value => .ok (⟨.constant (.real value), 0⟩, ts)
    | .ident name => identifier limit deeper name t ts
    | .openParen => enclosed limit deeper t.offset ts
    | _ => .error ⟨.unexpectedToken t.kind.text t.offset, t :: ts⟩

/-- Raises `left` to the power that follows, if one does. -/
def raised (limit : Nat) (deeper : Option TokenReader) (left : Measured) : TokenReader
  | [] => .ok (left, [])
  | t :: ts =>
    if t.kind = .caret then do
      let (exponent, ts) ← nested limit deeper ts
      growBinary limit .pow left exponent ts
    else .ok (left, t :: ts)

def factor (limit : Nat) (deeper : Option TokenReader) : TokenReader := fun ts => do
  let (left, ts) ← base limit deeper ts
  raised limit deeper left ts

/-- A factor, or the negation of what follows a minus sign. -/
def signed (limit : Nat) (deeper : Option TokenReader) : TokenReader
  | [] => factor limit deeper []
  | t :: ts =>
    if t.kind = .minus then do
      let (operand, ts) ← nested limit deeper ts
      growUnary limit .neg operand ts
    else factor limit deeper (t :: ts)

/-- The unary expressions of a level with `levels` more below it. -/
def unary (limit : Nat) : (levels : Nat) → TokenReader
  | 0, ts => signed limit none ts
  | n + 1, ts => signed limit (some (unary limit n)) ts

/-- The reader of unary expressions one level deeper, if `levels` are left. -/
def deeper (limit : Nat) : (levels : Nat) → Option TokenReader
  | 0 => none
  | n + 1 => some (unary limit n)

/-- An expression one level deeper, if `levels` are left. -/
def expression (limit levels : Nat) : TokenReader :=
  nested limit ((deeper limit levels).map (sum limit))

end TokenReader

namespace Expr

/-- The expression that all of some tokens make up. -/
def ofTokens (limit : Nat) (ts : List Token) : Except SyntaxError Expr :=
  match TokenReader.expression limit limit ts with
  | .error refusal => .error refusal.error
  | .ok (e, []) => .ok e.expr
  | .ok (_, t :: _) => .error (.trailingInput t.kind.text t.offset)

end Expr

end DomainColoring
