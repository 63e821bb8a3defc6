import DomainColoring.Expr.Parser

/-!
# Recursive descent

Expressions read from tokens in place. A position moves over the tokens and a counter says how many levels
are entered; procedures that call each other, two of them in a loop, work on both. A failure ends a
procedure and undoes nothing, so a level that is entered has to be left whatever happens inside. Nothing
here says that the calls come to an end: a call that did not would have no outcome.
-/

namespace DomainColoring

/-- How many tokens are taken, and how many levels are entered. -/
structure Counters where
  pos : Nat
  depth : Nat
deriving DecidableEq, Repr

/-- The counters as they are, and every value that was written to them so far, which nothing reads. -/
structure CounterLog where
  now : Counters
  written : List Counters
deriving DecidableEq, Repr

namespace CounterLog

def write (s : CounterLog) (c : Counters) : CounterLog := ⟨c, s.written ++ [c]⟩

/-- One token further. -/
def advance (s : CounterLog) : CounterLog := s.write { s.now with pos := s.now.pos + 1 }

/-- One level deeper. -/
def enter (s : CounterLog) : CounterLog := s.write { s.now with depth := s.now.depth + 1 }

/-- One level less deep. -/
def leave (s : CounterLog) : CounterLog := s.write { s.now with depth := s.now.depth - 1 }

end CounterLog

/-- A procedure that changes the counters. If it comes to an end, it fails or returns, with the counters as
they are by then. -/
abbrev Counting : Type → Type := ExceptT SyntaxError (StateT CounterLog Option)

/-- What a call that begins with these counters comes to; none if it never ends. -/
def Counting.outcome {α : Type} (call : Counting α) (s : CounterLog) :
    Option (Except SyntaxError α × CounterLog) :=
  call.run.run s

/-- What is read, and how many levels may be entered. -/
structure Descent where
  tokens : List Token
  limit : Nat
deriving DecidableEq, Repr

namespace Descent

section Steps

variable (d : Descent)

/-- The token at the position. -/
def peek : Counting (Option Token) := do return d.tokens[(← get).now.pos]?

/-- Takes the token at the position, if there is one. -/
def next : Counting (Option Token) := do
  let some t ← d.peek | return none
  modify CounterLog.advance
  return some t

/-- Takes the token at the position if it is of a kind. -/
def eat (kind : TokenKind) : Counting Bool := do
  let some t ← d.peek | return false
  if t.kind = kind then
    modify CounterLog.advance
    return true
  else return false

/-- Takes the parenthesis that closes the one at `offset`. -/
def closing (offset : Nat) : Counting Unit := do
  if ← d.eat .closeParen then return ()
  else throw (.missingClosingParen offset)

/-- Takes an operator between terms. -/
def sumOperator : Counting (Option BinaryOp) := do
  if ← d.eat .plus then return some .add
  else if ← d.eat .minus then return some .sub
  else return none

/-- Takes an operator between unary expressions. -/
def productOperator : Counting (Option BinaryOp) := do
  if ← d.eat .star then return some .mul
  else if ← d.eat .slash then return some .div
  else return none

/-- Goes one level deeper, if there is one. -/
def enter : Counting Unit := do
  if d.limit ≤ (← get).now.depth then throw (.nestingTooDeep d.limit)
  modify CounterLog.enter

/-- Refuses a height above the limit. -/
def checkHeight (height : Nat) : Counting Nat :=
  if d.limit < height then throw (.nestingTooDeep d.limit) else return height

def growUnary (func : UnaryFunc) (operand : Measured) : Counting Measured := do
  let height ← d.checkHeight (operand.height + 1)
  return ⟨.unary func operand.expr, height⟩

def growBinary (op : BinaryOp) (left right : Measured) : Counting Measured := do
  let height ← d.checkHeight (max left.height right.height + 1)
  return ⟨.binary op left.expr right.expr, height⟩

end Steps

/-- What is read one level deeper. -/
inductive Inner where
  | sum
  | unary
deriving DecidableEq, Repr

mutual

/-- Reads one level deeper. -/
def nested (d : Descent) (inner : Inner) : Counting Measured := do
  d.enter
  -- a failure is a value in here, so the level is left in either case
  let balanced : StateT CounterLog Option (Except SyntaxError Measured) := do
    let answer ← match inner with
      | .sum => d |>.sum |>.run
      | .unary => d |>.unary |>.run
    modify CounterLog.leave
    return answer
  balanced
partial_fixpoint

def expression (d : Descent) : Counting Measured := d |>.nested .sum
partial_fixpoint

/-- Terms joined by plus and minus signs. -/
def sum (d : Descent) : Counting Measured := do
  let left ← d |>.term
  d |>.moreTerms left
partial_fixpoint

/-- Joins terms to `left` for as long as an operator follows. -/
def moreTerms (d : Descent) (left : Measured) : Counting Measured := do
  let some op ← d.sumOperator | return left
  let right ← d |>.term
  let left ← d.growBinary op left right
  d |>.moreTerms left
partial_fixpoint

/-- Unary expressions joined by stars and slashes. -/
def term (d : Descent) : Counting Measured := do
  let left ← d |>.unary
  d |>.moreFactors left
partial_fixpoint

/-- Joins unary expressions to `left` for as long as an operator follows. -/
def moreFactors (d : Descent) (left : Measured) : Counting Measured := do
  let some op ← d.productOperator | return left
  let right ← d |>.unary
  let left ← d.growBinary op left right
  d |>.moreFactors left
partial_fixpoint

/-- A factor, or the negation of what follows a minus sign. -/
def unary (d : Descent) : Counting Measured := do
  if ← d.eat .minus then
    let operand ← d |>.nested .unary
    d.growUnary .neg operand
  else d |>.factor
partial_fixpoint

/-- A base, raised to the power that follows, if one does. -/
def factor (d : Descent) : Counting Measured := do
  let left ← d |>.base
  if ← d.eat .caret then
    let exponent ← d |>.nested .unary
    d.growBinary .pow left exponent
  else return left
partial_fixpoint

/-- A number, a name or a parenthesis. -/
def base (d : Descent) : Counting Measured := do
  let some t ← d.next | throw .unexpectedEnd
  match t.kind with
  | .number value => return ⟨.constant (.real value), 0⟩
  | .ident name => d |>.identifier name t.offset
  | .openParen =>
    let inner ← d |>.expression
    d.closing t.offset
    return inner
  | _ => throw (.unexpectedToken t.kind.text t.offset)
partial_fixpoint

/-- What the name at `offset`, already taken, begins. -/
def identifier (d : Descent) (name : String) (offset : Nat) : Counting Measured := do
  if let some e := TokenReader.leaf? name then return ⟨e, 0⟩
  let some func := UnaryFunc.ofName? name | throw (.unknownIdentifier name offset)
  let some p ← d.next | throw .unexpectedEnd
  if p.kind = .openParen then
    let argument ← d |>.expression
    d.closing p.offset
    d.growUnary func argument
  else throw (.unexpectedToken p.kind.text p.offset)
partial_fixpoint

end

/-- The expression that all of the tokens make up. -/
def whole (d : Descent) : Counting Expr := do
  let m ← d.expression
  let some t ← d.peek | return m.expr
  throw (.trailingInput t.kind.text t.offset)

end Descent

end DomainColoring
