import DomainColoring.Proofs.Descent.Agreement
import DomainColoring.Proofs.Grammar.Soundness

/-!
# A descent keeps its books

Every procedure of a descent comes to an end, whatever tokens are ahead, and leaves the counters in order
whether it returns or fails (`calls_balanced`). That it ends, and what it does to the counters, is known
from the agreement with the readers; that a tree is measured, low and paid for with tokens, from what is
known of the readers.
-/

namespace DomainColoring

/-- A bound of the height that the tree of a phrase is given. -/
def Phrase.room : Phrase → Nat
  | more _ left => left.height + 1
  | _ => 0

/-- Each level of a tree costs a token. -/
theorem Derives.height_lt {p : Phrase} {ks : List TokenKind} {e : Expr} {n : Nat} (h : Derives p ks e n) :
    e.height < p.room + ks.length := by
  induction h with
  | @joined layer ks ls l e m n first rest ihFirst ihRest =>
    have none : layer.operand.room = 0 := by cases layer <;> rfl
    simp only [Phrase.room, List.length_append] at ihRest ⊢
    omega
  | done => exact Nat.lt_succ_self _
  | @more layer op ks ls l r e m n isOp operand rest ihOperand ihRest =>
    have none : layer.operand.room = 0 := by cases layer <;> rfl
    simp only [Phrase.room, Expr.height, List.length_cons, List.length_append] at ihRest ⊢
    omega
  | _ =>
    simp only [Phrase.room, Expr.height, List.length_cons, List.length_append, List.length_nil] at *
    omega

namespace TokenReader

/-- The trees that are read are measured and low, and cost `least` tokens and one more for each level. -/
def Measures (limit least : Nat) (read : TokenReader) : Prop :=
  ∀ ts rest m, read ts = .ok (m, rest) →
    m.height = m.expr.height ∧ m.height ≤ limit ∧ rest.length + least + m.height ≤ ts.length

theorem measures_of_sound {limit levels : Nat} {p : Phrase} {read : TokenReader}
    (sound : Sound limit levels p read) (whole : p.room = 0) : Measures limit 1 read := by
  intro ts rest m h
  obtain ⟨pre, e, n, rfl, rfl, derives, -, low⟩ := sound h
  have short := derives.height_lt
  rw [whole, List.length_map] at short
  refine ⟨rfl, low, ?_⟩
  rw [List.length_append]
  dsimp only
  omega

theorem sound_deeper (limit levels : Nat) : SoundDeeper limit levels (deeper limit levels) := by
  intro read h
  cases levels with
  | zero => cases h
  | succ k =>
    cases h
    exact ⟨k, rfl, sound_unary limit k⟩

theorem measures_expression (limit levels : Nat) : Measures limit 1 (expression limit levels) := by
  intro ts rest m h
  obtain ⟨k, rfl, -⟩ := sound_expression h
  exact measures_of_sound (sound_sum (sound_unary limit k)) rfl ts rest m h

theorem measures_identifier (limit levels : Nat) (name : String) (offset : Nat) :
    Measures limit 0 (identifier limit (deeper limit levels) name ⟨.ident name, offset⟩) := by
  intro ts rest m h
  obtain ⟨pre, e, n, split, rfl, derives, -, low⟩ := sound_identifier (sound_deeper limit levels) rfl h
  have short := derives.height_lt
  have length := congrArg List.length split
  rw [List.length_cons, List.length_append] at length
  rw [List.length_map] at short
  change e.height < 0 + pre.length at short
  refine ⟨rfl, low, ?_⟩
  dsimp only
  omega

end TokenReader

namespace Descent

open TokenReader (measures_of_sound measures_expression measures_identifier sound_joined of_productOp?
  sound_factor sound_base)

/-- How a call ends that began at `s`: the position is no further back and within the tokens, the level is
what it was and was never above the limit; and if a tree is returned, it is measured and low and `least`
tokens are taken for it, and one more for each of its levels. -/
structure Balanced (d : Descent) (least : Nat) (s : CounterLog) (answer : Except SyntaxError Measured)
    (t : CounterLog) : Prop extends Advances d s t where
  tree : ∀ m, answer = .ok m → s.now.pos + least + m.height ≤ t.now.pos ∧
    m.height = m.expr.height ∧ m.height ≤ d.limit

variable {d : Descent} {levels least : Nat} {s : CounterLog}

/-- A call that agrees with a reader ends in balance. -/
theorem Agrees.balanced {call : Counting Measured} {read : TokenReader} (agrees : Agrees d levels call read)
    (measures : TokenReader.Measures d.limit least read) (here : Stands d levels s) :
    ∃ answer t, call.outcome s = some (answer, t) ∧ Balanced d least s answer t := by
  have follows := agrees s here
  generalize answered : read (ahead d s) = answer at follows
  cases follows with
  | @ok m t ends advances =>
    refine ⟨.ok m, t, ends, advances, ?_⟩
    rintro m ⟨⟩
    obtain ⟨measured, low, taken⟩ := measures _ _ _ answered
    rw [ahead, ahead, List.length_drop, List.length_drop] at taken
    have first := here.inside
    have last := advances.inside
    exact ⟨by omega, measured, low⟩
  | @error r t ends advances => exact ⟨.error r.error, t, ends, advances, fun m h => by cases h⟩

/-- From the start, the tokens make up what the readers read from them. -/
theorem outcome_whole (d : Descent) :
    (d.whole.outcome ⟨⟨0, 0⟩, []⟩).map Prod.fst = some (Expr.ofTokens d.limit d.tokens) := by
  have start : Stands d d.limit ⟨⟨0, 0⟩, []⟩ := ⟨Nat.zero_le _, Nat.zero_add _⟩
  have follows := agrees_expression (fun k _ => agrees_unary d k) _ start
  change Follows d _ _ (TokenReader.expression d.limit d.limit d.tokens) at follows
  unfold Expr.ofTokens whole
  generalize TokenReader.expression d.limit d.limit d.tokens = answer at follows
  cases follows with
  | error ends advances => rw [Counting.outcome_bind_of_error ends, Option.map_some]
  | @ok m t ends advances =>
    rw [Counting.outcome_bind_of_ok ends, Counting.outcome_bind_of_ok (outcome_peek rfl)]
    cases ahead d t <;> rfl

/-- From all counters within bounds, every procedure comes to an end in balance, whether it returns or
fails; so does what a name begins, but it may take no token after the name. From the start they read what
the readers read. -/
theorem calls_balanced (d : Descent) (s : CounterLog) (inside : s.now.pos ≤ d.tokens.length)
    (shallow : s.now.depth ≤ d.limit) :
    (∀ call ∈ [expression, term, unary, factor, base], ∃ answer t,
      (call d).outcome s = some (answer, t) ∧ Balanced d 1 s answer t) ∧
    (∀ name offset, ∃ answer t,
      (d.identifier name offset).outcome s = some (answer, t) ∧ Balanced d 0 s answer t) ∧
    (d.whole.outcome ⟨⟨0, 0⟩, []⟩).map Prod.fst = some (Expr.ofTokens d.limit d.tokens) := by
  obtain ⟨levels, left⟩ := Nat.exists_eq_add_of_le shallow
  have here : Stands d levels s := ⟨inside, left.symm⟩
  have below (k : Nat) (_ : levels = k + 1) := agrees_unary d k
  have unaries := agrees_unary d levels
  have sound : TokenReader.Sound d.limit levels .unary (TokenReader.unary d.limit levels) :=
    TokenReader.sound_unary d.limit levels
  have sounds := TokenReader.sound_deeper d.limit levels
  refine ⟨?calls, fun name offset => ?name, outcome_whole d⟩
  case calls =>
    simp only [List.forall_mem_cons, List.not_mem_nil, false_imp_iff, implies_true, and_true]
    refine ⟨?_, ?_, ?_, ?_, ?_⟩
    · exact (agrees_expression below).balanced (measures_expression d.limit levels) here
    · exact (agrees_term unaries).balanced (measures_of_sound (sound_joined of_productOp? sound) rfl) here
    · exact unaries.balanced (measures_of_sound sound rfl) here
    · exact (agrees_factor below).balanced (measures_of_sound (sound_factor sounds) rfl) here
    · exact (agrees_base below).balanced (measures_of_sound (sound_base sounds) rfl) here
  case name =>
    exact (agrees_identifier below name offset).balanced
      (measures_identifier d.limit levels name offset) here

/-- A descent over the tokens of `sin(-z`. -/
def unclosedSine : Descent where
  tokens := [⟨.ident "sin", 0⟩, ⟨.openParen, 3⟩, ⟨.minus, 4⟩, ⟨.ident "z", 5⟩]
  limit := 3

/-- The operand of the minus sign would be on a fourth level. -/
theorem calls_balanced_tooDeep :
    let s : CounterLog := ⟨⟨0, 1⟩, []⟩
    (s.now.pos ≤ unclosedSine.tokens.length ∧ s.now.depth ≤ unclosedSine.limit) ∧
      ∃ t, unclosedSine.expression.outcome s = some (.error (.nestingTooDeep 3), t) ∧
        Balanced unclosedSine 1 s (.error (.nestingTooDeep 3)) t := by
  intro s
  have inside : s.now.pos ≤ unclosedSine.tokens.length := by decide
  have shallow : s.now.depth ≤ unclosedSine.limit := by decide
  obtain ⟨calls, -, -⟩ := calls_balanced unclosedSine s inside shallow
  obtain ⟨answer, t, ends, balanced⟩ := calls expression List.mem_cons_self
  have here : Stands unclosedSine 2 s := ⟨inside, rfl⟩
  have follows := agrees_expression (fun k _ => agrees_unary unclosedSine k) s here
  have refused : TokenReader.expression unclosedSine.limit 2 (ahead unclosedSine s) =
      .error ⟨.nestingTooDeep 3, [⟨.ident "z", 5⟩]⟩ := rfl
  rw [refused] at follows
  cases follows with
  | error same advances =>
    rw [ends] at same
    cases same
    exact ⟨⟨inside, shallow⟩, t, ends, balanced⟩

end Descent

end DomainColoring
