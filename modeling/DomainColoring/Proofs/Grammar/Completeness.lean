import DomainColoring.Proofs.Grammar.Soundness

/-!
# Phrases are read

A reader that is given a phrase takes all of it, whatever follows that cannot go on with it, and
answers with its tree if the phrase fits the limits and that it nests too deeply otherwise
(`Derives.read`). The induction is on the derivation. Since the readers are functions, a list of
tokens has at most one tree (`Derives.unique`).
-/

namespace DomainColoring

/-- The answer to a phrase that stands for `e` and may or may not fit. -/
structure Judged (limit : Nat) (fits : Prop) (e : Expr) (rest : List Token)
    (answer : Except Refusal (Measured × List Token)) : Prop where
  accepts : fits → answer = .ok (⟨e, e.height⟩, rest)
  refuses : ¬ fits → ∃ us, answer = .error ⟨.nestingTooDeep limit, us⟩

namespace Judged

variable {limit : Nat} {a b : Prop} {e f : Expr} {mid rest : List Token}
  {answer : Except Refusal (Measured × List Token)}

theorem of_iff (h : Judged limit a e rest answer) (same : a ↔ b) : Judged limit b e rest answer :=
  propext same ▸ h

theorem ok (fits : a) : Judged limit a e rest (.ok (⟨e, e.height⟩, rest)) :=
  ⟨fun _ => rfl, fun not => absurd fits not⟩

/-- Two readings one after the other fit if both do. -/
theorem bind {next : Measured × List Token → Except Refusal (Measured × List Token)}
    (first : Judged limit a e mid answer)
    (second : a → Judged limit b f rest (next (⟨e, e.height⟩, mid))) :
    Judged limit (a ∧ b) f rest (answer >>= next) := by
  by_cases fits : a
  · rw [first.accepts fits]
    exact (second fits).of_iff (and_iff_right fits).symm
  · obtain ⟨us, refused⟩ := first.refuses fits
    rw [refused]
    exact ⟨fun both => absurd both.1 fits, fun _ => ⟨us, rfl⟩⟩

end Judged

namespace Layer

open TokenReader

def op? : Layer → TokenKind → Option BinaryOp
  | sums => sumOp?
  | products => productOp?

/-- The reader of what the operators of a layer join. -/
def reader (limit levels : Nat) : Layer → TokenReader
  | sums => TokenReader.term limit (unary limit levels)
  | products => unary limit levels

theorem op?_token {layer : Layer} {op : BinaryOp} (h : op ∈ layer.ops) :
    layer.op? op.token = some op := by
  cases layer <;> simp only [ops, List.mem_cons, List.not_mem_nil, or_false] at h <;>
    rcases h with rfl | rfl <;> rfl

/-- Whether a token after the operands of a layer would be read as part of them. -/
def goesOn : Layer → TokenKind → Bool
  | sums, k => k = .caret || (productOp? k).isSome || (sumOp? k).isSome
  | products, k => k = .caret || (productOp? k).isSome

end Layer

namespace Phrase

open TokenReader

/-- The reader of a phrase; at most `fuel` operands follow. -/
def reader (limit levels fuel : Nat) : Phrase → TokenReader
  | joined layer => TokenReader.joined limit layer.op? (layer.reader limit levels)
  | more layer left => chain limit layer.op? (layer.reader limit levels) fuel ⟨left, left.height⟩
  | unary => TokenReader.unary limit levels
  | factor => TokenReader.factor limit (deeper limit levels)
  | base => TokenReader.base limit (deeper limit levels)

theorem reader_operand (limit levels fuel : Nat) (layer : Layer) :
    layer.operand.reader limit levels fuel = layer.reader limit levels := by
  cases layer <;> rfl

/-- Whether a token after a phrase would be read as part of it. -/
def goesOn : Phrase → TokenKind → Bool
  | base, _ => false
  | factor, k => k = .caret
  | unary, k => k = .caret
  | joined layer, k => layer.goesOn k
  | more layer _, k => layer.goesOn k

/-- Whether a phrase ends before some tokens. -/
def EndsAt (p : Phrase) (rest : List Token) : Prop := ∀ t ∈ rest.head?, p.goesOn t.kind = false

theorem endsAt_nil (p : Phrase) : p.EndsAt [] := fun _ h => by cases h

theorem endsAt_cons {p : Phrase} {t : Token} (h : p.goesOn t.kind = false) (ts : List Token) :
    p.EndsAt (t :: ts) := fun u hu => by
  cases hu
  exact h

theorem endsAt_closeParen {c : Token} (closes : c.kind = .closeParen) (p : Phrase)
    (ts : List Token) : p.EndsAt (c :: ts) := by
  refine endsAt_cons ?_ ts
  rw [closes]
  cases p with
  | joined layer => cases layer <;> rfl
  | more layer _ => cases layer <;> rfl
  | _ => rfl

theorem goesOn_operand {layer : Layer} {k : TokenKind} (h : layer.goesOn k = false) :
    layer.operand.goesOn k = false ∧ layer.op? k = none := by
  cases layer <;> simpa [goesOn, Layer.goesOn, Layer.operand, Layer.op?] using h

theorem least_operand_le (layer : Layer) (limit : Nat) : layer.operand.least ≤ limit := by
  cases layer <;> exact Nat.zero_le limit

theorem goesOn_operand_token {layer : Layer} {op : BinaryOp} (h : op ∈ layer.ops) :
    layer.operand.goesOn op.token = false := by
  cases layer <;> simp only [Layer.ops, List.mem_cons, List.not_mem_nil, or_false] at h <;>
    rcases h with rfl | rfl <;> rfl

end Phrase

namespace TokenReader

variable {limit levels : Nat}

theorem judged_grow (limit : Nat) (e : Expr) (rest : List Token) :
    Judged limit (e.height ≤ limit) e rest (grow limit e e.height rest) where
  accepts low := if_neg (Nat.not_lt.2 low)
  refuses high := ⟨rest, if_pos (Nat.lt_of_not_le high)⟩

/-- What is nested fits if it does with one level less. -/
theorem judged_nested {f : TokenReader → TokenReader} {low : Prop} {e : Expr} {n : Nat}
    {ts rest : List Token}
    (judged : ∀ k, levels = k + 1 → Judged limit (n ≤ k ∧ low) e rest (f (unary limit k) ts)) :
    Judged limit (n + 1 ≤ levels ∧ low) e rest
      (nested limit ((deeper limit levels).map f) ts) := by
  cases levels with
  | zero => exact ⟨fun fits => absurd fits.1 (Nat.not_succ_le_zero n), fun _ => ⟨ts, rfl⟩⟩
  | succ k => exact (judged k rfl).of_iff (and_congr_left' Nat.succ_le_succ_iff.symm)

theorem judged_deeper {low : Prop} {e : Expr} {n : Nat} {ts rest : List Token}
    (judged : ∀ k, levels = k + 1 → Judged limit (n ≤ k ∧ low) e rest (unary limit k ts)) :
    Judged limit (n + 1 ≤ levels ∧ low) e rest (nested limit (deeper limit levels) ts) := by
  have nested := judged_nested (f := id) judged
  rwa [Option.map_id] at nested

theorem leaf?_name (func : UnaryFunc) : leaf? func.name = none := by
  cases func <;> rfl

theorem ofName?_name {func : UnaryFunc} (named : func ∈ UnaryFunc.named) :
    UnaryFunc.ofName? func.name = some func := by
  cases func with
  | neg => exact absurd named (by decide)
  | _ => rfl

theorem judged_enclosed {low : Prop} {e : Expr} {n : Nat} {ts rest : List Token} {c : Token}
    (offset : Nat) (closes : c.kind = .closeParen)
    (judged : ∀ k, levels = k + 1 →
      Judged limit (n ≤ k ∧ low) e (c :: rest) (sum limit (unary limit k) ts)) :
    Judged limit (n + 1 ≤ levels ∧ low) e rest
      (enclosed limit (deeper limit levels) offset ts) := by
  have inner := judged_nested judged
  constructor
  · intro fits
    have closed : closing offset (c :: rest) = .ok rest := if_pos closes
    simp only [enclosed, inner.accepts fits, bind, Except.bind, closed]
  · intro not
    obtain ⟨us, refused⟩ := inner.refuses not
    exact ⟨us, by simp only [enclosed, refused, bind, Except.bind]⟩

end TokenReader

namespace Derives

open TokenReader

/-- The repetition in a layer ends or goes on with an operator of the layer. -/
theorem head_more {layer : Layer} {l e : Expr} {ks : List TokenKind} {n : Nat}
    (h : Derives (.more layer l) ks e n) :
    ks = [] ∨ ∃ op ∈ layer.ops, ∃ ls, ks = op.token :: ls := by
  cases h with
  | done => exact .inl rfl
  | more isOp _ _ => exact .inr ⟨_, isOp, _, rfl⟩

theorem head_base {ks : List TokenKind} {e : Expr} {n : Nat} (h : Derives .base ks e n) :
    ∃ k ls, ks = k :: ls ∧ k ≠ .minus := by
  cases h <;> exact ⟨_, _, rfl, by simp⟩

/-- A minus sign is never the start of a factor. -/
theorem head_factor {ks : List TokenKind} {e : Expr} {n : Nat} (h : Derives .factor ks e n) :
    ∃ k ls, ks = k :: ls ∧ k ≠ .minus := by
  cases h with
  | factor base => exact base.head_base
  | power base _ =>
    obtain ⟨k, ls, rfl, other⟩ := base.head_base
    exact ⟨k, _, rfl, other⟩

theorem operand_endsAt {layer : Layer} {l e : Expr} {n : Nat} {ts rest : List Token}
    (h : Derives (.more layer l) (ts.map Token.kind) e n)
    (ends : (Phrase.more layer l).EndsAt rest) : layer.operand.EndsAt (ts ++ rest) := by
  cases ts with
  | nil => exact fun t first => (Phrase.goesOn_operand (ends t first)).1
  | cons t ts =>
    obtain empty | ⟨op, isOp, ls, same⟩ := h.head_more
    · cases empty
    · refine Phrase.endsAt_cons ?_ (ts ++ rest)
      rw [(List.cons.inj same).1]
      exact Phrase.goesOn_operand_token isOp

theorem chain_of_endsAt {layer : Layer} {l : Expr} {rest : List Token} (limit : Nat)
    (operand : TokenReader) (fuel : Nat) (ends : (Phrase.more layer l).EndsAt rest) :
    chain limit layer.op? operand fuel ⟨l, l.height⟩ rest = .ok (⟨l, l.height⟩, rest) := by
  cases fuel with
  | zero => rfl
  | succ fuel =>
    cases rest with
    | nil => rfl
    | cons t rest => simp only [chain, (Phrase.goesOn_operand (ends t rfl)).2]

theorem raised_of_endsAt {left : Measured} {rest : List Token} (limit : Nat)
    (deeper : Option TokenReader) (ends : Phrase.factor.EndsAt rest) :
    raised limit deeper left rest = .ok (left, rest) := by
  cases rest with
  | nil => rfl
  | cons t rest =>
    have other : t.kind ≠ .caret := of_decide_eq_false (ends t rfl)
    simp only [raised, if_neg other]

end Derives

/-- Tokens of the kinds `ks` are answered as a phrase `p` that stands for `e` and nests `n` deep. -/
def Read (limit : Nat) (p : Phrase) (ks : List TokenKind) (e : Expr) (n : Nat) : Prop :=
  ∀ (levels fuel : Nat) {ts : List Token} (rest : List Token), ts.map Token.kind = ks →
    p.EndsAt rest → (ts ++ rest).length ≤ fuel → p.least ≤ limit →
      Judged limit (n ≤ levels ∧ e.height ≤ limit) e rest (p.reader limit levels fuel (ts ++ rest))

namespace Read

open TokenReader

variable {limit : Nat} {layer : Layer} {ks ls : List TokenKind} {l r e : Expr} {m n : Nat}

theorem joined (first : Read limit layer.operand ks l m) (more : Derives (.more layer l) ls e n)
    (rest : Read limit (.more layer l) ls e n) :
    Read limit (.joined layer) (ks ++ ls) e (max m n) := by
  intro levels fuel ts after kinds ends _ _
  obtain ⟨us, vs, rfl, rfl, rfl⟩ := List.map_eq_append_iff.1 kinds
  have left := first levels _ (vs ++ after) rfl (more.operand_endsAt ends) (Nat.le_refl _)
    (Phrase.least_operand_le layer limit)
  rw [Phrase.reader_operand, ← List.append_assoc] at left
  have lower : l.height ≤ e.height := more.least_le
  refine (left.bind (b := n ≤ levels ∧ e.height ≤ limit) fun fits => ?_).of_iff (by omega)
  exact rest levels _ after rfl ends (Nat.le_refl _) fits.2

theorem done : Read limit (.more layer l) [] l 0 := by
  intro levels fuel ts after kinds ends _ low
  obtain rfl := List.map_eq_nil_iff.1 kinds
  rw [List.nil_append, Phrase.reader, Derives.chain_of_endsAt limit _ fuel ends]
  exact .ok ⟨Nat.zero_le _, low⟩

theorem more {op : BinaryOp} (isOp : op ∈ layer.ops) (operand : Read limit layer.operand ks r m)
    (further : Derives (.more layer (.binary op l r)) ls e n)
    (rest : Read limit (.more layer (.binary op l r)) ls e n) :
    Read limit (.more layer l) (op.token :: (ks ++ ls)) e (max m n) := by
  intro levels fuel ts after kinds ends long low
  obtain ⟨t, ts, rfl, token, kinds⟩ := List.map_eq_cons_iff.1 kinds
  obtain ⟨us, vs, rfl, rfl, rfl⟩ := List.map_eq_append_iff.1 kinds
  cases fuel with
  | zero => exact absurd long (Nat.not_succ_le_zero _)
  | succ fuel =>
    have ends' : (Phrase.more layer (.binary op l r)).EndsAt after := ends
    have right := operand levels _ (vs ++ after) rfl (further.operand_endsAt ends') (Nat.le_refl _)
      (Phrase.least_operand_le layer limit)
    rw [Phrase.reader_operand, ← List.append_assoc] at right
    have shorter : (vs ++ after).length ≤ fuel := by
      simp only [List.cons_append, List.length_cons, List.length_append] at long ⊢
      omega
    have lower : (Expr.binary op l r).height ≤ e.height := further.least_le
    have inner : r.height < (Expr.binary op l r).height := Expr.height_right_lt op l r
    have first : layer.op? t.kind = some op := token ▸ Layer.op?_token isOp
    simp only [Phrase.reader, List.cons_append, chain, first]
    -- the tree up to here is measured before the next operator is looked at, but it is lower than
    -- the tree of the whole, so the limit on the whole decides
    refine (right.bind (b := (Expr.binary op l r).height ≤ limit ∧ n ≤ levels ∧ e.height ≤ limit)
      fun _ => ?_).of_iff (by omega)
    refine (judged_grow limit (.binary op l r) (vs ++ after)).bind fun fits => ?_
    exact rest levels fuel after rfl ends' shorter fits

theorem negation {ks : List TokenKind} {e : Expr} {n : Nat} (operand : Read limit .unary ks e n) :
    Read limit .unary (.minus :: ks) (.unary .neg e) (n + 1) := by
  intro levels fuel ts after kinds ends _ _
  obtain ⟨t, us, rfl, minus, rfl⟩ := List.map_eq_cons_iff.1 kinds
  have deeper := judged_deeper fun k (_ : levels = k + 1) =>
    operand k _ after rfl ends (Nat.le_refl _) (Nat.zero_le _)
  have lower : e.height < (Expr.unary .neg e).height := Nat.lt_succ_self _
  simp only [Phrase.reader, unary_eq_signed, List.cons_append, signed, if_pos minus]
  refine (deeper.bind (b := (Expr.unary .neg e).height ≤ limit) fun _ => ?_).of_iff (by omega)
  exact judged_grow limit (.unary .neg e) after

theorem unary (derives : Derives .factor ks e n) (factor : Read limit .factor ks e n) :
    Read limit .unary ks e n := by
  intro levels fuel ts after kinds ends long low
  obtain ⟨k, ls, rfl, other⟩ := derives.head_factor
  have plain := factor levels fuel after kinds ends long low
  obtain ⟨t, us, rfl, first, -⟩ := List.map_eq_cons_iff.1 kinds
  simp only [Phrase.reader, unary_eq_signed, List.cons_append, signed, if_neg (first ▸ other)]
  exact plain

theorem power {b x : Expr} (base : Read limit .base ks b m) (exponent : Read limit .unary ls x n) :
    Read limit .factor (ks ++ .caret :: ls) (.binary .pow b x) (max m (n + 1)) := by
  intro levels fuel ts after kinds ends _ _
  obtain ⟨us, vs, rfl, rfl, power⟩ := List.map_eq_append_iff.1 kinds
  obtain ⟨t, vs, rfl, caret, rfl⟩ := List.map_eq_cons_iff.1 power
  have left := base levels _ (t :: vs ++ after) rfl (fun _ _ => rfl)
    (Nat.le_refl _) (Nat.zero_le _)
  have deeper := judged_deeper fun k (_ : levels = k + 1) =>
    exponent k _ after rfl ends (Nat.le_refl _) (Nat.zero_le _)
  rw [← List.append_assoc] at left
  have lower : b.height < (Expr.binary .pow b x).height := Expr.height_left_lt _ b x
  have inner : x.height < (Expr.binary .pow b x).height := Expr.height_right_lt _ b x
  refine (left.bind
    (b := (n + 1 ≤ levels ∧ x.height ≤ limit) ∧ (Expr.binary .pow b x).height ≤ limit)
    fun _ => ?_).of_iff (by omega)
  simp only [List.cons_append, raised, if_pos caret]
  exact deeper.bind fun _ => judged_grow limit (.binary .pow b x) after

theorem factor (base : Read limit .base ks e n) : Read limit .factor ks e n := by
  intro levels fuel ts after kinds ends long _
  have left := base levels fuel after kinds (fun _ _ => rfl) long (Nat.zero_le _)
  refine (left.bind (b := True) fun _ => ?_).of_iff (and_iff_left trivial)
  dsimp only
  rw [Derives.raised_of_endsAt limit _ ends]
  exact .ok trivial

/-- A token that is taken for a leaf whatever follows it. -/
theorem leaf {k : TokenKind} (flat : e.height = 0)
    (taken : ∀ {levels : Nat} {t : Token} {us : List Token}, t.kind = k →
      base limit (deeper limit levels) (t :: us) = .ok (⟨e, 0⟩, us)) :
    Read limit .base [k] e 0 := by
  intro levels fuel ts after kinds _ _ _
  obtain ⟨t, us, rfl, first, kinds⟩ := List.map_eq_cons_iff.1 kinds
  obtain rfl := List.map_eq_nil_iff.1 kinds
  have answer :
      Phrase.base.reader limit levels fuel ([t] ++ after) = .ok (⟨e, e.height⟩, after) := by
    rw [flat]
    exact taken first
  rw [answer]
  exact .ok ⟨Nat.zero_le _, by rw [flat]; exact Nat.zero_le _⟩

theorem number (value : Float) : Read limit .base [.number value] (.constant (.real value)) 0 :=
  leaf rfl fun first => by simp only [base, first]

theorem name {name : String} (known : leaf? name = some e) (flat : e.height = 0) :
    Read limit .base [.ident name] e 0 :=
  leaf flat fun first => by simp only [base, first, identifier, known]

theorem call {func : UnaryFunc} (named : func ∈ UnaryFunc.named)
    (argument : Read limit .expression ks e n) :
    Read limit .base (.ident func.name :: .openParen :: (ks ++ [.closeParen])) (.unary func e)
      (n + 1) := by
  intro levels fuel ts after kinds _ _ _
  obtain ⟨t, _, rfl, first, opening⟩ := List.map_eq_cons_iff.1 kinds
  obtain ⟨p, _, rfl, opens, enclosed⟩ := List.map_eq_cons_iff.1 opening
  obtain ⟨us, _, rfl, rfl, closing⟩ := List.map_eq_append_iff.1 enclosed
  obtain ⟨c, _, rfl, closes, nothing⟩ := List.map_eq_cons_iff.1 closing
  obtain rfl := List.map_eq_nil_iff.1 nothing
  have inner := judged_enclosed p.offset closes fun k (_ : levels = k + 1) =>
    argument k _ (c :: after) rfl (Phrase.endsAt_closeParen closes .expression after)
      (Nat.le_refl _) (Nat.zero_le _)
  have lower : e.height < (Expr.unary func e).height := Nat.lt_succ_self _
  have noLeaf : leaf? func.name = none := leaf?_name func
  have called : UnaryFunc.ofName? func.name = some func := ofName?_name named
  simp only [Phrase.reader, List.cons_append, List.append_assoc, base, first, identifier, noLeaf,
    called, if_pos opens]
  refine (inner.bind (b := (Expr.unary func e).height ≤ limit) fun _ => ?_).of_iff (by omega)
  exact judged_grow limit (.unary func e) after

theorem paren (expression : Read limit .expression ks e n) :
    Read limit .base (.openParen :: (ks ++ [.closeParen])) e (n + 1) := by
  intro levels fuel ts after kinds _ _ _
  obtain ⟨p, _, rfl, opens, enclosed⟩ := List.map_eq_cons_iff.1 kinds
  obtain ⟨us, _, rfl, rfl, closing⟩ := List.map_eq_append_iff.1 enclosed
  obtain ⟨c, _, rfl, closes, nothing⟩ := List.map_eq_cons_iff.1 closing
  obtain rfl := List.map_eq_nil_iff.1 nothing
  have inner := judged_enclosed p.offset closes fun k (_ : levels = k + 1) =>
    expression k _ (c :: after) rfl (Phrase.endsAt_closeParen closes .expression after)
      (Nat.le_refl _) (Nat.zero_le _)
  simp only [Phrase.reader, List.cons_append, List.append_assoc, base, opens]
  exact inner

end Read

/-- Whatever the limits, a phrase is answered for what it is. -/
theorem Derives.read {p : Phrase} {ks : List TokenKind} {e : Expr} {n : Nat} (h : Derives p ks e n)
    (limit : Nat) : Read limit p ks e n := by
  induction h with
  | joined _ more first rest => exact Read.joined first more rest
  | done => exact Read.done
  | more isOp _ further operand rest => exact Read.more isOp operand further rest
  | negation _ operand => exact Read.negation operand
  | unary derives factor => exact Read.unary derives factor
  | power _ _ base exponent => exact Read.power base exponent
  | factor _ base => exact Read.factor base
  | number value => exact Read.number value
  | var => exact Read.name rfl rfl
  | unit => exact Read.name rfl rfl
  | pi => exact Read.name rfl rfl
  | euler => exact Read.name rfl rfl
  | call named _ argument => exact Read.call named argument
  | paren _ inner => exact Read.paren inner

/-- The answer to a sentence depends on nothing but its nesting and the height of its tree. -/
theorem Derives.ofTokens_eq {ts : List Token} {e : Expr} {n : Nat}
    (h : Derives .expression (ts.map Token.kind) e n) (limit : Nat) :
    Expr.ofTokens limit ts =
      if n + 1 ≤ limit ∧ e.height ≤ limit then .ok e else .error (.nestingTooDeep limit) := by
  have judged := TokenReader.judged_nested (f := TokenReader.sum limit)
    fun k (_ : limit = k + 1) =>
      h.read limit k _ [] rfl (Phrase.endsAt_nil _) (Nat.le_refl _) (Nat.zero_le _)
  rw [List.append_nil] at judged
  split
  · next fits =>
    have accepted : TokenReader.expression limit limit ts = .ok (⟨e, e.height⟩, []) :=
      judged.accepts fits
    simp only [Expr.ofTokens, accepted]
  · next exceeds =>
    obtain ⟨us, refused⟩ := judged.refuses exceeds
    have refused : TokenReader.expression limit limit ts = .error ⟨.nestingTooDeep limit, us⟩ :=
      refused
    simp only [Expr.ofTokens, refused]

/-- Tokens of some kinds, all at one offset. -/
def tokensOf (ks : List TokenKind) : List Token := ks.map (Token.mk · 0)

theorem kinds_tokensOf (ks : List TokenKind) : (tokensOf ks).map Token.kind = ks := by
  rw [tokensOf, List.map_map]
  exact List.map_id ks

/-- The answer to a phrase with nothing after it. -/
theorem Derives.judged {p : Phrase} {ks : List TokenKind} {e : Expr} {n : Nat}
    (h : Derives p ks e n) {limit : Nat} (low : p.least ≤ limit) (levels : Nat) :
    Judged limit (n ≤ levels ∧ e.height ≤ limit) e []
      (p.reader limit levels (tokensOf ks).length (tokensOf ks)) := by
  have answer := h.read limit levels (tokensOf ks).length [] (kinds_tokensOf ks)
    (Phrase.endsAt_nil p) (Nat.le_of_eq (by rw [List.append_nil])) low
  rwa [List.append_nil] at answer

/-- If one derivation of a phrase nests deeper than another, a reader with the levels of the other
would both accept and refuse the phrase. -/
theorem Derives.nesting_le {p : Phrase} {ks : List TokenKind} {d e : Expr} {m n : Nat}
    (h : Derives p ks d m) (k : Derives p ks e n) : n ≤ m := by
  rcases Nat.lt_or_ge m n with deeper | le
  · have low : p.least ≤ max d.height e.height := Nat.le_trans h.least_le (Nat.le_max_left _ _)
    have accepted := (h.judged low m).accepts ⟨Nat.le_refl m, Nat.le_max_left _ _⟩
    obtain ⟨us, refused⟩ := (k.judged low m).refuses fun fits => Nat.not_le_of_lt deeper fits.1
    rw [accepted] at refused
    cases refused
  · exact le

/-- The grammar is unambiguous. -/
theorem Derives.unique {p : Phrase} {ks : List TokenKind} {d e : Expr} {m n : Nat}
    (h : Derives p ks d m) (k : Derives p ks e n) : d = e ∧ m = n := by
  obtain rfl : m = n := Nat.le_antisymm (k.nesting_le h) (h.nesting_le k)
  have low : p.least ≤ max d.height e.height := Nat.le_trans h.least_le (Nat.le_max_left _ _)
  have first := (h.judged low m).accepts ⟨Nat.le_refl m, Nat.le_max_left _ _⟩
  have second := (k.judged low m).accepts ⟨Nat.le_refl m, Nat.le_max_right _ _⟩
  rw [first] at second
  cases second
  exact ⟨rfl, rfl⟩

/-- A list of tokens compiles to a tree exactly if it is a sentence that stands for the tree, its
nesting with the level of the whole sentence is within the limit and so is the height of the tree.
A sentence stands for one tree only, and nests in one way. -/
theorem ofTokens_eq_ok_iff (limit : Nat) (ts : List Token) :
    (∀ e, Expr.ofTokens limit ts = .ok e ↔
      ∃ n, Derives .expression (ts.map Token.kind) e n ∧ n + 1 ≤ limit ∧ e.height ≤ limit) ∧
    ∀ d m e n, Derives .expression (ts.map Token.kind) d m →
      Derives .expression (ts.map Token.kind) e n → d = e ∧ m = n := by
  refine ⟨fun e => ⟨Expr.derives_of_ofTokens, ?_⟩, fun d m e n => Derives.unique⟩
  rintro ⟨n, derives, fits⟩
  rw [derives.ofTokens_eq, if_pos fits]

end DomainColoring
