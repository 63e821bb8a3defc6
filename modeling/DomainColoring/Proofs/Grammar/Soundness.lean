import DomainColoring.Proofs.Grammar
import DomainColoring.Proofs.Success

/-!
# What is read is a phrase

A reader that succeeds has taken a phrase of the grammar off the front of the tokens, measured its
tree and kept within both limits (`sound_unary`, `sound_expression`). Each reader is sound if those
it calls are; the readers of a level owe their soundness to the next deeper one, so the induction is
on the levels left.
-/

namespace DomainColoring

/-- The tokens begin with a phrase `p` that nests at most `levels` deep and whose tree is at most
`limit` high; the tree is measured, and the tokens after the phrase are left. -/
inductive Begins (limit levels : Nat) (p : Phrase) (ts : List Token) (m : Measured)
    (rest : List Token) : Prop
  | intro (pre : List Token) (e : Expr) (n : Nat) (split : ts = pre ++ rest)
      (tree : m = ⟨e, e.height⟩) (derives : Derives p (pre.map Token.kind) e n)
      (within : n ≤ levels) (low : e.height ≤ limit)

namespace TokenReader

/-- What the reader accepts begins with a phrase `p`. -/
def Sound (limit levels : Nat) (p : Phrase) (read : TokenReader) : Prop :=
  ∀ {ts : List Token} {m : Measured} {rest : List Token},
    read ts = .ok (m, rest) → Begins limit levels p ts m rest

/-- What the reader one level deeper accepts begins with a unary phrase. -/
def SoundDeeper (limit levels : Nat) (deeper : Option TokenReader) : Prop :=
  ∀ read, deeper = some read → ∃ k, levels = k + 1 ∧ Sound limit k .unary read

theorem of_grow {limit height : Nat} {e : Expr} {m : Measured} {ts rest : List Token}
    (h : grow limit e height ts = .ok (m, rest)) :
    height ≤ limit ∧ m = ⟨e, height⟩ ∧ rest = ts := by
  unfold grow at h
  split at h
  · cases h
  · next low =>
    cases h
    exact ⟨Nat.le_of_not_lt low, rfl, rfl⟩

theorem of_closing {offset : Nat} {ts rest : List Token} (h : closing offset ts = .ok rest) :
    ∃ c, c.kind = .closeParen ∧ ts = c :: rest := by
  unfold closing at h
  split at h
  · cases h
  · next c us =>
    split at h
    · next closes =>
      cases h
      exact ⟨c, closes, rfl⟩
    · cases h

section Layers

variable {limit levels : Nat} {layer : Layer} {op? : TokenKind → Option BinaryOp}
  {operand : TokenReader}

theorem begins_done {l : Expr} (low : l.height ≤ limit) (ts : List Token) :
    Begins limit levels (.more layer l) ts ⟨l, l.height⟩ ts :=
  .intro [] l 0 rfl rfl .done (Nat.zero_le _) low

theorem sound_chain (ops : ∀ {k op}, op? k = some op → op ∈ layer.ops ∧ k = op.token)
    (sound : Sound limit levels layer.operand operand) {fuel : Nat} {l : Expr}
    {ts rest : List Token} {m : Measured} (low : l.height ≤ limit)
    (h : chain limit op? operand fuel ⟨l, l.height⟩ ts = .ok (m, rest)) :
    Begins limit levels (.more layer l) ts m rest := by
  induction fuel generalizing l ts with
  | zero =>
    cases h
    exact begins_done low rest
  | succ fuel ih =>
    cases ts with
    | nil =>
      cases h
      exact begins_done low []
    | cons t ts =>
      simp only [chain] at h
      split at h
      · cases h
        exact begins_done low (t :: ts)
      · next op isOp =>
        obtain ⟨member, token⟩ := ops isOp
        obtain ⟨⟨right, us⟩, read, grow⟩ := exists_of_bind_ok h
        obtain ⟨⟨left, vs⟩, grown, further⟩ := exists_of_bind_ok grow
        obtain ⟨pre, r, i, rfl, rfl, derivesRight, withinRight, _⟩ := sound read
        obtain ⟨lower, rfl, rfl⟩ := of_grow grown
        obtain ⟨us, e, n, rfl, rfl, derives, within, last⟩ := ih (l := .binary op l r) lower further
        refine .intro (t :: (pre ++ us)) e (max i n) (by simp) rfl ?_
          (Nat.max_le.2 ⟨withinRight, within⟩) last
        rw [List.map_cons, List.map_append, token]
        exact .more member derivesRight derives

theorem sound_joined (ops : ∀ {k op}, op? k = some op → op ∈ layer.ops ∧ k = op.token)
    (sound : Sound limit levels layer.operand operand) :
    Sound limit levels (.joined layer) (joined limit op? operand) := by
  intro ts m rest h
  obtain ⟨⟨left, us⟩, read, further⟩ := exists_of_bind_ok h
  obtain ⟨pre, l, m, rfl, rfl, derivesLeft, withinLeft, low⟩ := sound read
  obtain ⟨us, e, n, rfl, rfl, derives, within, last⟩ := sound_chain ops sound low further
  refine .intro (pre ++ us) e (max m n) (by simp) rfl ?_ (Nat.max_le.2 ⟨withinLeft, within⟩) last
  rw [List.map_append]
  exact .joined derivesLeft derives

end Layers

theorem of_productOp? {k : TokenKind} {op : BinaryOp} (h : productOp? k = some op) :
    op ∈ Layer.products.ops ∧ k = op.token := by
  unfold productOp? at h
  split at h <;> cases h <;> exact ⟨by decide, rfl⟩

theorem of_sumOp? {k : TokenKind} {op : BinaryOp} (h : sumOp? k = some op) :
    op ∈ Layer.sums.ops ∧ k = op.token := by
  unfold sumOp? at h
  split at h <;> cases h <;> exact ⟨by decide, rfl⟩

section Level

variable {limit levels : Nat} {deeper : Option TokenReader}

theorem sound_sum {unary : TokenReader} (sound : Sound limit levels .unary unary) :
    Sound limit levels .expression (sum limit unary) :=
  sound_joined of_sumOp? (sound_joined of_productOp? sound)

theorem sound_nested (sound : SoundDeeper limit levels deeper) {ts rest : List Token} {m : Measured}
    (h : nested limit deeper ts = .ok (m, rest)) :
    ∃ k, levels = k + 1 ∧ Begins limit k .unary ts m rest := by
  cases deeper with
  | none => cases h
  | some read =>
    obtain ⟨k, next, sound⟩ := sound read rfl
    exact ⟨k, next, sound h⟩

/-- What stands between parentheses is an expression one level deeper. -/
theorem sound_enclosed (sound : SoundDeeper limit levels deeper) {offset : Nat}
    {ts rest : List Token} {m : Measured} (h : enclosed limit deeper offset ts = .ok (m, rest)) :
    ∃ k c, levels = k + 1 ∧ c.kind = .closeParen ∧ Begins limit k .expression ts m (c :: rest) := by
  obtain ⟨⟨inner, us⟩, read, h⟩ := exists_of_bind_ok h
  obtain ⟨vs, closed, h⟩ := exists_of_bind_ok h
  cases h
  obtain ⟨c, closes, rfl⟩ := of_closing closed
  cases deeper with
  | none => cases read
  | some unary =>
    obtain ⟨k, next, sound⟩ := sound unary rfl
    exact ⟨k, c, next, closes, sound_sum sound read⟩

/-- A phrase of one token that stands for a leaf. -/
theorem begins_leaf {t : Token} {e : Expr} (derives : Derives .base [t.kind] e 0)
    (leaf : e.height = 0) (ts : List Token) : Begins limit levels .base (t :: ts) ⟨e, 0⟩ ts :=
  .intro [t] e 0 rfl (by rw [leaf]) derives (Nat.zero_le _) (by rw [leaf]; exact Nat.zero_le _)

theorem derives_leaf {name : String} {e : Expr} (h : leaf? name = some e) :
    Derives .base [.ident name] e 0 ∧ e.height = 0 := by
  unfold leaf? at h
  split at h <;> cases h
  · exact ⟨.var, rfl⟩
  · exact ⟨.unit, rfl⟩
  · exact ⟨.pi, rfl⟩
  · exact ⟨.euler, rfl⟩

theorem of_ofName? {name : String} {func : UnaryFunc} (h : UnaryFunc.ofName? name = some func) :
    func ∈ UnaryFunc.named ∧ func.name = name :=
  ⟨List.mem_of_find?_eq_some h, by simpa using List.find?_some h⟩

theorem sound_identifier (sound : SoundDeeper limit levels deeper) {name : String} {t : Token}
    (isName : t.kind = .ident name) {ts rest : List Token} {m : Measured}
    (h : identifier limit deeper name t ts = .ok (m, rest)) :
    Begins limit levels .base (t :: ts) m rest := by
  unfold identifier at h
  split at h
  · next e leaf =>
    cases h
    obtain ⟨derives, flat⟩ := derives_leaf leaf
    rw [← isName] at derives
    exact begins_leaf derives flat ts
  · split at h
    · cases h
    · next func called =>
      obtain ⟨named, rfl⟩ := of_ofName? called
      split at h
      · cases h
      · next p us =>
        split at h
        · next opens =>
          obtain ⟨⟨argument, vs⟩, read, grown⟩ := exists_of_bind_ok h
          obtain ⟨k, c, rfl, closes, begins⟩ := sound_enclosed sound read
          obtain ⟨low, rfl, rfl⟩ := of_grow grown
          obtain ⟨pre, e, n, rfl, rfl, derives, within, _⟩ := begins
          refine .intro (t :: p :: (pre ++ [c])) (.unary func e) (n + 1) (by simp) rfl ?_
            (Nat.succ_le_succ within) low
          simp only [List.map_cons, List.map_append, List.map_nil, isName, opens, closes]
          exact .call named derives
        · cases h

theorem sound_base (sound : SoundDeeper limit levels deeper) :
    Sound limit levels .base (base limit deeper) := by
  intro ts m rest h
  cases ts with
  | nil => cases h
  | cons t ts =>
    simp only [base] at h
    split at h
    · next value isNumber =>
      cases h
      have derives : Derives .base [t.kind] (.constant (.real value)) 0 := isNumber ▸ .number value
      exact begins_leaf derives rfl rest
    · next name isName => exact sound_identifier sound isName h
    · next opens =>
      obtain ⟨k, c, rfl, closes, begins⟩ := sound_enclosed sound h
      obtain ⟨pre, e, n, rfl, rfl, derives, within, low⟩ := begins
      refine .intro (t :: (pre ++ [c])) e (n + 1) (by simp) rfl ?_ (Nat.succ_le_succ within) low
      simp only [List.map_cons, List.map_append, List.map_nil, opens, closes]
      exact .paren derives
    · cases h

theorem sound_factor (sound : SoundDeeper limit levels deeper) :
    Sound limit levels .factor (factor limit deeper) := by
  intro ts m rest h
  obtain ⟨⟨left, us⟩, read, raise⟩ := exists_of_bind_ok h
  obtain ⟨pre, b, n, rfl, rfl, derives, within, low⟩ := sound_base sound read
  cases us with
  | nil =>
    cases raise
    exact .intro pre b n rfl rfl (.factor derives) within low
  | cons t us =>
    simp only [raised] at raise
    split at raise
    · next power =>
      obtain ⟨⟨exponent, vs⟩, read, grown⟩ := exists_of_bind_ok raise
      obtain ⟨k, rfl, us, x, i, rfl, rfl, exponent, inside, _⟩ := sound_nested sound read
      obtain ⟨low, rfl, rfl⟩ := of_grow grown
      refine .intro (pre ++ t :: us) (.binary .pow b x) (max n (i + 1)) (by simp) rfl ?_
        (Nat.max_le.2 ⟨within, Nat.succ_le_succ inside⟩) low
      rw [List.map_append, List.map_cons, power]
      exact .power derives exponent
    · cases raise
      exact .intro pre b n rfl rfl (.factor derives) within low

theorem sound_signed (sound : SoundDeeper limit levels deeper) :
    Sound limit levels .unary (signed limit deeper) := by
  have plain : Sound limit levels .unary (factor limit deeper) := by
    intro ts m rest h
    obtain ⟨pre, e, n, split, tree, derives, within, low⟩ := sound_factor sound h
    exact .intro pre e n split tree (.unary derives) within low
  intro ts m rest h
  unfold signed at h
  split at h
  · exact plain h
  · next t ts =>
    split at h
    · next minus =>
      obtain ⟨⟨operand, us⟩, read, grown⟩ := exists_of_bind_ok h
      obtain ⟨k, rfl, pre, e, n, rfl, rfl, derives, within, _⟩ := sound_nested sound read
      obtain ⟨low, rfl, rfl⟩ := of_grow grown
      refine .intro (t :: pre) (.unary .neg e) (n + 1) rfl rfl ?_ (Nat.succ_le_succ within) low
      rw [List.map_cons, minus]
      exact .negation derives
    · exact plain h

end Level

theorem unary_eq_signed (limit levels : Nat) :
    unary limit levels = signed limit (deeper limit levels) := by
  funext ts
  cases levels <;> rfl

theorem sound_unary (limit levels : Nat) : Sound limit levels .unary (unary limit levels) := by
  induction levels with
  | zero =>
    rw [unary_eq_signed]
    exact sound_signed (fun read h => by cases h)
  | succ k ih =>
    rw [unary_eq_signed]
    refine sound_signed (fun read h => ⟨k, rfl, ?_⟩)
    cases h
    exact ih

/-- The levels that are left are entered one less deep by the expression itself. -/
theorem sound_expression {limit levels : Nat} {ts rest : List Token} {m : Measured}
    (h : expression limit levels ts = .ok (m, rest)) :
    ∃ k, levels = k + 1 ∧ Begins limit k .expression ts m rest := by
  cases levels with
  | zero => cases h
  | succ k => exact ⟨k, rfl, sound_sum (sound_unary limit k) h⟩

end TokenReader

/-- A formula that is read is an expression that fits the limit, nested and in height. -/
theorem Expr.derives_of_ofTokens {limit : Nat} {ts : List Token} {e : Expr}
    (h : ofTokens limit ts = .ok e) :
    ∃ n, Derives .expression (ts.map Token.kind) e n ∧ n + 1 ≤ limit ∧ e.height ≤ limit := by
  unfold ofTokens at h
  split at h
  · cases h
  · next m read =>
    cases h
    obtain ⟨k, rfl, pre, e, n, split, rfl, derives, within, low⟩ :=
      TokenReader.sound_expression read
    rw [List.append_nil] at split
    subst split
    exact ⟨n, derives, Nat.succ_le_succ within, low⟩
  · cases h

end DomainColoring
