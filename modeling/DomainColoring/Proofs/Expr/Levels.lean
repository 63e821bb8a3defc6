import DomainColoring.Proofs.Expr.Printed

/-!
# The levels that a printed formula takes

The text of an expression has parentheses that the text it was compiled from need not have, so it may
take more levels of nesting than the limit under which that was compiled. How many it takes is a
function of the tree (`levels`), and they alone decide whether the text compiles: the tree comes back
if they are within the limit, and otherwise the text nests too deeply (`compile_text_eq_ite_levels`).
-/

namespace DomainColoring.Expr

/-- The levels of nesting within the text of an expression. A function has one pair of parentheses, a
negation a minus sign and one pair, an operation one pair; an exponent is one level by itself. -/
def levels : Expr → Nat
  | constant _ => 0
  | var => 0
  | unary .neg operand => 2 + operand.levels
  | unary _ operand => 1 + operand.levels
  | binary .pow base exponent => 1 + max base.levels (1 + exponent.levels)
  | binary _ left right => 1 + max left.levels right.levels

/-- Only the text of a power of a negation nests otherwise than its tree says. -/
theorem nesting_eq_levels {e : Expr} (plain : e.raisesNegation = false) :
    e.nesting = e.levels := by
  fun_induction nesting e with
  | case1 value => rfl
  | case2 => rfl
  | case3 func operand ih =>
    have inner := ih plain
    by_cases negation : func = .neg
    · subst negation
      rw [levels, if_pos rfl]
      omega
    · rw [levels, if_neg negation]
      · omega
      · exact negation
  | case4 base exponent _ _ => cases plain
  | case5 op left right other ihl ihr =>
    rw [raisesNegation] at plain
    · obtain ⟨plainLeft, plainRight⟩ := Bool.or_eq_false_iff.1 plain
      have lefts := ihl plainLeft
      have rights := ihr plainRight
      by_cases power : op = .pow
      · subst power
        rw [levels, if_pos rfl]
        omega
      · rw [levels, if_neg power]
        · omega
        · exact power
    · exact other

/-- The text of an expression without powers of negations compiles, to the expression, exactly if the
limit leaves room for its levels and the level of the whole. Under every lower limit it is refused for
its nesting and for nothing else, in either mode. -/
theorem compile_text_eq_ite_levels (e : Expr) (spellable : e.Spellable)
    (plain : e.raisesNegation = false) (mode : Strictness) (limit : Nat) :
    compile ⟨mode, limit⟩ e.text =
      if 1 + e.levels ≤ limit then .ok e else .error (.nestingTooDeep limit) := by
  rw [e.compile_text spellable, nesting_eq_levels plain, e.reread_eq_self_iff.2 plain,
    Nat.add_comm 1]

/-- The formula `sin(-z)^-2`, which is 3 high. -/
def reciprocalSquare : Expr :=
  .binary .pow (.unary .sin (.unary .neg .var)) (.unary .neg (.constant (.real 2)))

/-- Its text `(sin(-(z)) ^ -(2))` takes 4 levels and that of the whole. -/
theorem compile_text_eq_ite_levels_reciprocalSquare :
    reciprocalSquare.Spellable ∧ reciprocalSquare.raisesNegation = false ∧
      compile ⟨.strict, 5⟩ reciprocalSquare.text = .ok reciprocalSquare ∧
      compile ⟨.strict, 4⟩ reciprocalSquare.text = .error (.nestingTooDeep 4) := by
  have spellable : reciprocalSquare.Spellable := by
    intro c member
    obtain rfl := List.mem_singleton.1 member
    have unsigned : Binary64.Unsigned 2 :=
      Binary64.unsigned_of_isFinite (by decide +kernel) rfl
    exact .inr ⟨2, unsigned, rfl⟩
  have answer := compile_text_eq_ite_levels reciprocalSquare spellable rfl .strict
  exact ⟨spellable, rfl, answer 5, answer 4⟩

end DomainColoring.Expr
