import DomainColoring.Token.Lexer
import Mathlib.Tactic

/-!
# Decimals as literals

Positional text is a literal: digits, and perhaps a point and more digits. Read as one it gives the
decimal it was written for, but for the zeros that stand for a positive power of ten
(`spelled_positional`).
-/

namespace DomainColoring.Decimal

/-- A literal that is read as `d`. -/
structure Spelled (d : Decimal) (whole : List Char) (point : Bool) (fraction : List Char) :
    Prop where
  nonempty : whole ≠ []
  digits : ∀ c ∈ whole, c.isDigit = true
  places : ∀ c ∈ fraction, c.isDigit = true
  pointless : point = false → fraction = []
  value : ofParts whole fraction = d

theorem ofDigits_toDigits (n : Nat) : ofDigits (Nat.toDigits 10 n) = n :=
  Nat.ofDigitChars_ten_toDigits

theorem isDigit_toDigits (n : Nat) : ∀ c ∈ Nat.toDigits 10 n, c.isDigit = true :=
  fun _ h => Nat.isDigit_of_mem_toDigits (by decide) (by decide) h

/-- Zeros after the digits are powers of ten. -/
theorem ofDigits_append_zeros (cs : List Char) (n : Nat) :
    ofDigits (cs ++ List.replicate n '0') = ofDigits cs * 10 ^ n := by
  have appended := Nat.ofDigitChars_append (b := 10) (l := cs) (m := List.replicate n '0') 0
  rw [Nat.ofDigitChars_replicate_zero, Nat.mul_comm] at appended
  exact appended

/-- Zeros before the digits are nothing. -/
theorem ofDigits_zeros_append (n : Nat) (cs : List Char) :
    ofDigits (List.replicate n '0' ++ cs) = ofDigits cs := by
  have appended := Nat.ofDigitChars_append (b := 10) (l := List.replicate n '0') (m := cs) 0
  rw [Nat.ofDigitChars_replicate_zero, Nat.mul_zero] at appended
  exact appended

theorem isDigit_replicate (n : Nat) : ∀ c ∈ List.replicate n '0', c.isDigit = true := by
  intro c h
  rw [List.eq_of_mem_replicate h]
  rfl

theorem spelled_whole {n : Nat} (k : Nat) :
    Spelled ⟨n * 10 ^ k, 0⟩ (Nat.toDigits 10 n ++ List.replicate k '0') false [] where
  nonempty := by simp
  digits := by
    intro c h
    rcases List.mem_append.1 h with digit | zero
    · exact isDigit_toDigits n c digit
    · exact isDigit_replicate k c zero
  places := by simp
  pointless _ := rfl
  value := by
    rw [ofParts, List.append_nil, ofDigits_append_zeros, ofDigits_toDigits]
    rfl

/-- A point among the digits. -/
theorem spelled_split {n places : Nat} (inside : places < (Nat.toDigits 10 n).length) :
    Spelled ⟨n, -places⟩ ((Nat.toDigits 10 n).take ((Nat.toDigits 10 n).length - places)) true
      ((Nat.toDigits 10 n).drop ((Nat.toDigits 10 n).length - places)) where
  nonempty := by
    intro empty
    have none := congrArg List.length empty
    rw [List.length_take, List.length_nil] at none
    omega
  digits := fun c h => isDigit_toDigits n c (List.mem_of_mem_take h)
  places := fun c h => isDigit_toDigits n c (List.mem_of_mem_drop h)
  pointless h := by cases h
  value := by
    have rest : (Nat.toDigits 10 n).length - ((Nat.toDigits 10 n).length - places) = places := by
      omega
    rw [ofParts, List.take_append_drop, ofDigits_toDigits, List.length_drop, rest]

/-- A point before the digits. -/
theorem spelled_small {n places : Nat} (outside : (Nat.toDigits 10 n).length ≤ places) :
    Spelled ⟨n, -places⟩ ['0'] true
      (List.replicate (places - (Nat.toDigits 10 n).length) '0' ++ Nat.toDigits 10 n) where
  nonempty := by simp
  digits := by simp
  places := by
    intro c h
    rcases List.mem_append.1 h with zero | digit
    · exact isDigit_replicate _ c zero
    · exact isDigit_toDigits n c digit
  pointless h := by cases h
  value := by
    -- the digit before the point is one more leading zero
    have zeros :=
      ofDigits_zeros_append (places - (Nat.toDigits 10 n).length + 1) (Nat.toDigits 10 n)
    rw [List.replicate_succ, List.cons_append] at zeros
    have long : places - (Nat.toDigits 10 n).length + (Nat.toDigits 10 n).length = places :=
      Nat.sub_add_cancel outside
    rw [ofParts, List.cons_append, List.nil_append, zeros, ofDigits_toDigits, List.length_append,
      List.length_replicate, long]

/-- The positional text of a decimal is a literal that is read as the decimal. -/
theorem spelled_positional (d : Decimal) :
    ∃ whole point fraction,
      d.positional = (Lexeme.literal whole point fraction).chars ∧
        Spelled d.expand whole point fraction := by
  unfold positional expand
  dsimp only
  split
  · exact ⟨_, false, [], (List.append_nil _).symm, spelled_whole _⟩
  · next negative =>
    obtain ⟨places, below⟩ : ∃ places : Nat, d.exponent = -places :=
      ⟨(-d.exponent).toNat, by omega⟩
    have same : (-d.exponent).toNat = places := by omega
    rw [same]
    split
    · next inside =>
      refine ⟨_, true, _, rfl, ?_⟩
      have spelled := spelled_split inside
      rwa [← below] at spelled
    · next outside =>
      refine ⟨['0'], true, _, rfl, ?_⟩
      have spelled := spelled_small (Nat.le_of_not_lt outside)
      rwa [← below] at spelled

end DomainColoring.Decimal
