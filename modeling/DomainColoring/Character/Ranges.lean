/-!
# Sets of characters as ranges

A set of code points is an increasing list of ranges, each given by its two ends. Membership stops
at the first range above the code point, and as the list is increasing that loses none
(`RangeSet.contains_eq_true_iff`).
-/

namespace DomainColoring.Character

/-- Whether `n` lies in one of the ranges; stops at the first range above it. -/
def inRanges (n : Nat) : List (Nat × Nat) → Bool
  | [] => false
  | (low, high) :: rest => if n < low then false else if n ≤ high then true else inRanges n rest

/-- Whether the ranges are non-empty and follow one another with a gap, from `n` on. -/
def isIncreasing (n : Nat) : List (Nat × Nat) → Bool
  | [] => true
  | (low, high) :: rest => decide (n ≤ low ∧ low ≤ high) && isIncreasing (high + 2) rest

theorem le_of_isIncreasing {n : Nat} {rs : List (Nat × Nat)} (h : isIncreasing n rs = true) :
    ∀ r ∈ rs, n ≤ r.1 := by
  induction rs generalizing n with
  | nil => simp
  | cons r rest ih =>
    obtain ⟨low, high⟩ := r
    simp only [isIncreasing, Bool.and_eq_true, decide_eq_true_eq] at h
    intro r hr
    rcases List.mem_cons.1 hr with rfl | hr
    · exact h.1.1
    · exact Nat.le_trans (by omega) (ih h.2 r hr)

theorem inRanges_eq_true_iff {k n : Nat} {rs : List (Nat × Nat)} (h : isIncreasing k rs = true) :
    inRanges n rs = true ↔ ∃ r ∈ rs, r.1 ≤ n ∧ n ≤ r.2 := by
  induction rs generalizing k with
  | nil => simp [inRanges]
  | cons r rest ih =>
    obtain ⟨low, high⟩ := r
    simp only [isIncreasing, Bool.and_eq_true, decide_eq_true_eq] at h
    have above := le_of_isIncreasing h.2
    unfold inRanges
    split
    · rename_i below
      constructor
      · intro absurd
        cases absurd
      · rintro ⟨r, hr, hn⟩
        rcases List.mem_cons.1 hr with rfl | hr
        · exact absurd hn.1 (by omega)
        · have := above r hr
          omega
    split
    · rename_i within
      exact ⟨fun _ => ⟨(low, high), List.mem_cons_self, by omega, within⟩, fun _ => rfl⟩
    · rename_i beyond
      rw [ih h.2]
      constructor
      · rintro ⟨r, hr, hn⟩
        exact ⟨r, List.mem_cons_of_mem _ hr, hn⟩
      · rintro ⟨r, hr, hn⟩
        rcases List.mem_cons.1 hr with rfl | hr
        · exact absurd hn.2 beyond
        · exact ⟨r, hr, hn⟩

/-- A set of code points. -/
structure RangeSet where
  ranges : List (Nat × Nat)
  increasing : isIncreasing 0 ranges = true

namespace RangeSet

variable (s : RangeSet) {n : Nat}

def contains (n : Nat) : Bool := inRanges n s.ranges

theorem contains_eq_true_iff : s.contains n = true ↔ ∃ r ∈ s.ranges, r.1 ≤ n ∧ n ≤ r.2 :=
  inRanges_eq_true_iff s.increasing

end RangeSet

end DomainColoring.Character
