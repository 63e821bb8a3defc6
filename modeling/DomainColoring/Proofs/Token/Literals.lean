import DomainColoring.Decimal.Reader
import DomainColoring.Proofs.Token.Pieces

/-!
# Literals

Literals by their grammar: digits, perhaps with a point and more digits after them, or a point with digits
after it. A piece that is cut off as a literal is the longest literal at its place (`length_le_of_apt`), and
among texts of digits and points the literals are those that a number can be read from
(`isSome_numberOfText?_iff`), the number that the piece stands for.
-/

namespace DomainColoring

open Character Lexeme

/-- Literals: `digits ('.' digits*)?` or `'.' digits+`. -/
inductive IsLiteral : List Char → Prop
  | digits {ds : List Char} (nonempty : ds ≠ []) (whole : ∀ d ∈ ds, d.isDigit = true) : IsLiteral ds
  | point {ds fs : List Char} (nonempty : ds ≠ []) (whole : ∀ d ∈ ds, d.isDigit = true)
      (places : ∀ d ∈ fs, d.isDigit = true) : IsLiteral (ds ++ '.' :: fs)
  | bare {fs : List Char} (nonempty : fs ≠ []) (places : ∀ d ∈ fs, d.isDigit = true) :
      IsLiteral ('.' :: fs)

/-- A digit or a point. -/
def IsPlain (c : Char) : Prop := c.isDigit = true ∨ c = '.'

section Plain

variable {cs ds fs : List Char}

theorem IsPlain.of_digits (whole : ∀ d ∈ ds, d.isDigit = true) : ∀ d ∈ ds, IsPlain d :=
  fun d member => .inl (whole d member)

theorem IsPlain.of_point (whole : ∀ d ∈ ds, d.isDigit = true) (places : ∀ d ∈ fs, d.isDigit = true) :
    ∀ d ∈ ds ++ '.' :: fs, IsPlain d := by
  intro d member
  rcases List.mem_append.1 member with before | after
  · exact .inl (whole d before)
  rcases List.mem_cons.1 after with rfl | after
  · exact .inr rfl
  · exact .inl (places d after)

/-- A digit or a point is written in one way. -/
theorem IsPlain.toLower_eq {c : Char} (h : IsPlain c) : c.toLower = c := by
  rcases h with digit | rfl
  · have range : c.toNat ≤ 57 := by
      simp only [Char.isDigit, Bool.and_eq_true, decide_eq_true_eq] at digit
      exact digit.2
    have small : ∀ n ≤ 57, (Char.ofNat n).toLower = Char.ofNat n := by decide
    rw [← Char.ofNat_toNat c]
    exact small c.toNat range
  · rfl

theorem IsPlain.not {c : Char} (h : IsPlain c) {d : Char} (noDigit : d.isDigit = false)
    (noPoint : d ≠ '.') : c ≠ d := by
  rintro rfl
  rcases h with digit | point
  · rw [noDigit] at digit
    cases digit
  · exact noPoint point

/-- A literal may start with what is a digit or a point, and nothing else starts so. -/
theorem IsPlain.classes {c : Char} (h : IsPlain c) :
    isBlank c = false ∧ startsWord c = false ∧ (c.isDigit || c == '.') = true := by
  rcases h with digit | rfl
  · obtain ⟨visible, noName, -⟩ := classes_of_isDigit digit
    exact ⟨visible, noName, by rw [digit]; rfl⟩
  · decide

/-- Digits and points have no sign and are no word. -/
theorem numberOfText?_eq (plain : ∀ c ∈ cs, IsPlain c) :
    numberOfText? (String.ofList cs) = (Decimal.ofChars? cs).map Decimal.toFloat := by
  have unsigned : splitSign cs = (false, cs) := by
    unfold splitSign
    split
    · exact absurd rfl ((plain _ List.mem_cons_self).not (d := '-') rfl (by decide))
    · exact absurd rfl ((plain _ List.mem_cons_self).not (d := '+') rfl (by decide))
    · rfl
  have lower : cs.map Char.toLower = cs :=
    (List.map_congr_left fun c member => (plain c member).toLower_eq).trans (List.map_id cs)
  have noWord (d : Char) (ds : List Char) (noDigit : d.isDigit = false) (noPoint : d ≠ '.') :
      String.ofList cs ≠ String.ofList (d :: ds) := by
    intro same
    obtain rfl := String.ofList_injective same
    exact (plain d List.mem_cons_self).not noDigit noPoint rfl
  have finite : ¬(String.ofList cs = "inf" ∨ String.ofList cs = "infinity") := by
    rintro (same | same)
    · exact noWord 'i' ['n', 'f'] rfl (by decide) same
    · exact noWord 'i' "nfinity".toList rfl (by decide) same
  have number : String.ofList cs ≠ "nan" := noWord 'n' ['a', 'n'] rfl (by decide)
  have magnitude : magnitudeOfChars? cs = (Decimal.ofChars? cs).map Decimal.toFloat := by
    unfold magnitudeOfChars?
    simp only [lower, if_neg finite, if_neg number]
  unfold numberOfText?
  simp only [String.toList_ofList, unsigned, magnitude]
  exact Option.map_id'

end Plain

section Reading

variable {cs ds fs : List Char}

theorem ofChars?_digits (nonempty : ds ≠ []) (whole : ∀ d ∈ ds, d.isDigit = true) :
    Decimal.ofChars? ds = some (.ofParts ds []) := by
  obtain ⟨taken, left⟩ := @span_eq _ _ [] whole fun _ h => by cases h
  rw [List.append_nil] at taken left
  simp only [Decimal.ofChars?, taken, left, Decimal.splitFraction, nonempty, false_and, if_false]
  rfl

theorem ofChars?_point (nonempty : ds ≠ [] ∨ fs ≠ []) (whole : ∀ d ∈ ds, d.isDigit = true)
    (places : ∀ d ∈ fs, d.isDigit = true) :
    Decimal.ofChars? (ds ++ '.' :: fs) = some (.ofParts ds fs) := by
  obtain ⟨taken, left⟩ := @span_eq _ _ ('.' :: fs) whole fun c first => by
    cases first
    rfl
  obtain ⟨takenPlaces, leftPlaces⟩ := @span_eq _ _ [] places fun _ h => by cases h
  rw [List.append_nil] at takenPlaces leftPlaces
  have some : ¬(ds = [] ∧ fs = []) := fun none => nonempty.elim (· none.1) (· none.2)
  simp only [Decimal.ofChars?, taken, left, Decimal.splitFraction, takenPlaces, leftPlaces,
    if_neg some]
  simp [Decimal.exponent?, Decimal.ofParts]

/-- Digits and points are no exponent. -/
theorem eq_nil_of_exponent? (plain : ∀ c ∈ cs, IsPlain c) (h : (Decimal.exponent? cs).isSome) :
    cs = [] := by
  cases cs with
  | nil => rfl
  | cons c cs =>
    have isPlain := plain c List.mem_cons_self
    have letter : ¬c.toLower = 'e' := by
      rw [isPlain.toLower_eq]
      exact isPlain.not rfl (by decide)
    simp [Decimal.exponent?, letter] at h

theorem splitFraction_cases (cs : List Char) :
    (∃ fs, cs = '.' :: fs ∧
      Decimal.splitFraction cs = (fs.takeWhile Char.isDigit, fs.dropWhile Char.isDigit)) ∨
    Decimal.splitFraction cs = ([], cs) := by
  unfold Decimal.splitFraction
  split
  · next fs => exact .inl ⟨fs, rfl, rfl⟩
  · exact .inr rfl

theorem isLiteral_of_ofChars? (plain : ∀ c ∈ cs, IsPlain c) (h : (Decimal.ofChars? cs).isSome) :
    IsLiteral cs := by
  have split : cs.takeWhile Char.isDigit ++ cs.dropWhile Char.isDigit = cs :=
    List.takeWhile_append_dropWhile
  have whole : ∀ d ∈ cs.takeWhile Char.isDigit, d.isDigit = true := fun _ => List.mem_takeWhile_imp
  have plainRest : ∀ c ∈ cs.dropWhile Char.isDigit, IsPlain c := fun c member =>
    plain c (List.dropWhile_subset _ member)
  unfold Decimal.ofChars? at h
  generalize cs.takeWhile Char.isDigit = ds at split whole h
  generalize cs.dropWhile Char.isDigit = rest at split plainRest h
  subst split
  rcases splitFraction_cases rest with ⟨fs, rfl, fraction⟩ | fraction
  · rw [fraction] at h
    dsimp only at h
    split at h
    · cases h
    next some =>
    have plainAfter : ∀ c ∈ fs.dropWhile Char.isDigit, IsPlain c := fun c member =>
      plainRest c (List.mem_cons_of_mem _ (List.dropWhile_subset _ member))
    have ended := eq_nil_of_exponent? plainAfter (by rwa [Option.isSome_map] at h)
    have all : fs.takeWhile Char.isDigit = fs := by
      have parts := List.takeWhile_append_dropWhile (p := Char.isDigit) (l := fs)
      rwa [ended, List.append_nil] at parts
    have places : ∀ d ∈ fs, d.isDigit = true := fun d member =>
      List.mem_takeWhile_imp (all.symm ▸ member)
    rw [all] at some
    by_cases empty : ds = []
    · subst empty
      exact .bare (fun none => some ⟨rfl, none⟩) places
    · exact .point empty whole places
  · rw [fraction] at h
    dsimp only at h
    split at h
    · cases h
    next some =>
    have ended := eq_nil_of_exponent? plainRest (by rwa [Option.isSome_map] at h)
    subst ended
    rw [List.append_nil]
    exact .digits (fun none => some ⟨none, rfl⟩) whole

theorem IsLiteral.plain (h : IsLiteral cs) : ∀ c ∈ cs, IsPlain c := by
  cases h with
  | digits nonempty whole => exact .of_digits whole
  | point nonempty whole places => exact .of_point whole places
  | bare nonempty places => exact @IsPlain.of_point [] _ (List.forall_mem_nil _) places

/-- Of the texts of digits and points, exactly the literals are read as numbers. -/
theorem isSome_numberOfText?_iff (plain : ∀ c ∈ cs, IsPlain c) :
    (numberOfText? (String.ofList cs)).isSome ↔ IsLiteral cs := by
  rw [numberOfText?_eq plain, Option.isSome_map]
  constructor
  · exact isLiteral_of_ofChars? plain
  · intro literal
    cases literal with
    | digits nonempty whole => rw [ofChars?_digits nonempty whole]; rfl
    | point nonempty whole places => rw [ofChars?_point (.inl nonempty) whole places]; rfl
    | @bare fs nonempty places =>
      have read := @ofChars?_point [] _ (.inr nonempty) (List.forall_mem_nil _) places
      rw [List.nil_append] at read
      rw [read]
      rfl

end Reading

section Pieces

variable {ds fs rest : List Char} {point : Bool}

theorem isLiteral_of_apt (h : Apt (literal ds point fs) rest) :
    IsLiteral (literal ds point fs).chars := by
  cases h with
  | whole nonempty digits ends =>
    rw [chars, if_neg (by decide), List.append_nil]
    exact .digits nonempty digits
  | fraction nonempty digits places ends =>
    by_cases empty : ds = []
    · subst empty
      exact .bare (nonempty.resolve_left fun h => h rfl) places
    · exact .point empty digits places

/-- A piece that is a literal is read as the number that it stands for. -/
theorem numberOfText?_of_apt (h : Apt (literal ds point fs) rest) :
    numberOfText? (String.ofList (literal ds point fs).chars) =
      some (Decimal.ofParts ds fs).toFloat := by
  rw [numberOfText?_eq (isLiteral_of_apt h).plain]
  cases h with
  | whole nonempty digits ends =>
    rw [chars, if_neg (by decide), List.append_nil, ofChars?_digits nonempty digits]
    rfl
  | fraction nonempty digits places ends =>
    rw [chars, if_pos rfl, ofChars?_point nonempty digits places]
    rfl

/-- A literal has at most one point. -/
theorem IsLiteral.count_point_le {cs : List Char} (h : IsLiteral cs) : cs.count '.' ≤ 1 := by
  have none {ds : List Char} (digits : ∀ d ∈ ds, d.isDigit = true) : ds.count '.' = 0 := by
    rw [List.count_eq_zero]
    intro member
    cases digits '.' member
  cases h with
  | digits nonempty whole => rw [none whole]; exact Nat.zero_le 1
  | point nonempty whole places =>
    rw [List.count_append, List.count_cons_self, none whole, none places]
  | bare nonempty places => rw [List.count_cons_self, none places]

/-- No longer literal starts where a piece that is a literal does. -/
theorem length_le_of_apt (h : Apt (literal ds point fs) rest) {cs : List Char}
    (start : cs <+: (literal ds point fs).chars ++ rest) (longer : IsLiteral cs) :
    cs.length ≤ (literal ds point fs).chars.length := by
  refine Nat.le_of_not_lt fun lt => ?_
  -- The first character after the piece would be a digit or a second point.
  obtain ⟨more, rfl⟩ : (literal ds point fs).chars <+: cs :=
    List.prefix_of_prefix_length_le (List.prefix_append _ _) start (Nat.le_of_lt lt)
  obtain ⟨after, split⟩ := List.prefix_append_right_inj _ |>.1 start
  obtain ⟨d, more, rfl⟩ := List.exists_cons_of_ne_nil (l := more) fun none => by simp [none] at lt
  subst split
  have plain := longer.plain d (by simp)
  cases h with
  | whole nonempty digits ends =>
    obtain ⟨noDigit, noPoint⟩ := ends d rfl
    exact plain.not noDigit noPoint rfl
  | fraction nonempty digits places ends =>
    have noDigit : d.isDigit = false := ends d rfl
    have onePoint := longer.count_point_le
    rcases plain with digit | rfl
    · rw [noDigit] at digit
      cases digit
    · simp only [chars, if_true, List.count_append, List.count_cons_self] at onePoint
      omega

end Pieces

end DomainColoring
