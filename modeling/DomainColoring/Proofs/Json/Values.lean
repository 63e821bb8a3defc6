import DomainColoring.Proofs.Json.Numbers
import DomainColoring.Proofs.Json.Strings

/-!
# Values are read back

What it means that a text stands for a value (`Spells`), for each form that the writer uses:
strings, numbers, `null`, and objects of such values. A value is read up to the delimiter after it,
and the bound of the reader stays above the length of what is left, since a level or a member uses
up one of the bound and at least one character.
-/

namespace DomainColoring.JsonText

open Json

/-- The text is read as the value before any delimiter, if the bound is above its length. -/
def Spells (cs : List Char) (j : Json) : Prop :=
  ∀ bound rest, cs.length < bound → Delimits rest → readValue bound (cs ++ rest) = some (j, rest)

theorem delimits_nil : Delimits [] := nofun

theorem delimits_comma (cs : List Char) : Delimits (',' :: cs) := by
  rintro c ⟨⟩
  exact .inl rfl

theorem delimits_brace (cs : List Char) : Delimits ('\x7d' :: cs) := by
  rintro c ⟨⟩
  exact .inr rfl

section Scalars

variable {cs : List Char} {j : Json}

theorem Spells.ofChars? (h : Spells cs j) : Json.ofChars? cs = some j := by
  have read := h (2 * cs.length + 1) [] (by omega) delimits_nil
  rw [List.append_nil] at read
  unfold Json.ofChars?
  rw [read]
  rfl

theorem spells_null : Spells ['n', 'u', 'l', 'l'] .null := by
  intro bound rest small _
  cases bound with
  | zero => omega
  | succ bound => rfl

theorem spells_string (text : String) : Spells (string text) (.string (parts text)) := by
  intro bound rest small _
  obtain ⟨body, quoted, read⟩ := readString_string text rest
  rw [quoted] at small ⊢
  cases bound with
  | zero => omega
  | succ bound =>
    change (readString (body ++ rest)).map _ = _
    rw [read]
    rfl

/-- A number begins with its sign or a digit. -/
theorem skipBlank_chars {n : JsonNumber} (form : n.WellFormed) (rest : List Char) :
    skipBlank (n.chars ++ rest) = n.chars ++ rest ∧
      ∀ c ∈ (n.chars ++ rest).head?, c = '-' ∨ c.isDigit = true := by
  obtain ⟨digit, more, digits, isDigit⟩ := form.whole.exists_cons
  obtain ⟨first, tail, shape, start⟩ :
      ∃ first tail, n.chars = first :: tail ∧ (first = '-' ∨ first.isDigit = true) := by
    unfold JsonNumber.chars
    rw [digits]
    cases n.negative with
    | true => exact ⟨'-', _, rfl, .inl rfl⟩
    | false => exact ⟨digit, _, rfl, .inr isDigit⟩
  have visible : isBlank first = false := by
    cases blank : isBlank first with
    | false => rfl
    | true =>
      simp only [isBlank, Bool.or_eq_true, beq_iff_eq, or_assoc] at blank
      rcases blank with rfl | rfl | rfl | rfl <;> rcases start with h | h <;> cases h
  rw [shape, List.cons_append]
  refine ⟨List.dropWhile_cons_of_neg (by simp [visible]), ?_⟩
  rintro c ⟨⟩
  exact start

theorem spells_number {n : JsonNumber} (form : n.WellFormed) : Spells n.chars (.number n) := by
  intro bound rest small ends
  obtain ⟨visible, start⟩ := skipBlank_chars form rest
  cases bound with
  | zero => omega
  | succ bound =>
    rw [readValue, visible]
    split
    -- none of the six other forms of value begins with a sign or a digit
    iterate 6
      next shape =>
        rw [shape] at start
        rcases start _ rfl with h | h <;> cases h
    rw [JsonNumber.readNumber_chars form ends]
    rfl

/-- The value that the text of a machine number is read as. -/
def float (x : Float) : Json := (Json.ofChars? (number x)).getD .null

/-- The machine number that the text of a machine number is read as. -/
def reread (x : Float) : Option Float := (Json.ofChars? (number x)).bind Json.toFloat?

theorem spells_float (x : Float) : Spells (number x) (float x) := by
  have spelled : ∃ j, Spells (number x) j := by
    cases finite : x.isFinite with
    | true =>
      obtain ⟨n, form, text⟩ := JsonNumber.exists_number finite
      exact ⟨.number n, text ▸ spells_number form⟩
    | false => exact ⟨.null, JsonNumber.number_of_not_finite finite ▸ spells_null⟩
  obtain ⟨j, spelled⟩ := spelled
  unfold float
  rw [spelled.ofChars?]
  exact spelled

theorem toFloat?_float (x : Float) : (float x).toFloat? = reread x := by
  unfold reread
  rw [(spells_float x).ofChars?]
  rfl

/-- What is not finite is written as `null`, and that is no number. -/
theorem reread_of_not_finite {x : Float} (infinite : x.isFinite = false) : reread x = none := by
  unfold reread
  rw [JsonNumber.number_of_not_finite infinite, spells_null.ofChars?]
  rfl

/-- The reader multiplies rounded powers of ten, so there are numbers that it misses by a bit. -/
example : reread 2.6713947222403258e-11 ≠ some 2.6713947222403258e-11 := by decide +kernel

theorem spells_count (n : Nat) : Spells (count n) (.number (JsonNumber.ofCount n)) := by
  rw [← JsonNumber.chars_ofCount]
  exact spells_number (JsonNumber.wellFormed_ofCount n)

end Scalars

/-- An object with the members given, their names written out. -/
def record (values : List (String × Json)) : Json :=
  .object (values.map fun member => (parts member.1, member.2))

/-- The texts of the fields stand for the values of the members of the same names, in order. -/
def SpellsFields : List (String × List Char) → List (String × Json) → Prop :=
  List.Forall₂ fun field member => field.1 = member.1 ∧ Spells field.2 member.2

section Objects

variable {fields : List (String × List Char)} {values : List (String × Json)}

/-- One member and the members after its comma, or the last one. -/
theorem readMembers_member {name : String} {cs rest left : List Char} {j : Json} {bound : Nat}
    {others : List (List StringPart × Json)} (spelled : Spells cs j) (small : cs.length < bound)
    (tail : (∃ more, rest = ',' :: more ∧ readMembers bound more = some (others, left)) ∨
      rest = '\x7d' :: left ∧ others = []) :
    readMembers (bound + 1) (string name ++ ':' :: cs ++ rest) =
      some ((parts name, j) :: others, left) := by
  have ends : Delimits rest := by
    rcases tail with ⟨more, rfl, -⟩ | ⟨rfl, -⟩
    · exact delimits_comma more
    · exact delimits_brace left
  obtain ⟨body, quoted, read⟩ := readString_string name (':' :: (cs ++ rest))
  have value := spelled bound rest small ends
  have opened : skipBlank ('"' :: (body ++ ':' :: (cs ++ rest))) =
      '"' :: (body ++ ':' :: (cs ++ rest)) := rfl
  have colon : skipBlank (':' :: (cs ++ rest)) = ':' :: (cs ++ rest) := rfl
  rw [quoted, List.append_assoc, List.cons_append, List.cons_append, readMembers, opened]
  simp only [read, Option.bind_eq_bind, Option.bind_some, colon, value]
  rcases tail with ⟨more, rfl, following⟩ | ⟨rfl, rfl⟩
  · have comma : skipBlank (',' :: more) = ',' :: more := rfl
    simp only [comma, following, Option.bind_some]
  · have brace : skipBlank ('\x7d' :: left) = '\x7d' :: left := rfl
    simp only [brace]

theorem readMembers_members (h : SpellsFields fields values) (some : fields ≠ []) {bound : Nat}
    (small : (members fields).length < bound) (rest : List Char) :
    readMembers bound (members fields ++ '\x7d' :: rest) =
      .some (values.map fun member => (parts member.1, member.2), rest) := by
  induction h generalizing bound with
  | nil => exact absurd rfl some
  | @cons field member fields values first more ih =>
    obtain ⟨name, cs⟩ := field
    obtain ⟨same, j⟩ := member
    obtain ⟨rfl, spelled⟩ := first
    have spelled : Spells cs j := spelled
    cases bound with
    | zero => omega
    | succ bound =>
      cases fields with
      | nil =>
        cases more
        have short : cs.length < bound := by
          simp only [members, List.length_append, List.length_cons] at small
          omega
        exact readMembers_member spelled short (.inr ⟨rfl, rfl⟩)
      | cons next fields =>
        have text : members ((name, cs) :: next :: fields) =
            string name ++ ':' :: cs ++ ',' :: members (next :: fields) := rfl
        rw [text] at small ⊢
        simp only [List.length_append, List.length_cons] at small
        have shorter : (members (next :: fields)).length < bound := by omega
        have left := ih (List.cons_ne_nil next fields) shorter
        rw [List.append_assoc, List.cons_append]
        exact readMembers_member spelled (by omega) (.inl ⟨_, rfl, left⟩)

/-- The members of an object begin with the name of the first. -/
theorem members_cons (field : String × List Char) (fields : List (String × List Char)) :
    ∃ body, members (field :: fields) = '"' :: body := by
  cases fields with
  | nil => exact ⟨_, rfl⟩
  | cons next fields => exact ⟨_, rfl⟩

theorem spells_object (h : SpellsFields fields values) :
    Spells (object fields) (record values) := by
  intro bound rest small _
  cases bound with
  | zero => omega
  | succ bound =>
    cases h with
    | nil => rfl
    | @cons field member fields values first more =>
      simp only [object, List.length_append, List.length_cons] at small
      have inside : (members (field :: fields)).length < bound := by omega
      have read :=
        readMembers_members (.cons first more) (List.cons_ne_nil field fields) inside rest
      obtain ⟨body, quoted⟩ := members_cons field fields
      have text : object (field :: fields) ++ rest =
          '\x7b' :: (members (field :: fields) ++ '\x7d' :: rest) := by simp [object]
      rw [text]
      rw [quoted] at read ⊢
      change (readMembers bound ('"' :: body ++ '\x7d' :: rest)).map _ = _
      rw [read]
      rfl

end Objects

end DomainColoring.JsonText
