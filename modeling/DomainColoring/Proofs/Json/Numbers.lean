import DomainColoring.Json.Reader
import DomainColoring.Json.Writer
import DomainColoring.Proofs.Decimal.Reading
import DomainColoring.Proofs.Scalar.Quotient
import DomainColoring.Proofs.Token.Cutting

/-!
# Numbers as JSON

What is written for a finite machine number or for a count follows the grammar of JSON numbers, so
it is read up to the delimiter after it (`readNumber_chars`) whatever its digits are. A count is
read as itself; whether the digits of a machine number are read as that number is left to the
arithmetic of the reader.
-/

namespace DomainColoring

/-- The characters after a value that end it: nothing, or a comma or a closing brace. -/
def Delimits (cs : List Char) : Prop := ∀ c ∈ cs.head?, c = ',' ∨ c = '\x7d'

theorem Delimits.refuses {p : Char → Bool} {cs : List Char} (h : Delimits cs)
    (comma : p ',' = false) (brace : p '\x7d' = false) : ∀ c ∈ cs.head?, p c = false := by
  intro c first
  rcases h c first with rfl | rfl
  · exact comma
  · exact brace

namespace Binary64

open Float.Model.UnpackedFloat (Sign)

variable {x y : Float} {s : Sign} {m : Nat} {e : Int} {pos : 0 < m}

theorem isFinite_neg (finite : x.isFinite = true) : (-x).isFinite = true := by
  have finite : (exactValue x).isFinite = true := finite
  change (exactValue (-x)).isFinite = true
  rw [exactValue_neg]
  cases read : exactValue x <;> rw [read] at finite <;> first | rfl | cases finite

/-- A product by one is exact. -/
theorem exactValue_mul_one (h : exactValue x = .finite s m e pos)
    (one : exactValue y = .finite .positive (2 ^ 52) (-52) (Nat.two_pow_pos 52)) :
    exactValue (x * y) = .finite s m e pos := by
  have canonical := canonical_of_unpack h
  have product := round_of_canonical s pos canonical 52
  have sign : s * Sign.positive = s := by cases s <;> rfl
  change (Float.Model.pack (Float.Model.UnpackedFloat.mul .binary64 (exactValue x)
    (exactValue y))).unpack = _
  rw [h, one]
  change (Float.Model.pack (Float.Model.UnpackedFloat.roundWithAccuracy .binary64 (s * .positive)
    (m * 2 ^ 52) (e + -(52 : Nat)) .exact)).unpack = _
  rw [sign, ← Int.sub_eq_add_neg, product]
  exact unpack_pack_of_canonical s pos canonical

end Binary64

/-- A decimal that is read as a positive number, with its zeros written out, has digits. -/
theorem Decimal.digits_pos_of_expand {d : Decimal} {s : Float.Model.UnpackedFloat.Sign} {m : Nat}
    {e : Int} {pos : 0 < m} (h : Binary64.exactValue d.expand.toFloat = .finite s m e pos) :
    0 < d.digits := by
  refine Nat.pos_of_ne_zero fun none => ?_
  have digits : d.expand.digits = 0 := by
    unfold Decimal.expand
    split
    · rw [none]
      exact Nat.zero_mul _
    · exact none
  have zero : Float.Model.ofScientific d.expand.digits d.expand.exponent =
      .pack (.zero .positive) := by
    rw [digits]
    unfold Float.Model.ofScientific Float.Model.UnpackedFloat.ofScientific
    rw [dif_pos rfl]
  unfold Decimal.toFloat at h
  rw [zero] at h
  cases h

namespace JsonNumber

/-- Decimal digits, and at least one. -/
def Digits (cs : List Char) : Prop := cs ≠ [] ∧ ∀ c ∈ cs, c.isDigit = true

/-- What the grammar of numbers asks for: digits before the point, of which the first is zero only
if it stands alone, and digits after it. -/
structure WellFormed (n : JsonNumber) : Prop where
  whole : Digits n.whole
  leading : n.whole.head? = some '0' → n.whole.length = 1
  fraction : ∀ ds ∈ n.fraction, Digits ds

/-- An exponent with its letter and its sign, which is always written. -/
def exponentChars (e : Int) : List Char :=
  'e' :: (if e < 0 then [] else ['+']) ++ Decimal.exponentText e

/-- The text of a number. -/
def chars (n : JsonNumber) : List Char :=
  (if n.negative then ['-'] else []) ++
    (n.whole ++ (n.fraction.elim [] ('.' :: ·) ++ n.exponent.elim [] exponentChars))

section Reading

open Json

variable {ds rest : List Char}

theorem digits_toDigits (n : Nat) : Digits (Nat.toDigits 10 n) :=
  ⟨Nat.toDigits_ne_nil, Decimal.isDigit_toDigits n⟩

theorem Digits.exists_cons (h : Digits ds) : ∃ c cs, ds = c :: cs ∧ c.isDigit = true := by
  obtain ⟨some, digits⟩ := h
  cases ds with
  | nil => exact absurd rfl some
  | cons c cs => exact ⟨c, cs, rfl, digits c (List.mem_cons_self)⟩

theorem readDigits_append (h : Digits ds) (stops : ∀ c ∈ rest.head?, c.isDigit = false) :
    readDigits (ds ++ rest) = some (ds, rest) := by
  obtain ⟨taken, left⟩ := span_eq h.2 stops
  rw [readDigits, taken, left]
  cases ds with
  | nil => exact absurd rfl h.1
  | cons c cs => rfl

theorem readMinus_digits (negative : Bool) (h : Digits ds) :
    readMinus ((if negative then ['-'] else []) ++ (ds ++ rest)) = (negative, ds ++ rest) := by
  cases negative with
  | true => rfl
  | false =>
    obtain ⟨c, cs, rfl, digit⟩ := h.exists_cons
    unfold readMinus
    split
    · next minus =>
      cases minus
      cases digit
    · rfl

theorem readWhole_append (h : Digits ds) (leading : ds.head? = some '0' → ds.length = 1)
    (stops : ∀ c ∈ rest.head?, c.isDigit = false) :
    readWhole (ds ++ rest) = some (ds, rest) := by
  have alone : ¬((decide (ds.head? = some '0') && decide (ds.length ≠ 1)) = true) := by
    simp only [Bool.and_eq_true, decide_eq_true_eq]
    exact fun zero => zero.2 (leading zero.1)
  rw [readWhole, readDigits_append h stops]
  exact if_neg alone

theorem readFraction_append {fraction : Option (List Char)} (h : ∀ ds ∈ fraction, Digits ds)
    (stops : ∀ c ∈ rest.head?, c.isDigit = false ∧ c ≠ '.') :
    readFraction (fraction.elim [] ('.' :: ·) ++ rest) = some (fraction, rest) := by
  cases fraction with
  | some ds =>
    change (readDigits (ds ++ rest)).map _ = _
    rw [readDigits_append (h ds rfl) fun c first => (stops c first).1]
    rfl
  | none =>
    change readFraction rest = _
    unfold readFraction
    split
    · next point => exact absurd rfl (stops '.' rfl).2
    · rfl

theorem readSigned_exponentText (e : Int) (stops : ∀ c ∈ rest.head?, c.isDigit = false) :
    readSigned ((if e < 0 then [] else ['+']) ++ Decimal.exponentText e ++ rest) =
      some (e, rest) := by
  have read := readDigits_append (digits_toDigits e.natAbs) stops
  unfold Decimal.exponentText
  by_cases negative : e < 0
  · have value : -(e.natAbs : Int) = e := by omega
    rw [if_pos negative, if_pos negative]
    simp only [List.nil_append, List.cons_append, readSigned, read, Option.map_some,
      Decimal.ofDigits_toDigits, value]
  · have value : (e.natAbs : Int) = e := by omega
    rw [if_neg negative, if_neg negative]
    simp only [List.nil_append, List.cons_append, readSigned, read, Option.map_some,
      Decimal.ofDigits_toDigits, value]

theorem readExponent_append (exponent : Option Int) (ends : Delimits rest) :
    readExponent (exponent.elim [] exponentChars ++ rest) = some (exponent, rest) := by
  cases exponent with
  | some e =>
    change (readSigned ((if e < 0 then [] else ['+']) ++ Decimal.exponentText e ++ rest)).map _ = _
    rw [readSigned_exponentText e (ends.refuses rfl rfl)]
    rfl
  | none =>
    change readExponent rest = _
    unfold readExponent
    split
    · next small => rcases ends 'e' rfl with h | h <;> cases h
    · next large => rcases ends 'E' rfl with h | h <;> cases h
    · rfl

/-- Neither a fraction nor an exponent begins with a digit, and an exponent not with a point. -/
theorem head?_tail (exponent : Option Int) (ends : Delimits rest) :
    ∀ c ∈ (exponent.elim [] exponentChars ++ rest).head?, c.isDigit = false ∧ c ≠ '.' := by
  intro c first
  cases exponent with
  | some e =>
    cases first
    decide
  | none => rcases ends c first with rfl | rfl <;> decide

/-- A well-formed number is read up to the delimiter that follows it. -/
theorem readNumber_chars {n : JsonNumber} (h : n.WellFormed) (ends : Delimits rest) :
    readNumber (n.chars ++ rest) = some (n, rest) := by
  have tail := head?_tail n.exponent ends
  have stops : ∀ c ∈ (n.fraction.elim [] ('.' :: ·) ++
      (n.exponent.elim [] exponentChars ++ rest)).head?, c.isDigit = false := by
    intro c first
    cases fraction : n.fraction with
    | some ds =>
      rw [fraction] at first
      cases first
      rfl
    | none =>
      rw [fraction] at first
      exact (tail c first).1
  simp only [chars, List.append_assoc]
  rw [readNumber, readMinus_digits n.negative h.whole]
  simp only
  rw [readWhole_append h.whole h.leading stops]
  simp only [Option.bind_eq_bind, Option.bind_some]
  rw [readFraction_append h.fraction tail, Option.bind_some, readExponent_append n.exponent ends]
  rfl

end Reading

section Writing

variable {cs ds : List Char}

theorem Digits.append (h : ∀ c ∈ cs, c.isDigit = true) (more : Digits ds) : Digits (cs ++ ds) := by
  refine ⟨List.append_ne_nil_of_right_ne_nil cs more.1, fun c inside => ?_⟩
  rcases List.mem_append.1 inside with first | second
  · exact h c first
  · exact more.2 c second

theorem Digits.take (h : Digits ds) {k : Nat} (pos : 0 < k) : Digits (ds.take k) := by
  refine ⟨fun empty => ?_, fun c inside => h.2 c (List.mem_of_mem_take inside)⟩
  rcases List.take_eq_nil_iff.1 empty with zero | none
  · omega
  · exact h.1 none

theorem Digits.drop (h : Digits ds) {k : Nat} (short : k < ds.length) : Digits (ds.drop k) := by
  refine ⟨fun empty => ?_, fun c inside => h.2 c (List.mem_of_mem_drop inside)⟩
  have long := List.drop_eq_nil_iff.1 empty
  omega

/-- The digits of a number do not begin with zero unless it is zero. -/
theorem head?_toDigits {n : Nat} (pos : 0 < n) : (Nat.toDigits 10 n).head? ≠ some '0' := by
  induction n using Nat.strongRecOn with
  | ind n ih =>
    rw [Nat.toDigits_eq_if (by decide)]
    split
    · next single =>
      interval_cases n <;> decide
    · next long =>
      rw [List.head?_append_of_ne_nil _ Nat.toDigits_ne_nil]
      exact ih (n / 10) (by omega) (by omega)

/-- The text of a well-formed number without a sign. -/
def Numeral (cs : List Char) : Prop :=
  ∃ n : JsonNumber, n.WellFormed ∧ n.negative = false ∧ n.chars = cs

theorem numeral_of_point (whole : Digits cs) (leading : cs.head? ≠ some '0' ∨ cs = ['0'])
    (fraction : Digits ds) : Numeral (cs ++ '.' :: ds) := by
  refine ⟨⟨false, cs, some ds, none⟩, ⟨whole, fun zero => ?_, fun _ h => ?_⟩, rfl, ?_⟩
  · rcases leading with no | alone
    · exact absurd zero no
    · exact congrArg List.length alone
  · cases h
    exact fraction
  · simp [chars]

section Layout

variable {d : Decimal}

/-- Positional text without a fraction is given one of zero. -/
theorem numeral_positional_zero (pos : 0 < d.digits) (whole : 0 ≤ d.exponent) :
    Numeral (d.positional ++ ['.', '0']) := by
  have digits := digits_toDigits d.digits
  have filled : Digits (Nat.toDigits 10 d.digits ++ List.replicate d.exponent.toNat '0') := by
    refine ⟨List.append_ne_nil_of_left_ne_nil digits.1 _, fun c inside => ?_⟩
    rcases List.mem_append.1 inside with digit | zero
    · exact digits.2 c digit
    · exact Decimal.isDigit_replicate _ c zero
  unfold Decimal.positional
  dsimp only
  rw [if_pos whole]
  refine numeral_of_point filled (.inl ?_) (digits_toDigits 0)
  rw [List.head?_append_of_ne_nil _ digits.1]
  exact head?_toDigits pos

/-- Positional text with a fraction has a point, among the digits or before them. -/
theorem numeral_positional (pos : 0 < d.digits) (fraction : ¬0 ≤ d.exponent) :
    Numeral d.positional := by
  have digits := digits_toDigits d.digits
  have places : 0 < (-d.exponent).toNat := by omega
  unfold Decimal.positional
  dsimp only
  rw [if_neg fraction]
  split
  · next inside =>
    refine numeral_of_point (digits.take (by omega)) (.inl ?_) (digits.drop (by omega))
    rw [List.head?_take, if_neg (by omega)]
    exact head?_toDigits pos
  · exact numeral_of_point (digits_toDigits 0) (.inr rfl)
      (Digits.append (Decimal.isDigit_replicate _) digits)

/-- Scientific notation has one digit before the point, and no point if no other digits follow. -/
theorem numeral_scientific (d : Decimal) (order : Int) :
    Numeral (d.significand ++ exponentChars order) := by
  have digits := digits_toDigits d.digits
  obtain ⟨c, r, shape, digit⟩ := digits.exists_cons
  have first : Digits [c] := ⟨List.cons_ne_nil c [], by simpa using digit⟩
  unfold Decimal.significand
  rw [shape] at digits ⊢
  cases r with
  | nil => exact ⟨⟨false, [c], none, some order⟩, ⟨first, fun _ => rfl, nofun⟩, rfl, rfl⟩
  | cons x xs =>
    have more : Digits (x :: xs) :=
      ⟨List.cons_ne_nil x xs, fun y h => digits.2 y (List.mem_cons_of_mem c h)⟩
    refine ⟨⟨false, [c], some (x :: xs), some order⟩, ⟨first, fun _ => rfl, ?_⟩, rfl, rfl⟩
    intro ds h
    cases h
    exact more

theorem numeral_layout (pos : 0 < d.digits) : Numeral (JsonText.layout d) := by
  unfold JsonText.layout
  dsimp only
  split
  · split
    · next whole => exact numeral_positional_zero pos whole
    · next fraction => exact numeral_positional pos fraction
  · rw [List.append_assoc]
    exact numeral_scientific d d.order

end Layout

theorem Numeral.signed (h : Numeral cs) (s : Float.Model.UnpackedFloat.Sign) :
    ∃ n : JsonNumber, n.WellFormed ∧ n.chars = NumberText.signed s cs := by
  obtain ⟨n, form, unsigned, rfl⟩ := h
  cases s with
  | positive => exact ⟨n, form, rfl⟩
  | negative =>
    refine ⟨{ n with negative := true }, ⟨form.whole, form.leading, form.fraction⟩, ?_⟩
    simp [chars, NumberText.signed, unsigned]

/-- What is finite is written as a well-formed number. -/
theorem exists_number {x : Float} (finite : x.isFinite = true) :
    ∃ n : JsonNumber, n.WellFormed ∧ n.chars = JsonText.number x := by
  have finite : (Binary64.exactValue x).isFinite = true := finite
  unfold JsonText.number NumberText.render
  split
  · next h => rw [h] at finite; cases finite
  · next h => rw [h] at finite; cases finite
  · next h => rw [h] at finite; cases finite
  · next s h =>
    exact (numeral_of_point (digits_toDigits 0) (.inr rfl) (digits_toDigits 0)).signed s
  · next s m e pos h =>
    have value := Binary64.exactValue_abs h
    have read : (Decimal.shortest .even x.abs m e).expand.toFloat = x.abs :=
      of_decide_eq_true (Decimal.shortest_readsAs .even value)
    rw [← read] at value
    exact (numeral_layout (Decimal.digits_pos_of_expand value)).signed s

theorem number_of_not_finite {x : Float} (infinite : x.isFinite = false) :
    JsonText.number x = ['n', 'u', 'l', 'l'] := by
  have infinite : (Binary64.exactValue x).isFinite = false := infinite
  unfold JsonText.number NumberText.render
  split
  · rfl
  · rfl
  · rfl
  · next h => rw [h] at infinite; cases infinite
  · next h => rw [h] at infinite; cases infinite

end Writing

section Counts

/-- A natural number as it is written. -/
def ofCount (n : Nat) : JsonNumber := ⟨false, Nat.toDigits 10 n, none, none⟩

theorem wellFormed_ofCount (n : Nat) : (ofCount n).WellFormed where
  whole := digits_toDigits n
  leading zero := by
    cases n with
    | zero => rfl
    | succ n => exact absurd zero (head?_toDigits (Nat.succ_pos n))
  fraction := nofun

theorem chars_ofCount (n : Nat) : (ofCount n).chars = JsonText.count n := by
  simp [chars, ofCount, JsonText.count]

theorem toUInt32?_ofCount (n : UInt32) : (ofCount n.toNat).toUInt32? = some n := by
  have value : Decimal.ofDigits (ofCount n.toNat).whole = n.toNat :=
    Decimal.ofDigits_toDigits n.toNat
  unfold toUInt32?
  rw [value]
  simp only [ofCount, Bool.false_or, Option.isSome_none, Bool.false_eq_true, if_false]
  rw [if_pos n.toNat_lt_size, UInt32.ofNat_toNat]

theorem le_foldl (cs : List Char) (n : Nat) :
    n ≤ cs.foldl (fun n c => 10 * n + (c.toNat - '0'.toNat)) n := by
  induction cs generalizing n with
  | nil => exact Nat.le_refl n
  | cons c cs ih => exact Nat.le_trans (by omega) (ih (10 * n + (c.toNat - '0'.toNat)))

/-- Digits of a number that fits are all appended: the number of the first few is no larger. -/
theorem appendDigits_eq (cs : List Char) (n : Nat)
    (fits : cs.foldl (fun n c => 10 * n + (c.toNat - '0'.toNat)) n ≤ maxCount) :
    appendDigits n cs = (cs.foldl (fun n c => 10 * n + (c.toNat - '0'.toNat)) n, []) := by
  induction cs generalizing n with
  | nil => rfl
  | cons c cs ih =>
    have first := Nat.le_trans (le_foldl cs (10 * n + (c.toNat - '0'.toNat))) fits
    rw [appendDigits, if_pos first]
    exact ih _ fits

theorem scaled_ofCount {n : Nat} (fits : n ≤ maxCount) : (ofCount n).scaled = ⟨n, 0⟩ := by
  have value := Decimal.ofDigits_toDigits n
  unfold Decimal.ofDigits at value
  have appended := appendDigits_eq (Nat.toDigits 10 n) 0 (by rw [value]; exact fits)
  rw [value] at appended
  unfold scaled ofCount
  rw [appended]
  rfl

/-- A count that fits a word is in range as a number. -/
theorem isSome_toFloat?_ofCount (n : UInt32) : (ofCount n.toNat).toFloat?.isSome = true := by
  have small : n.toNat < 2 ^ 32 := n.toNat_lt
  have scaled := scaled_ofCount (Nat.le_trans small.le (by decide : 2 ^ 32 ≤ maxCount))
  have finite : (ofCount n.toNat).magnitude.isFinite = true := by
    unfold magnitude
    rw [scaled]
    dsimp only
    by_cases zero : n.toNat = 0
    · rw [if_pos zero, zero]
      decide
    · rw [if_neg zero, if_neg (by decide)]
      have whole := Binary64.exactValue_toFloat (Nat.pos_of_ne_zero zero) (by omega)
      have value := Binary64.exactValue_mul_one (y := powerOfTen 0) whole rfl
      change (Binary64.exactValue _).isFinite = true
      rw [Int.toNat_zero, value]
      rfl
  unfold toFloat?
  dsimp only
  rw [if_pos finite]
  rfl

end Counts

/-- What is read as a machine number is finite. -/
theorem isFinite_of_toFloat? {n : JsonNumber} {x : Float} (h : n.toFloat? = some x) :
    x.isFinite = true := by
  unfold toFloat? at h
  dsimp only at h
  split at h
  · next finite =>
    cases h
    split
    · exact Binary64.isFinite_neg finite
    · exact finite
  · cases h

end JsonNumber
end DomainColoring
