import DomainColoring.Proofs.Token.Partition

/-!
# Scanning a text in place

Going through the characters and the bytes of a text side by side finds its tokens. After each piece the
scanner stands before the next one (`step_of_apt`); so it cuts texts only where characters begin, and it
never meets a literal that it cannot read (`scan_eq`).
-/

namespace DomainColoring

open Lexeme

section Literals

variable {text : String} {before ds fs rest : List Char} {point : Bool}

theorem digitsEnd_eq_ite (bytes : ByteArray) (i : Nat) :
    digitsEnd bytes i = if bytes[i]?.any isDigitByte then digitsEnd bytes (i + 1) else i := by
  rw [digitsEnd]
  split
  · next inside =>
    rw [getElem?_pos bytes i inside]
    rfl
  · next outside =>
    rw [getElem?_neg bytes i outside]
    rfl

theorem utf8Size_of_isDigit {d : Char} (digit : d.isDigit = true) : d.utf8Size = 1 := by
  rw [Char.utf8Size_eq_one_iff]
  simp only [Char.isDigit, Bool.and_eq_true, decide_eq_true_eq] at digit
  exact UInt32.le_trans digit.2 (by decide)

/-- Digits end in the bytes where they end among the characters. -/
theorem digitsEnd_eq (split : text.toList = before ++ ds ++ rest)
    (digits : ∀ d ∈ ds, d.isDigit = true) (stops : ∀ d ∈ rest.head?, d.isDigit = false) :
    digitsEnd text.toByteArray (byteLength before) = byteLength (before ++ ds) := by
  induction ds generalizing before with
  | nil =>
    have other : rest.head?.any Char.isDigit = false := by
      cases rest with
      | nil => rfl
      | cons d rest => exact stops d rfl
    rw [List.append_nil] at split ⊢
    rw [digitsEnd_eq_ite, any_isDigitByte split, other]
    rfl
  | cons d ds ih =>
    have digit : d.isDigit = true := digits d List.mem_cons_self
    have next : byteLength before + 1 = byteLength (before ++ [d]) := by
      rw [byteLength_append, byteLength, byteLength, utf8Size_of_isDigit digit]
    have first : text.toByteArray[byteLength before]?.any isDigitByte = true := by
      rw [any_isDigitByte (split.trans (List.append_assoc _ _ _))]
      exact digit
    rw [digitsEnd_eq_ite, if_pos first, next,
      ih (by simpa using split) fun d later => digits d (List.mem_cons_of_mem _ later)]
    simp

/-- Digits on both sides of a point end in the bytes where they end among the characters; a point without
digits ends where it starts. -/
theorem literalEnd_point (split : text.toList = before ++ ds ++ '.' :: (fs ++ rest))
    (digits : ∀ d ∈ ds, d.isDigit = true) (places : ∀ d ∈ fs, d.isDigit = true)
    (ends : ∀ d ∈ rest.head?, d.isDigit = false) :
    literalEnd text.toByteArray (byteLength before) =
      if ds = [] ∧ fs = [] then byteLength before else byteLength (before ++ (ds ++ '.' :: fs)) := by
  have whole : digitsEnd text.toByteArray (byteLength before) = byteLength (before ++ ds) :=
    digitsEnd_eq split digits fun d first => by
      cases first
      rfl
  have point : text.toByteArray[byteLength (before ++ ds)]? = some pointByte :=
    (eq_pointByte_iff split).2 rfl
  have after : byteLength (before ++ ds) + 1 = byteLength (before ++ ds ++ ['.']) := by
    rw [@byteLength_append (before ++ ds)]
    rfl
  have fraction : digitsEnd text.toByteArray (byteLength (before ++ ds) + 1) =
      byteLength (before ++ ds ++ ['.'] ++ fs) := by
    rw [after]
    exact digitsEnd_eq (by simpa using split) places ends
  have one : '.'.utf8Size = 1 := rfl
  unfold literalEnd
  rw [whole, if_pos point, fraction]
  by_cases none : ds = [] ∧ fs = []
  · obtain ⟨rfl, rfl⟩ := none
    rw [if_neg, if_pos ⟨rfl, rfl⟩, List.append_nil]
    simp [byteLength_append, byteLength, one]
  · rw [if_neg none, if_pos]
    · simp
    · simp only [byteLength_append, byteLength, one]
      rcases Decidable.not_and_iff_not_or_not.1 none with some | some
      · have length := byteLength_pos some
        omega
      · have length := byteLength_pos some
        omega

/-- A literal ends in the bytes where it ends among the characters. -/
theorem literalEnd_of_apt (apt : Apt (literal ds point fs) rest)
    (split : text.toList = before ++ (literal ds point fs).chars ++ rest) :
    literalEnd text.toByteArray (byteLength before) =
      byteLength (before ++ (literal ds point fs).chars) := by
  cases apt with
  | whole nonempty digits ends =>
    have whole : (literal ds false []).chars = ds := List.append_nil ds
    rw [whole] at split ⊢
    have noPoint : ¬text.toByteArray[byteLength (before ++ ds)]? = some pointByte := by
      rw [eq_pointByte_iff split]
      exact fun first => (ends '.' first).2 rfl
    unfold literalEnd
    rw [digitsEnd_eq split digits fun d first => (ends d first).1]
    exact if_neg noPoint
  | fraction nonempty digits places ends =>
    have some : ¬(ds = [] ∧ fs = []) := fun none => nonempty.elim (· none.1) (· none.2)
    rw [literalEnd_point (by simpa [chars] using split) digits places ends, if_neg some]
    rfl

end Literals

section Places

variable {goesOn : Nat → Char → Bool} {cs rest : List Char} {offset : Nat}

/-- Characters are taken up to the first one with which it does not go on. -/
theorem placeAfter_append
    (goes : ∀ before c after, cs = before ++ c :: after → goesOn (offset + byteLength before) c = true)
    (stops : ∀ d ∈ rest.head?, goesOn (offset + byteLength cs) d = false) :
    placeAfter goesOn offset (cs ++ rest) = ⟨offset + byteLength cs, rest⟩ := by
  induction cs generalizing offset with
  | nil =>
    cases rest with
    | nil => rfl
    | cons d rest =>
      have stop : goesOn offset d = false := stops d rfl
      rw [List.nil_append, placeAfter, if_neg (by rw [stop]; exact Bool.false_ne_true)]
      rfl
  | cons c cs ih =>
    have first : goesOn offset c = true := goes [] c cs rfl
    rw [List.cons_append, placeAfter, if_pos first, ih, byteLength, Nat.add_assoc]
    · intro before d after split
      rw [Nat.add_assoc]
      exact goes (c :: before) d after (congrArg (c :: ·) split)
    · intro d next
      rw [Nat.add_assoc]
      exact stops d next

/-- Characters are taken up to the first one that does not belong to them. -/
theorem placeAfter_class {p : Char → Bool} (inside : ∀ c ∈ cs, p c = true)
    (stops : ∀ d ∈ rest.head?, p d = false) (offset : Nat) :
    placeAfter (fun _ d => p d) offset (cs ++ rest) = ⟨offset + byteLength cs, rest⟩ :=
  placeAfter_append (fun _ c _ split => inside c (by simp [split])) stops

/-- Characters are taken up to an offset. -/
theorem placeAfter_offset (cs rest : List Char) (offset : Nat) :
    placeAfter (fun i _ => i < offset + byteLength cs) offset (cs ++ rest) =
      ⟨offset + byteLength cs, rest⟩ := by
  refine placeAfter_append (fun before c after split => decide_eq_true ?_)
    fun _ _ => decide_eq_false (Nat.lt_irrefl _)
  rw [split, byteLength_append]
  have length := byteLength_pos (List.cons_ne_nil c after)
  omega

end Places

namespace Scanner

section Steps

variable {text : String} {before rest : List Char} {s : Scanner}

/-- The scanner behind a piece, which the characters `rest` follow. -/
def past (s : Scanner) (l : Lexeme) (rest : List Char) : Scanner where
  place := ⟨s.place.offset + byteLength l.chars, rest⟩
  found := ⟨s.found.tokens ++ (tokenAt? (s.place.offset, l)).toList,
    s.found.skipped ++ (skippedAt? (s.place.offset, l)).toList⟩
  unreadable := s.unreadable

theorem goTo_emit {l : Lexeme} {k : TokenKind} (known : l.token? = some k) :
    (s.emit k).goTo ⟨s.place.offset + byteLength l.chars, rest⟩ = s.past l rest := by
  cases l with
  | blank c => cases known
  | stray c => cases known
  | _ => simp [past, emit, goTo, tokenAt?, known, skippedAt?]

theorem goTo_drop (c : Char) :
    (s.drop c).goTo ⟨s.place.offset + c.utf8Size, rest⟩ = s.past (.stray c) rest := by
  simp [past, drop, goTo, tokenAt?, token?, skippedAt?, chars, byteLength]

theorem goTo_blank (c : Char) :
    s.goTo ⟨s.place.offset + c.utf8Size, rest⟩ = s.past (.blank c) rest := by
  simp [past, goTo, tokenAt?, token?, skippedAt?, chars, byteLength]

/-- The characters of a piece are cut out of a text. -/
theorem sliceBetween?_here {cs : List Char} (here : s.place.offset = byteLength before)
    (split : text.toList = before ++ cs ++ rest) :
    sliceBetween? text s.place.offset (s.place.offset + byteLength cs) = some (String.ofList cs) := by
  rw [here, ← byteLength_append]
  exact sliceBetween?_eq split

theorem scanWord_eq {c : Char} {cs : List Char} (here : s.place.offset = byteLength before)
    (split : text.toList = before ++ c :: cs ++ rest) (starts : startsWord c = true)
    (more : ∀ d ∈ cs, continuesWord d = true) (ends : ∀ d ∈ rest.head?, continuesWord d = false) :
    scanWord text s c (cs ++ rest) = some (s.past (.word (c :: cs)) rest) := by
  have place := placeAfter_class (continuesWord_of_mem starts more) ends s.place.offset
  rw [List.cons_append] at place
  simp only [scanWord, place, sliceBetween?_here here split, Option.bind_eq_bind, Option.bind_some]
  exact congrArg some (goTo_emit (l := .word (c :: cs)) rfl)

theorem scanLiteral_eq {ds fs cs : List Char} {point : Bool} {c : Char}
    (apt : Apt (.literal ds point fs) rest) (here : s.place.offset = byteLength before)
    (split : text.toList = before ++ (Lexeme.literal ds point fs).chars ++ rest)
    (piece : (Lexeme.literal ds point fs).chars = c :: cs) :
    scanLiteral text s c (cs ++ rest) = some (s.past (.literal ds point fs) rest) := by
  have last : literalEnd text.toByteArray s.place.offset =
      s.place.offset + byteLength (Lexeme.literal ds point fs).chars := by
    rw [here, literalEnd_of_apt apt split, byteLength_append]
  have length := byteLength_pos apt.chars_ne_nil
  have moves : ¬literalEnd text.toByteArray s.place.offset = s.place.offset := by omega
  have place := placeAfter_offset (Lexeme.literal ds point fs).chars rest s.place.offset
  rw [piece, List.cons_append, ← piece] at place
  have slice := sliceBetween?_here here split
  have value := numberOfText?_of_apt apt
  unfold scanLiteral
  simp only [last] at moves ⊢
  simp only [if_neg moves, place, slice, value, Option.bind_eq_bind, Option.bind_some]
  exact congrArg some (goTo_emit rfl)

/-- A point that starts no literal is skipped. -/
theorem scanLiteral_point (here : s.place.offset = byteLength before)
    (split : text.toList = before ++ '.' :: rest) (lone : ∀ d ∈ rest.head?, d.isDigit = false) :
    scanLiteral text s '.' rest = some (s.past (.stray '.') rest) := by
  have last : literalEnd text.toByteArray s.place.offset = s.place.offset := by
    have split : text.toList = before ++ [] ++ '.' :: ([] ++ rest) := by simpa using split
    rw [here, literalEnd_point split (List.forall_mem_nil _) (List.forall_mem_nil _) lone]
    rfl
  unfold scanLiteral
  rw [if_pos last, goTo_drop]

/-- The scanner that stands before a piece goes past it. -/
theorem step_of_apt {l : Lexeme} (apt : Apt l rest) (here : s.place.offset = byteLength before)
    (split : text.toList = before ++ l.chars ++ rest) :
    ∃ c cs, l.chars = c :: cs ∧ step text s c (cs ++ rest) = some (s.past l rest) := by
  cases l with
  | blank c =>
    cases apt with
    | blank space =>
      refine ⟨c, [], rfl, ?_⟩
      simp only [step, space, if_true]
      exact congrArg some (goTo_blank c)
  | word cs =>
    cases apt with
    | @word c cs _ visible starts more ends =>
      refine ⟨c, cs, rfl, ?_⟩
      simp only [step, visible, starts, if_true, if_false, Bool.false_eq_true]
      exact scanWord_eq here split starts more ends
  | literal ds point fs =>
    obtain ⟨c, cs, piece⟩ := List.exists_cons_of_ne_nil apt.chars_ne_nil
    have plain : IsPlain c := (isLiteral_of_apt apt).plain c (by rw [piece]; exact List.mem_cons_self)
    obtain ⟨visible, noName, starts⟩ := plain.classes
    refine ⟨c, cs, piece, ?_⟩
    simp only [step, visible, noName, starts, if_true, if_false, Bool.false_eq_true]
    exact scanLiteral_eq apt here split piece
  | mark c k =>
    cases apt with
    | mark known =>
      obtain ⟨visible, noName, -, noDigit, noPoint⟩ := classes_of_ofChar? known
      refine ⟨c, [], rfl, ?_⟩
      simp only [step, visible, noName, noDigit, beq_false_of_ne noPoint, known, Bool.or_false,
        if_false, Bool.false_eq_true]
      exact congrArg some (goTo_emit (l := .mark c k) rfl)
  | stray c =>
    cases apt with
    | stray visible noName noDigit unknown lone =>
      refine ⟨c, [], rfl, ?_⟩
      by_cases point : c = '.'
      · subst point
        have scanned := scanLiteral_point here (split.trans (List.append_assoc _ _ _)) (lone rfl)
        simp only [step, visible, noName, noDigit, if_false, Bool.false_eq_true]
        exact scanned
      · simp only [step, visible, noName, noDigit, beq_false_of_ne point, unknown, Bool.or_false,
          if_false, Bool.false_eq_true]
        exact congrArg some (goTo_drop c)

end Steps

section Runs

variable {text : String} {s t : Scanner}

theorem run_of_nil (done : s.place.rest = []) : run text s = some s := by
  rw [run]
  split
  · rfl
  · next more => rw [done] at more; cases more

theorem run_of_step {c : Char} {cs : List Char} (here : s.place.rest = c :: cs)
    (next : step text s c cs = some t) : run text s = run text t := by
  rw [run]
  split
  · next done => rw [here] at done; cases done
  · next d ds same =>
    rw [here] at same
    obtain ⟨rfl, rfl⟩ := List.cons.inj same
    split
    · next fails => rw [next] at fails; cases fails
    · next u other =>
      rw [next] at other
      rw [Option.some.inj other]

/-- The scanner that stands before some pieces finds what they are. -/
theorem run_of_cut {ls : List Lexeme} (cut : Cut ls) {before : List Char}
    (split : text.toList = before ++ ls.flatMap chars)
    (here : s.place = ⟨byteLength before, ls.flatMap chars⟩) :
    run text s = some ⟨⟨byteLength text.toList, []⟩,
      ⟨s.found.tokens ++ (placed (byteLength before) ls).filterMap tokenAt?,
        s.found.skipped ++ (placed (byteLength before) ls).filterMap skippedAt?⟩, s.unreadable⟩ := by
  induction ls generalizing before s with
  | nil =>
    rw [List.flatMap_nil, List.append_nil] at split
    rw [run_of_nil (congrArg Place.rest here), split, placed, List.filterMap_nil, List.filterMap_nil,
      List.append_nil, List.append_nil]
    exact congrArg (fun place => some { s with place }) here
  | cons l ls ih =>
    rw [List.flatMap_cons] at split here
    have offset : s.place.offset = byteLength before := congrArg Place.offset here
    have split := split.trans (List.append_assoc _ _ _).symm
    obtain ⟨c, cs, piece, next⟩ := step_of_apt cut.1 offset split
    have rest : s.place.rest = c :: (cs ++ ls.flatMap chars) := by
      rw [here, piece]
      rfl
    have place : (s.past l (ls.flatMap chars)).place =
        ⟨byteLength (before ++ l.chars), ls.flatMap chars⟩ := by
      rw [byteLength_append, ← offset]
      rfl
    have later {α : Type} (f : Nat × Lexeme → Option α) (found : List α) :
        found ++ (f (byteLength before, l)).toList ++
            (placed (byteLength (before ++ l.chars)) ls).filterMap f =
          found ++ (placed (byteLength before) (l :: ls)).filterMap f := by
      rw [byteLength_append, placed, List.filterMap_cons, List.append_assoc]
      cases f (byteLength before, l) <;> rfl
    rw [run_of_step rest next, ih cut.2 split place]
    simp only [past, offset, later]

/-- A text is scanned to its end, no character is cut, and every literal is read as a number. -/
theorem scan_eq (text : String) :
    scan text = some ⟨⟨text.utf8ByteSize, []⟩, tokenize text, []⟩ := by
  have pieces := flatMap_chars_lexemes text.toList
  have scanned := @run_of_cut text ⟨⟨0, text.toList⟩, ⟨[], []⟩, []⟩ _ (cut_lexemes text.toList) []
    pieces.symm (congrArg (Place.mk 0) pieces.symm)
  rw [scan, scanned, byteLength, byteLength_toList, ← tokens_eq_filterMap, ← skipped_eq_filterMap]
  rfl

end Runs

end Scanner

/-- The characters of a text are divided among blanks, tokens and what is skipped. Scanning the text in
place finds the same; it cuts the text only where characters begin and gives up on no literal, since of the
texts of digits and points it is the literals that are numbers. -/
theorem tokenize_partitions (text : String) :
    Partitions text (tokenize text) ∧
      Scanner.scan text = some ⟨⟨text.utf8ByteSize, []⟩, tokenize text, []⟩ ∧
      ∀ cs, IsLiteral cs ↔ (∀ c ∈ cs, IsPlain c) ∧ (numberOfText? (String.ofList cs)).isSome := by
  refine ⟨partitions_tokenize text, Scanner.scan_eq text, fun cs => ?_⟩
  constructor
  · intro literal
    exact ⟨literal.plain, (isSome_numberOfText?_iff literal.plain).2 literal⟩
  · rintro ⟨plain, number⟩
    exact (isSome_numberOfText?_iff plain).1 number

end DomainColoring
