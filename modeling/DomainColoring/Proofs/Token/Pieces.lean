import DomainColoring.Token.Lexer
import Mathlib.Data.List.TakeWhile
import Mathlib.Tactic.IntervalCases

/-!
# What pieces a text is cut into

Whether a piece may stand before some characters depends on the first of them only: a name, the digits of
a literal and a point go as far as they can (`Lexeme.Apt`). The pieces of a text are the only ones that
make it up and each of which may stand before those that follow (`lexemes_eq_iff`).
-/

namespace DomainColoring

open Character

section Runs

variable {p : Char → Bool} {cs rest : List Char}

/-- A maximal run of characters is taken as far as it goes. -/
theorem span_eq (inside : ∀ c ∈ cs, p c = true) (stops : ∀ c ∈ rest.head?, p c = false) :
    (cs ++ rest).takeWhile p = cs ∧ (cs ++ rest).dropWhile p = rest := by
  rw [List.takeWhile_append_of_pos inside, List.dropWhile_append_of_pos inside]
  cases rest with
  | nil => exact ⟨List.append_nil cs, rfl⟩
  | cons c rest => simp [stops c rfl]

/-- A run that is taken as far as it goes ends before a character that does not belong to it. -/
theorem not_of_head?_dropWhile : ∀ c ∈ (cs.dropWhile p).head?, p c = false := by
  intro c first
  have fails := List.head?_dropWhile_not p cs
  rw [first] at fails
  simpa using fails

end Runs

namespace Lexeme

section Characters

variable {c : Char} {k : TokenKind}

/-- A digit goes on with a name but does not start one. -/
theorem classes_of_isDigit (h : c.isDigit = true) :
    isBlank c = false ∧ startsWord c = false ∧ continuesWord c = true := by
  have range : 48 ≤ c.toNat ∧ c.toNat ≤ 57 := by
    simp only [Char.isDigit, Bool.and_eq_true, decide_eq_true_eq] at h
    exact h
  have digits : ∀ n, 48 ≤ n → n ≤ 57 → isBlank (Char.ofNat n) = false ∧
      startsWord (Char.ofNat n) = false ∧ continuesWord (Char.ofNat n) = true := by
    intro n low high
    interval_cases n <;> decide
  rw [← Char.ofNat_toNat c]
  exact digits c.toNat range.1 range.2

theorem isDigit_of_continuesWord (h : continuesWord c = false) : c.isDigit = false := by
  cases digit : c.isDigit with
  | false => rfl
  | true =>
    rw [(classes_of_isDigit digit).2.2] at h
    cases h

/-- What a name starts with, it goes on with. -/
theorem continuesWord_of_startsWord (h : startsWord c = true) : continuesWord c = true := by
  simp only [startsWord, Bool.or_eq_true] at h
  simp only [continuesWord, Bool.or_eq_true]
  exact h.imp .inl id

theorem continuesWord_of_mem {cs : List Char} (starts : startsWord c = true)
    (more : ∀ d ∈ cs, continuesWord d = true) : ∀ d ∈ c :: cs, continuesWord d = true := by
  intro d member
  rcases List.mem_cons.1 member with rfl | later
  · exact continuesWord_of_startsWord starts
  · exact more d later

/-- Operators and parentheses have no part in names and literals. -/
theorem classes_of_ofChar? (h : TokenKind.ofChar? c = some k) :
    isBlank c = false ∧ startsWord c = false ∧ continuesWord c = false ∧ c.isDigit = false ∧
      c ≠ '.' := by
  unfold TokenKind.ofChar? at h
  split at h <;> cases h <;> decide

end Characters

/-- A piece is what is cut off before the characters `rest`. -/
inductive Apt : Lexeme → List Char → Prop
  | blank {c : Char} {rest : List Char} (space : isBlank c = true) : Apt (.blank c) rest
  | word {c : Char} {cs rest : List Char} (visible : isBlank c = false)
      (starts : startsWord c = true) (more : ∀ d ∈ cs, continuesWord d = true)
      (ends : ∀ d ∈ rest.head?, continuesWord d = false) : Apt (.word (c :: cs)) rest
  | whole {ds rest : List Char} (nonempty : ds ≠ []) (digits : ∀ d ∈ ds, d.isDigit = true)
      (ends : ∀ d ∈ rest.head?, d.isDigit = false ∧ d ≠ '.') : Apt (.literal ds false []) rest
  | fraction {ds fs rest : List Char} (nonempty : ds ≠ [] ∨ fs ≠ [])
      (digits : ∀ d ∈ ds, d.isDigit = true) (places : ∀ d ∈ fs, d.isDigit = true)
      (ends : ∀ d ∈ rest.head?, d.isDigit = false) : Apt (.literal ds true fs) rest
  | mark {c : Char} {k : TokenKind} {rest : List Char} (known : TokenKind.ofChar? c = some k) :
      Apt (.mark c k) rest
  | stray {c : Char} {rest : List Char} (visible : isBlank c = false)
      (noName : startsWord c = false) (noDigit : c.isDigit = false)
      (unknown : TokenKind.ofChar? c = none)
      (lone : c = '.' → ∀ d ∈ rest.head?, d.isDigit = false) : Apt (.stray c) rest

/-- Without a point a literal ends with its digits. -/
theorem literalAfter_eq {ds rest : List Char} (noPoint : ∀ d ∈ rest.head?, d ≠ '.') :
    literalAfter ds rest = (literal ds false [], rest) := by
  unfold literalAfter
  split
  · exact absurd rfl (noPoint '.' rfl)
  · rfl

theorem apt_literalAfter {ds cs : List Char} (nonempty : ds ≠ [])
    (digits : ∀ d ∈ ds, d.isDigit = true) (ends : ∀ d ∈ cs.head?, d.isDigit = false) :
    Apt (literalAfter ds cs).1 (literalAfter ds cs).2 := by
  unfold literalAfter
  split
  · exact .fraction (.inl nonempty) digits (fun _ => List.mem_takeWhile_imp) not_of_head?_dropWhile
  · next noPoint =>
    refine .whole nonempty digits fun d first => ⟨ends d first, ?_⟩
    rintro rfl
    obtain ⟨ts, rfl⟩ := List.head?_eq_some_iff.1 first
    exact noPoint ts rfl

/-- The first piece of a text may stand before the characters after it. -/
theorem apt_next (c : Char) (cs : List Char) : Apt (next c cs).1 (next c cs).2 := by
  unfold next
  split
  · next blank => exact .blank blank
  next visible =>
  rw [Bool.not_eq_true] at visible
  split
  · next starts => exact .word visible starts (fun _ => List.mem_takeWhile_imp) not_of_head?_dropWhile
  next noName =>
  rw [Bool.not_eq_true] at noName
  split
  · next digit =>
    refine apt_literalAfter (List.cons_ne_nil _ _) (fun d member => ?_) not_of_head?_dropWhile
    rcases List.mem_cons.1 member with rfl | later
    · exact digit
    · exact List.mem_takeWhile_imp later
  next noDigit =>
  rw [Bool.not_eq_true] at noDigit
  split
  · next point =>
    refine .fraction (.inr ?_) (fun _ h => by cases h) (fun _ => List.mem_takeWhile_imp)
      not_of_head?_dropWhile
    obtain ⟨d, first, digit⟩ := (Option.any_eq_true _ _).1 point.2
    obtain ⟨ds, rfl⟩ := List.head?_eq_some_iff.1 first
    rw [List.takeWhile_cons, if_pos digit]
    exact List.cons_ne_nil _ _
  next noPoint =>
  split
  · next known => exact .mark known
  · next unknown =>
    refine .stray visible noName noDigit unknown fun point d first => ?_
    rw [← Bool.not_eq_true]
    exact fun digit => noPoint ⟨point, (Option.any_eq_true _ _).2 ⟨d, first, digit⟩⟩

theorem next_of_ofChar? {c : Char} {k : TokenKind} (known : TokenKind.ofChar? c = some k)
    (cs : List Char) : next c cs = (mark c k, cs) := by
  unfold TokenKind.ofChar? at known
  split at known <;> cases known <;> rfl

/-- A digit starts the literal that it is cut off with. -/
theorem next_of_isDigit {c : Char} {ds rest : List Char} (digits : ∀ d ∈ c :: ds, d.isDigit = true)
    (stops : ∀ d ∈ rest.head?, d.isDigit = false) :
    next c (ds ++ rest) = literalAfter (c :: ds) rest := by
  have digit : c.isDigit = true := digits c List.mem_cons_self
  obtain ⟨visible, noName, -⟩ := classes_of_isDigit digit
  obtain ⟨taken, left⟩ := span_eq (fun d member => digits d (List.mem_cons_of_mem c member)) stops
  simp [next, visible, noName, digit, taken, left]

/-- A piece that may stand before some characters is the one that is cut off before them. -/
theorem Apt.exists_next {l : Lexeme} {rest : List Char} (h : Apt l rest) :
    ∃ c cs, l.chars = c :: cs ∧ next c (cs ++ rest) = (l, rest) := by
  cases h with
  | @blank c _ space => exact ⟨c, [], rfl, by rw [next, if_pos space]; rfl⟩
  | @word c cs _ visible starts more ends =>
    obtain ⟨taken, left⟩ := span_eq more ends
    exact ⟨c, cs, rfl, by simp [next, visible, starts, taken, left]⟩
  | @whole ds _ nonempty digits ends =>
    obtain ⟨d, ds, rfl⟩ := List.exists_cons_of_ne_nil nonempty
    refine ⟨d, ds, List.append_nil _, ?_⟩
    rw [next_of_isDigit digits fun d first => (ends d first).1,
      literalAfter_eq fun d first => (ends d first).2]
  | @fraction ds fs _ nonempty digits places ends =>
    obtain ⟨taken, left⟩ := span_eq places ends
    cases ds with
    | nil =>
      obtain ⟨f, fs, rfl⟩ := List.exists_cons_of_ne_nil (nonempty.resolve_left fun h => h rfl)
      refine ⟨'.', f :: fs, rfl, ?_⟩
      have follows : ((f :: fs) ++ rest).head?.any Char.isDigit = true :=
        places f List.mem_cons_self
      have point : next '.' ((f :: fs) ++ rest) = pointLiteral [] ((f :: fs) ++ rest) := by
        unfold next
        rw [if_neg (by decide), if_neg (by decide), if_neg (by decide), if_pos ⟨rfl, follows⟩]
      rw [point, pointLiteral, taken, left]
    | cons d ds =>
      refine ⟨d, ds ++ '.' :: fs, rfl, ?_⟩
      rw [List.append_assoc, List.cons_append, next_of_isDigit digits]
      · rw [literalAfter, pointLiteral, taken, left]
      · intro c first
        cases first
        rfl
  | @mark c k _ known => exact ⟨c, [], rfl, next_of_ofChar? known rest⟩
  | @stray c _ visible noName noDigit unknown lone =>
    refine ⟨c, [], rfl, ?_⟩
    have noPoint : ¬(c = '.' ∧ rest.head?.any Char.isDigit = true) := by
      rintro ⟨point, follows⟩
      obtain ⟨d, first, digit⟩ := (Option.any_eq_true _ _).1 follows
      rw [lone point d first] at digit
      cases digit
    simp [next, visible, noName, noDigit, noPoint, unknown]

theorem Apt.chars_ne_nil {l : Lexeme} {rest : List Char} (h : Apt l rest) : l.chars ≠ [] := by
  obtain ⟨c, cs, chars, -⟩ := h.exists_next
  rw [chars]
  exact List.cons_ne_nil c cs

/-- Pieces each of which may stand before those that follow. -/
def Cut : List Lexeme → Prop
  | [] => True
  | l :: ls => l.Apt (ls.flatMap chars) ∧ Cut ls

theorem Cut.append_right {ls ms : List Lexeme} (h : Cut (ls ++ ms)) : Cut ms := by
  induction ls with
  | nil => exact h
  | cons l ls ih => exact ih h.2

theorem Cut.exists_apt {ls : List Lexeme} (h : Cut ls) {l : Lexeme} (member : l ∈ ls) :
    ∃ rest, Apt l rest := by
  obtain ⟨before, after, rfl⟩ := List.append_of_mem member
  exact ⟨_, h.append_right.1⟩

end Lexeme

open Lexeme

theorem lexemes_cons (c : Char) (cs : List Char) :
    lexemes (c :: cs) = (next c cs).1 :: lexemes (next c cs).2 := by
  rw [lexemes]

theorem cut_lexemes (cs : List Char) : Cut (lexemes cs) := by
  fun_induction lexemes cs with
  | case1 => trivial
  | case2 c cs ih =>
    refine ⟨?_, ih⟩
    rw [flatMap_chars_lexemes]
    exact apt_next c cs

/-- A piece that may stand before a text is cut off in front of it. -/
theorem lexemes_append {l : Lexeme} {rest : List Char} (h : l.Apt rest) :
    lexemes (l.chars ++ rest) = l :: lexemes rest := by
  obtain ⟨c, cs, chars, first⟩ := h.exists_next
  rw [chars, List.cons_append, lexemes_cons, first]

theorem Lexeme.Cut.lexemes_eq {ls : List Lexeme} (h : Cut ls) :
    lexemes (ls.flatMap chars) = ls := by
  induction ls with
  | nil => rw [List.flatMap_nil, lexemes]
  | cons l ls ih => rw [List.flatMap_cons, lexemes_append h.1, ih h.2]

/-- The pieces of a text are the only ones that make it up and may each stand before the next. -/
theorem lexemes_eq_iff {cs : List Char} {ls : List Lexeme} :
    lexemes cs = ls ↔ Cut ls ∧ ls.flatMap chars = cs := by
  constructor
  · rintro rfl
    exact ⟨cut_lexemes cs, flatMap_chars_lexemes cs⟩
  · rintro ⟨cut, rfl⟩
    exact cut.lexemes_eq

end DomainColoring
