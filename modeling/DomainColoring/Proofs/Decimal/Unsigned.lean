import DomainColoring.Proofs.Decimal.Reading

/-!
# Numbers without a sign

What a literal is read as has no minus sign (`unsigned_toFloat`), and the plain text of a finite
number without a minus sign is a literal that is read as that number (`spelled_render`).
-/

namespace DomainColoring

open Float.Model (Format UnpackedFloat)
open Float.Model.UnpackedFloat

namespace Binary64

/-- The sign of an exact value; what is no number has none, and counts as positive. -/
def signOf : UnpackedFloat → Sign
  | .infinity s => s
  | .zero s => s
  | .finite s _ _ _ => s
  | .notANumber => .positive

/-- Finite and without a minus sign. -/
def Unsigned (x : Float) : Prop :=
  exactValue x = .zero .positive ∨ ∃ m e pos, exactValue x = .finite .positive m e pos

theorem unsigned_of_isFinite {x : Float} (finite : x.isFinite = true)
    (sign : signOf (exactValue x) = .positive) : Unsigned x := by
  have finite : (exactValue x).isFinite = true := finite
  unfold Unsigned
  generalize exactValue x = v at finite sign ⊢
  cases v with
  | infinity s => cases finite
  | notANumber => cases finite
  | zero s =>
    cases sign
    exact .inl rfl
  | finite s m e pos =>
    cases sign
    exact .inr ⟨m, e, pos, rfl⟩

theorem unpackSign_pack (u : UnpackedFloat) :
    unpackSign (Float.Model.UnpackedFloat.pack .binary64 u) = (signOf u).toBitVec := by
  fun_cases Float.Model.UnpackedFloat.pack <;> exact unpackSign_packComponents _ _ _

/-- A positive result is still positive after it has been stored. -/
theorem signOf_pack {u : UnpackedFloat} (h : signOf u = .positive) :
    signOf (Float.Model.pack u).unpack = .positive := by
  have sign := unpackSign_pack u
  have parts := parts_unpack (Float.Model.UnpackedFloat.pack .binary64 u)
  change signOf (Float.Model.UnpackedFloat.unpack .binary64
    (Float.Model.UnpackedFloat.pack .binary64 u)) = _
  generalize Float.Model.UnpackedFloat.unpack .binary64
    (Float.Model.UnpackedFloat.pack .binary64 u) = v at parts
  rw [h] at sign
  cases parts with
  | notANumber _ _ => rfl
  | _ => simp only [signOf, sign, ofBitVec_toBitVec]

theorem signOf_round (s : Sign) (m : Nat) (e : Int) (a : Accuracy) :
    signOf (roundWithAccuracy .binary64 s m e a) = s := by
  unfold roundWithAccuracy
  dsimp only
  split <;> rfl

theorem signOf_ofScientific (m : Nat) (e : Int) :
    signOf (ofScientific .binary64 m e) = .positive := by
  unfold ofScientific
  split
  · rfl
  split
  · rfl
  split
  · rfl
  split
  · exact signOf_round _ _ _ _
  · exact signOf_round _ _ _ _

/-- What no sign was read for has none. -/
theorem unsigned_toFloat {d : Decimal} (finite : d.toFloat.isFinite = true) : Unsigned d.toFloat :=
  unsigned_of_isFinite finite (signOf_pack (signOf_ofScientific d.digits d.exponent))

theorem abs_of_positive {x : Float} {m : Nat} {e : Int} {pos : 0 < m}
    (h : exactValue x = .finite .positive m e pos) : x.abs = x := by
  have same : (exactValue x).abs = exactValue x := by rw [h]; rfl
  change Float.ofModel (.pack (exactValue x).abs) = x
  rw [same]
  exact congrArg Float.ofModel (pack_unpack x.toModel)

end Binary64

/-- The plain text of a number without a minus sign is a literal that is read as the number. -/
theorem spelled_render {x : Float} (h : Binary64.Unsigned x) :
    ∃ whole point fraction,
      NumberText.plain.render x = (Lexeme.literal whole point fraction).chars ∧
        ∃ d, Decimal.Spelled d whole point fraction ∧ d.toFloat = x := by
  rcases h with zero | ⟨m, e, pos, finite⟩
  · have read : (⟨0, 0⟩ : Decimal).toFloat = x := by
      have together := Binary64.pack_unpack x.toModel
      change Float.Model.pack (Binary64.exactValue x) = x.toModel at together
      rw [zero] at together
      exact congrArg Float.ofModel together
    refine ⟨['0'], false, [], ?_, ⟨0, 0⟩, Decimal.spelled_whole (n := 0) 0, read⟩
    simp only [NumberText.render, zero]
    rfl
  · have read : (Decimal.shortest .up x m e).expand.toFloat = x :=
      of_decide_eq_true (Decimal.shortest_readsAs .up finite)
    obtain ⟨whole, point, fraction, text, spelled⟩ :=
      Decimal.spelled_positional (Decimal.shortest .up x m e)
    refine ⟨whole, point, fraction, ?_, _, spelled, read⟩
    simp only [NumberText.render, finite, Binary64.abs_of_positive finite]
    exact text

end DomainColoring
