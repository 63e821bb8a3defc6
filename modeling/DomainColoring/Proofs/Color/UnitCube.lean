import DomainColoring.Proofs.Mesh.Tiling
import DomainColoring.Proofs.Scalar.Narrowing
import DomainColoring.Proofs.Scalar.Platform

/-!
# Colours stay in the unit cube

Whatever a function's value and the settings are, every channel of its colour is a number from 0 to 1.
Saturation and value are clamped, also where they are no numbers, and the hue is a finite number because
the angle is one; after that no operation leaves the unit interval. Of the logarithm nothing is needed,
and of the angle only its range, so both are parameters here (`ColorSettings.paintWith`).
-/

namespace DomainColoring

open Binary64 (InUnit InUnit32 exactValue HasValue HasSigned)

theorem Binary64.exactValue_turn : exactValue ((2 : Nat).toFloat * Elementary.pi) =
    .finite .positive 7074237752028440 (-50) (by decide) := rfl

/-- Machine numbers with any functions for the logarithm and the angle. -/
abbrev Binary64.elementaryWith (log1p : Float → Float) (atan2 : Float → Float → Float) :
    Elementary Float :=
  { (inferInstance : Elementary Float) with log1p := log1p, atan2 := atan2 }

/-- The colour of a number in single precision, by any functions for the logarithm and the angle. -/
def ColorSettings.paintWith (log1p : Float → Float) (atan2 : Float → Float → Float)
    (c : ColorSettings Float) (a : Complex Float) : Rgb Float32 :=
  (@ColorSettings.colorOf Float (Binary64.elementaryWith log1p atan2) c a).narrow

/-- All three channels have a property. -/
structure Rgb.All {α : Type} (p : α → Prop) (c : Rgb α) : Prop where
  r : p c.r
  g : p c.g
  b : p c.b

theorem Rgb.All.narrow {c : Rgb Float} (h : c.All InUnit) : c.narrow.All InUnit32 :=
  ⟨h.r.narrow, h.g.narrow, h.b.narrow⟩

/-- The six sectors. Every channel is made of products and complements. -/
theorem Hsv.all_inUnit_toRgb {hue saturation value : Float} {v : ℚ}
    (turns : HasValue (exactValue hue) v) (hs : InUnit saturation) (hv : InUnit value) :
    (Hsv.toRgb ⟨hue, saturation, value⟩).All InUnit := by
  have six : HasValue (exactValue (6 : Nat).toFloat) (6 : ℚ) := by
    exact_mod_cast Binary64.hasValue_ofNat (n := 6) (by norm_num)
  obtain ⟨h, sector⟩ : ∃ h : ℚ,
      HasValue (exactValue (Scalar.wrap hue * (6 : Nat).toFloat)) h := by
    obtain ⟨r, part, le⟩ := Binary64.inUnit_wrap turns
    have product := Binary64.hasValue_mul part.coe_nonneg (by norm_num) part six
    obtain ⟨h, sector, -⟩ := Binary64.exists_hasValue_le (mul_nonneg part.coe_nonneg (by norm_num))
      (by linarith : r * 6 ≤ 6) product six
    exact ⟨h, sector⟩
  have part := Binary64.inUnit_fract sector
  have p := hv.mul hs.one_sub
  have q := hv.mul (hs.mul part).one_sub
  have t := hv.mul (hs.mul part.one_sub).one_sub
  unfold Hsv.toRgb
  dsimp only
  split_ifs
  · exact ⟨hv, hv, hv⟩
  split
  · exact ⟨hv, t, p⟩
  · exact ⟨q, hv, p⟩
  · exact ⟨p, hv, t⟩
  · exact ⟨p, q, hv⟩
  · exact ⟨t, p, hv⟩
  · exact ⟨hv, p, q⟩

namespace ColorSettings

variable {log1p : Float → Float} {atan2 : Float → Float → Float}

/-- Saturation and value are clamped or are 0 or 1, whatever the logarithm gives. -/
theorem inUnit_tone (c : ColorSettings Float) (m : Float) :
    letI := Binary64.elementaryWith log1p atan2
    InUnit (c.tone m).1 ∧ InUnit (c.tone m).2 := by
  unfold tone
  dsimp only
  split
  · exact ⟨Binary64.inUnit_one, Binary64.inUnit_unit _⟩
  split_ifs
  · exact ⟨Binary64.inUnit_one, Binary64.inUnit_zero⟩
  · exact ⟨Binary64.inUnit_one, Binary64.inUnit_unit _⟩
  · exact ⟨Binary64.inUnit_unit _, Binary64.inUnit_one⟩

/-- The hue of a finite angle is within one turn. -/
theorem inUnit_hue {x : Float} (least : -(Elementary.pi : Float) ≤ x) (most : x ≤ Elementary.pi) :
    InUnit (hue x) := by
  have half := Binary64.hasValue_of_exactValue_eq Binary64.exactValue_pi
  have turn := Binary64.hasValue_of_exactValue_eq Binary64.exactValue_turn
  have twice : ((7074237752028440 : Nat) * 2 ^ (-50 : ℤ) : ℚ) =
      2 * ((7074237752028440 : Nat) * 2 ^ (-51 : ℤ)) := by norm_num
  have positive : (0 : ℚ) < (7074237752028440 : Nat) * 2 ^ (-51 : ℤ) := by positivity
  rw [twice] at turn
  generalize ((7074237752028440 : Nat) * 2 ^ (-51 : ℤ) : ℚ) = P at half turn positive
  have opposite : HasSigned (exactValue (-(Elementary.pi : Float))) (-P) :=
    Binary64.exactValue_neg _ ▸ half.signed.neg
  obtain ⟨u, angle, low, high⟩ := Binary64.exists_hasSigned_between opposite half.signed least most
  have nonneg : 0 ≤ u + P := by linarith
  obtain ⟨r, sum, le⟩ := Binary64.exists_hasValue_le nonneg (by linarith)
    (Binary64.hasValue_add angle half.signed nonneg) turn
  rcases sum.coe_nonneg.eq_or_lt with rfl | above
  · exact ⟨0, Binary64.hasValue_zero_div (by linarith) sum turn, zero_le_one⟩
  · exact Binary64.inUnit_of_stored (div_nonneg above.le (by linarith))
      ((div_le_one (by linarith)).2 le) (Binary64.hasValue_div above (by linarith) sum turn)

theorem all_inUnit_colorOf (principal : Principal atan2) (c : ColorSettings Float) (a : Complex Float) :
    (@colorOf Float (Binary64.elementaryWith log1p atan2) c a).All InUnit := by
  unfold colorOf
  split_ifs with infinite
  · exact ⟨Binary64.inUnit_zero, Binary64.inUnit_zero, Binary64.inUnit_zero⟩
  · rw [Bool.not_eq_true', Bool.not_eq_false, Complex.isFinite, Bool.and_eq_true] at infinite
    obtain ⟨least, most⟩ := principal a.im a.re infinite.2 infinite.1
    obtain ⟨v, turns, -⟩ := inUnit_hue least most
    obtain ⟨saturation, value⟩ := inUnit_tone c a.norm
    exact Hsv.all_inUnit_toRgb turns saturation value

/-- What is not finite has the colour of singular values. -/
theorem paintWith_of_not_finite (c : ColorSettings Float) {a : Complex Float}
    (infinite : a.isFinite = false) : c.paintWith log1p atan2 a = ⟨0, 0, 0⟩ := by
  unfold paintWith colorOf
  rw [infinite, Bool.not_false, if_pos rfl]
  change (singularColor : Rgb Float).narrow = _
  decide

end ColorSettings

/-- Every vertex of a mesh is opaque and has the colour of some value. -/
theorem Mesh.exists_of_mem_draw {paint : Complex Float → Rgb Float32} {f : Expr} {view : View Float}
    {canvas : Canvas} {unit : Float} {v : Vertex} (member : v ∈ (draw paint f view canvas unit).vertices) :
    ∃ a, v.color = paint a ∧ v.alpha = 1 := by
  unfold draw at member
  dsimp only at member
  split_ifs at member with cells
  · rw [List.mem_toArray, CornerTable.triangles_map] at member
    obtain ⟨s, -, rfl⟩ := List.mem_map.1 member
    exact ⟨s.value, rfl, rfl⟩
  · exact absurd member (Array.not_mem_empty v)

namespace ColorSettings

variable {log1p : Float → Float} {atan2 : Float → Float → Float}

/-- Every channel of every colour is a finite number from 0 to 1, for any number, finite or not, and any
settings, and so is every channel of every vertex of a mesh, which is opaque. What is not finite is black.
This holds for any functions in the place of the logarithm and the angle, if only the angle has its usual
range; the last part says which two the meshes are generated with. -/
theorem colors_in_unitCube (principal : Principal atan2) (c : ColorSettings Float) :
    (∀ a : Complex Float, (c.paintWith log1p atan2 a).All InUnit32 ∧
      (a.isFinite = false → c.paintWith log1p atan2 a = ⟨0, 0, 0⟩)) ∧
    (∀ f view canvas unit, ∀ v ∈ (Mesh.draw (c.paintWith log1p atan2) f view canvas unit).vertices,
      v.color.All InUnit32 ∧ v.alpha = 1) ∧
    (c.paint = c.paintWith Binary64.log1p Float.atan2 ∧ ∀ f view canvas unit,
      Mesh.generate f view canvas unit c =
        Mesh.draw (c.paintWith Binary64.log1p Float.atan2) f view canvas unit) := by
  have painted (a : Complex Float) : (c.paintWith log1p atan2 a).All InUnit32 :=
    (all_inUnit_colorOf principal c a).narrow
  refine ⟨fun a => ⟨painted a, paintWith_of_not_finite c⟩, ?_, rfl, fun _ _ _ _ => rfl⟩
  intro f view canvas unit v member
  obtain ⟨a, color, alpha⟩ := Mesh.exists_of_mem_draw member
  exact ⟨color ▸ painted a, alpha⟩

/-- On the negative real axis, where the angle is half a turn: the number -1 on the first segment of the
ramp, and the function that is -1 everywhere. -/
theorem colors_in_unitCube_minusOne :
    let log1p : Float → Float := fun _ => 0.6931471805599453
    let atan2 : Float → Float → Float := fun _ x => if x < 0 then Elementary.pi else 0
    let c : ColorSettings Float := ⟨.twoSegmentRamp, 3, 1.5⟩
    Principal atan2 ∧
      ((c.paintWith log1p atan2 ⟨-1, 0⟩).All InUnit32 ∧
        c.paintWith log1p atan2 Complex.singularity = ⟨0, 0, 0⟩) ∧
      ∀ v ∈ (Mesh.draw (c.paintWith log1p atan2) (.constant ⟨-1, 0⟩) .standard ⟨8, 6⟩ 2).vertices,
        v.color.All InUnit32 ∧ v.alpha = 1 := by
  intro log1p atan2 c
  have principal : Principal atan2 := by
    intro y x _ _
    change -(Elementary.pi : Float) ≤ (if x < 0 then Elementary.pi else 0) ∧
      (if x < 0 then Elementary.pi else 0) ≤ (Elementary.pi : Float)
    split_ifs
    · decide
    · decide
  obtain ⟨colors, meshes, -⟩ := @colors_in_unitCube log1p atan2 principal c
  exact ⟨principal, ⟨(colors ⟨-1, 0⟩).1, (colors Complex.singularity).2 (by decide)⟩, meshes _ _ _ _⟩

end ColorSettings

end DomainColoring
