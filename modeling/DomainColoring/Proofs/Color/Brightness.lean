import DomainColoring.Color.Settings
import DomainColoring.Proofs.Color.Sectors
import DomainColoring.Proofs.Scalar.Reals

/-!
# Brightness

With exact numbers, a larger number of the same argument is nowhere darker: none of the three channels
falls as the modulus grows (`ColorSettings.colorOf_mono`). The two segments of the ramp are one pair of
clamped lines, so the colours meet where one segment ends and the other starts.
-/

namespace DomainColoring

section Order

variable {K : Type} [LinearOrder K]

/-- The largest channel. -/
def Rgb.brightness (c : Rgb K) : K := max (max c.r c.g) c.b

/-- No channel of `c` is above that of `d`. -/
structure Rgb.NoBrighter (c d : Rgb K) : Prop where
  r : c.r ≤ d.r
  g : c.g ≤ d.g
  b : c.b ≤ d.b

theorem Rgb.NoBrighter.brightness_le {c d : Rgb K} (h : c.NoBrighter d) : c.brightness ≤ d.brightness :=
  max_le_max (max_le_max h.r h.g) h.b

variable [Field K] [IsStrictOrderedRing K] {v₁ v₂ s₁ s₂ : K}

/-- A channel does not fall when the value does not fall and the saturation does not rise. -/
theorem channel_mono {w : K} (value : v₁ ≤ v₂) (saturation : s₂ ≤ s₁) (value_nonneg : 0 ≤ v₁)
    (saturation_le : s₁ ≤ 1) (share_nonneg : 0 ≤ w) (share_le : w ≤ 1) :
    v₁ - v₁ * s₁ * w ≤ v₂ - v₂ * s₂ * w := by
  have taken : s₂ * w ≤ s₁ * w := mul_le_mul_of_nonneg_right saturation share_nonneg
  have all : s₂ * w ≤ 1 := mul_le_one₀ (saturation.trans saturation_le) share_nonneg share_le
  calc
    v₁ - v₁ * s₁ * w = v₁ * (1 - s₁ * w) := by ring
    _ ≤ v₁ * (1 - s₂ * w) := mul_le_mul_of_nonneg_left (by linarith) value_nonneg
    _ ≤ v₂ * (1 - s₂ * w) := mul_le_mul_of_nonneg_right value (by linarith)
    _ = v₂ - v₂ * s₂ * w := by ring

/-- With the hue kept, more value and less saturation darken no channel. -/
theorem Hsv.noBrighter_toRgb [FloorRing K] {hue₁ hue₂ : K} (hue : hue₁ = hue₂) (value : v₁ ≤ v₂)
    (saturation : s₂ ≤ s₁) (value_nonneg : 0 ≤ v₁) (saturation_le : s₁ ≤ 1) :
    (@toRgb K (Scalar.ofField K) ⟨hue₁, s₁, v₁⟩).NoBrighter
      (@toRgb K (Scalar.ofField K) ⟨hue₂, s₂, v₂⟩) := by
  have channel (n : Nat) := channel_mono value saturation value_nonneg saturation_le
    (share_nonneg n hue₂) (share_le_one n hue₂)
  rw [hue, toRgb_eq_share, toRgb_eq_share]
  exact ⟨channel 5, channel 3, channel 1⟩

end Order

namespace ColorSettings

variable {log1p : ℝ → ℝ}

/-- Saturation and value as clamped lines. On the ramp the value line is at 1 and the saturation line
starts to fall at the same point, so neither segment has to be told from the other. -/
theorem tone_ofReal (c : ColorSettings ℝ) (m : ℝ) :
    @tone ℝ (Elementary.ofReal log1p) c m =
      match c.mode with
      | .logBrightness => (1, max 0 (min (log1p (c.k * m) / c.s) 1))
      | .twoSegmentRamp =>
        (max 0 (min (2 - 2 * (log1p m / c.s)) 1), max 0 (min (2 * (log1p m / c.s)) 1)) := by
  obtain ⟨mode, k, s⟩ := c
  cases mode with
  | logBrightness => simp [tone, Scalar.unit_ofField, Scalar.ofNat]
  | twoSegmentRamp =>
    simp only [tone, rampPosition, Scalar.unit_ofField, Scalar.ofNat, Scalar.isNaN,
      Elementary.log1p_ofReal, Nat.cast_zero, Nat.cast_one, Nat.cast_ofNat, Bool.false_eq_true, if_false]
    split_ifs with first
    · have full : 1 ≤ 2 - 2 * (log1p m / s) := by linarith
      rw [min_eq_right full, max_eq_right zero_le_one]
    · have full : 1 ≤ 2 * (log1p m / s) := by linarith
      have falling : 1 - 2 * (log1p m / s - 1 / 2) = 2 - 2 * (log1p m / s) := by ring
      rw [min_eq_right full, max_eq_right zero_le_one, falling]

section Growing

variable (mono : MonotoneOn log1p (Set.Ici 0)) {c : ColorSettings ℝ} (gain : 0 ≤ c.k)
  (divisor : 0 < c.s) {m₁ m₂ : ℝ} (nonneg : 0 ≤ m₁) (le : m₁ ≤ m₂)

include mono divisor nonneg le in
theorem log1p_div_mono : log1p m₁ / c.s ≤ log1p m₂ / c.s :=
  div_le_div_of_nonneg_right (mono nonneg (nonneg.trans le) le) divisor.le

include mono gain divisor nonneg le in
/-- As the modulus grows the value does not fall and the saturation does not rise. -/
theorem tone_mono :
    let tone := @tone ℝ (Elementary.ofReal log1p) c
    (tone m₁).2 ≤ (tone m₂).2 ∧ (tone m₂).1 ≤ (tone m₁).1 := by
  dsimp only
  rw [tone_ofReal, tone_ofReal]
  cases c.mode with
  | logBrightness =>
    have rising := log1p_div_mono mono divisor (mul_nonneg gain nonneg)
      (mul_le_mul_of_nonneg_left le gain)
    exact ⟨max_le_max_left 0 (min_le_min_right 1 rising), le_rfl⟩
  | twoSegmentRamp =>
    have rising := log1p_div_mono mono divisor nonneg le
    exact ⟨max_le_max_left 0 (min_le_min_right 1 (by linarith)),
      max_le_max_left 0 (min_le_min_right 1 (by linarith))⟩

end Growing

variable (log1p) in
theorem tone_bounds (c : ColorSettings ℝ) (m : ℝ) :
    (@tone ℝ (Elementary.ofReal log1p) c m).1 ≤ 1 ∧ 0 ≤ (@tone ℝ (Elementary.ofReal log1p) c m).2 := by
  rw [tone_ofReal]
  cases c.mode with
  | logBrightness => exact ⟨le_rfl, le_max_left _ _⟩
  | twoSegmentRamp => exact ⟨max_le zero_le_one (min_le_right _ _), le_max_left _ _⟩

/-- Of two numbers with the same argument, the one of larger modulus is at least as bright in every
channel, in both modes, whatever nondecreasing function stands for the logarithm. What that function is
at zero does not matter. -/
theorem colorOf_mono (mono : MonotoneOn log1p (Set.Ici 0)) {c : ColorSettings ℝ} (gain : 0 ≤ c.k)
    (divisor : 0 < c.s) {a b : Complex ℝ} :
    let arg := @Complex.arg ℝ (Elementary.ofReal log1p)
    let norm := @Complex.norm ℝ (Elementary.ofReal log1p)
    let color := @colorOf ℝ (Elementary.ofReal log1p) c
    arg a = arg b → norm a ≤ norm b →
      (color a).NoBrighter (color b) ∧ (color a).brightness ≤ (color b).brightness := by
  intro arg norm color sameArg le
  obtain ⟨value, saturation⟩ := tone_mono mono gain divisor (Complex.norm_nonneg_ofReal log1p a) le
  obtain ⟨saturation_le, value_nonneg⟩ := tone_bounds log1p c (norm a)
  have sameHue := congrArg (@hue ℝ (Elementary.ofReal log1p)) sameArg
  have order : (color a).NoBrighter (color b) :=
    Hsv.noBrighter_toRgb sameHue value saturation value_nonneg saturation_le
  exact ⟨order, order.brightness_le⟩

/-- Two numbers on the positive real axis, one on each segment of the ramp. -/
theorem colorOf_mono_acrossSegments :
    let log1p : ℝ → ℝ := fun x => Real.log (1 + x)
    let arg := @Complex.arg ℝ (Elementary.ofReal log1p)
    let norm := @Complex.norm ℝ (Elementary.ofReal log1p)
    let c : ColorSettings ℝ := ⟨.twoSegmentRamp, 3, 3 / 2⟩
    let position := @rampPosition ℝ (Elementary.ofReal log1p) c
    let color := @colorOf ℝ (Elementary.ofReal log1p) c
    let near : Complex ℝ := ⟨1, 0⟩
    let far : Complex ℝ := ⟨3, 0⟩
    (position (norm near) < 1 / 2 ∧ 1 / 2 < position (norm far)) ∧
      (arg near = arg far ∧ norm near ≤ norm far) ∧
      (color near).NoBrighter (color far) ∧ (color near).brightness ≤ (color far).brightness := by
  intro log1p arg norm c position color near far
  have norm_near : norm near = 1 := Complex.norm_real_ofReal _ zero_le_one
  have norm_far : norm far = 3 := Complex.norm_real_ofReal _ (by norm_num)
  have sameArg : arg near = arg far :=
    (Complex.arg_real_ofReal _ zero_le_one).trans (Complex.arg_real_ofReal _ (by norm_num)).symm
  have le : norm near ≤ norm far := by rw [norm_near, norm_far]; norm_num
  have first : position (norm near) < 1 / 2 := by
    rw [norm_near]
    change Real.log (1 + 1) / (3 / 2) < 1 / 2
    rw [one_add_one_eq_two]
    linarith [Real.log_two_lt_d9]
  have second : 1 / 2 < position (norm far) := by
    rw [norm_far]
    change 1 / 2 < Real.log (1 + 3) / (3 / 2)
    rw [show (1 + 3 : ℝ) = 2 ^ 2 by norm_num, Real.log_pow, Nat.cast_ofNat]
    linarith [Real.log_two_gt_d9]
  exact ⟨⟨first, second⟩, ⟨sameArg, le⟩,
    colorOf_mono Elementary.log_one_add_mono (by norm_num) (by norm_num) sameArg le⟩

end ColorSettings

end DomainColoring
