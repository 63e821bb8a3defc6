import DomainColoring.Proofs.Color.Brightness

/-!
# The circle of hues

Over the rational numbers the conversion from hue, saturation and value is one formula in the position on
a circle of six sectors, for any number of turns in either direction (`Hsv.toRgb_eq_closedForm`). The value
is the largest channel and what the saturation leaves of it the smallest. Neither the shortcut for colours
without saturation nor the choice of a sector at a boundary shows.
-/

namespace DomainColoring

/-- The smallest channel. -/
def Rgb.leastChannel {K : Type} [LinearOrder K] (c : Rgb K) : K := min (min c.r c.g) c.b

namespace Hsv

/-- What is left of a number after whole sixes. -/
def modSix (x : ℚ) : ℚ := x - 6 * ⌊x / 6⌋

/-- The closed form of the channel whose full sectors end `n` sectors before the start of the circle. -/
def channel (c : Hsv ℚ) (n : Nat) : ℚ :=
  let q := modSix (n + 6 * c.hue)
  c.value - c.value * c.saturation * max 0 (min (min q (4 - q)) 1)

/-- The closed form of a colour. -/
def closedForm (c : Hsv ℚ) : Rgb ℚ := ⟨c.channel 5, c.channel 3, c.channel 1⟩

theorem way_eq_modSix (n : Nat) (hue : ℚ) : way n hue = modSix (n + 6 * hue) := by
  have sixth : hue + n / 6 = (n + 6 * hue) / 6 := by ring
  rw [way, modSix, sixth, Int.fract]
  ring

theorem channel_eq_share (c : Hsv ℚ) (n : Nat) :
    c.channel n = c.value - c.value * c.saturation * share n c.hue := by
  rw [share, way_eq_modSix]
  rfl

theorem share_add_intCast (n : Nat) (hue : ℚ) (turns : ℤ) : share n (hue + turns) = share n hue := by
  rw [← share_fract n (hue + turns), Int.fract_add_intCast, share_fract]

/-- The saturation is left out of one channel and takes its whole part from another. -/
theorem extremes_share (hue : ℚ) :
    min (min (share 5 hue) (share 3 hue)) (share 1 hue) = 0 ∧
      max (max (share 5 hue) (share 3 hue)) (share 1 hue) = 1 := by
  obtain ⟨k, sector, f, ⟨least, most⟩, position, -, -⟩ := exists_sector hue
  have opposite : 0 ≤ 1 - f := by linarith
  obtain ⟨zero, one, two, three, four, five⟩ := trapezoid_add least most.le
  rw [← share_fract 5, ← share_fract 3, ← share_fract 1, position, share_div_six 5 k least most.le,
    share_div_six 3 k least most.le, share_div_six 1 k least most.le]
  interval_cases k <;>
    simp [one, two, three, four, five, least, opposite, trapezoid_nonneg, trapezoid_le_one]

theorem channels_toRgb (c : Hsv ℚ) :
    c.toRgb = ⟨c.value - c.value * c.saturation * share 5 c.hue,
      c.value - c.value * c.saturation * share 3 c.hue,
      c.value - c.value * c.saturation * share 1 c.hue⟩ :=
  toRgb_eq_share c.hue c.saturation c.value

/-- Without saturation all sectors have one colour. -/
theorem inSector_of_gray {c : Hsv ℚ} (none : c.saturation = 0) (k : Nat) (f : ℚ) :
    c.inSector k f = ⟨c.value, c.value, c.value⟩ := by
  unfold inSector
  split <;> simp [none]

section Extremes

variable {c : Hsv ℚ} (saturation : 0 ≤ c.saturation) (value : 0 ≤ c.value)

include saturation value

theorem brightness_toRgb : c.toRgb.brightness = c.value := by
  have taken : 0 ≤ c.value * c.saturation := mul_nonneg value saturation
  rw [channels_toRgb]
  unfold Rgb.brightness
  rw [max_sub_sub_left, max_sub_sub_left, ← mul_min_of_nonneg _ _ taken, ← mul_min_of_nonneg _ _ taken,
    (extremes_share c.hue).1, mul_zero, sub_zero]

theorem leastChannel_toRgb : c.toRgb.leastChannel = c.value * (1 - c.saturation) := by
  have taken : 0 ≤ c.value * c.saturation := mul_nonneg value saturation
  rw [channels_toRgb]
  unfold Rgb.leastChannel
  rw [min_sub_sub_left, min_sub_sub_left, ← mul_max_of_nonneg _ _ taken, ← mul_max_of_nonneg _ _ taken,
    (extremes_share c.hue).2, mul_one, mul_sub, mul_one]

end Extremes

/-- The conversion is the closed form for every hue, so whole turns change nothing, the value is the
largest channel, and the smallest is what the saturation leaves of it. The shortcut for colours without
saturation gives what the sectors give, and each sector agrees with the closed form from its start to its
end, in every turn, so that at a boundary either of the two sectors may be taken. -/
theorem toRgb_eq_closedForm {c : Hsv ℚ} (saturation : 0 ≤ c.saturation) (value : 0 ≤ c.value) :
    c.toRgb = c.closedForm ∧
    (∀ turns : ℤ, toRgb { c with hue := c.hue + turns } = c.toRgb) ∧
    (c.toRgb.brightness = c.value ∧ c.toRgb.leastChannel = c.value * (1 - c.saturation)) ∧
    (let h := Scalar.wrap c.hue * Scalar.ofNat 6
     c.toRgb = c.inSector (Scalar.floorNat h % 6) (Scalar.fract h)) ∧
    ∀ k < 6, ∀ f, 0 ≤ f → f ≤ 1 → ∀ turns : ℤ,
      c.inSector k f = closedForm { c with hue := (k + f) / 6 + turns } := by
  have closed (d : Hsv ℚ) : d.toRgb = d.closedForm := by
    rw [channels_toRgb, closedForm, channel_eq_share, channel_eq_share, channel_eq_share]
  have sectors : ∀ k < 6, ∀ f, 0 ≤ f → f ≤ 1 → ∀ turns : ℤ,
      c.inSector k f = closedForm { c with hue := (k + f) / 6 + turns } := by
    intro k sector f least most turns
    rw [← closed, channels_toRgb]
    dsimp only
    rw [share_add_intCast, share_add_intCast, share_add_intCast]
    exact inSector_eq_share c sector least most
  refine ⟨closed c, ?period, ⟨brightness_toRgb saturation value, leastChannel_toRgb saturation value⟩,
    ?shortcut, sectors⟩
  case period =>
    intro turns
    rw [channels_toRgb, channels_toRgb]
    dsimp only
    rw [share_add_intCast, share_add_intCast, share_add_intCast]
  case shortcut =>
    rw [toRgb_eq_inSector]
    split_ifs with gray
    · exact (inSector_of_gray (by simpa using gray) _ _).symm
    · rfl

/-- More than a turn before the start of the circle, halfway through the last sector. -/
theorem toRgb_eq_closedForm_backward :
    let c : Hsv ℚ := ⟨-13 / 12, 1 / 2, 3 / 4⟩
    (0 ≤ c.saturation ∧ 0 ≤ c.value) ∧ c.toRgb = ⟨3 / 4, 3 / 8, 9 / 16⟩ ∧ c.toRgb = c.closedForm ∧
      toRgb { c with hue := c.hue + (2 : ℤ) } = c.toRgb ∧
      (c.toRgb.brightness = 3 / 4 ∧ c.toRgb.leastChannel = 3 / 4 * (1 - 1 / 2)) ∧
      c.inSector 5 (1 / 2) = closedForm { c with hue := ((5 : Nat) + 1 / 2) / 6 + (-2 : ℤ) } := by
  intro c
  have saturation : 0 ≤ c.saturation := by norm_num [c]
  have value : 0 ≤ c.value := by norm_num [c]
  obtain ⟨closed, period, extremes, -, sectors⟩ := toRgb_eq_closedForm saturation value
  exact ⟨⟨saturation, value⟩, by decide +kernel, closed, period 2, extremes,
    sectors 5 (by decide) (1 / 2) (by norm_num) (by norm_num) (-2)⟩

end Hsv

end DomainColoring
