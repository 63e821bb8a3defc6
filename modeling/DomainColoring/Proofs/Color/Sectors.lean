import DomainColoring.Color.Rgb
import DomainColoring.Proofs.Scalar.Exact
import Mathlib

/-!
# Six sectors as one formula

The conversion from hue, saturation and value picks one of six orders of its four numbers. With exact
numbers these are one formula: each channel is the value less a share of the saturation, and the share
depends on how far round the circle the hue is, seen from that channel (`Hsv.toRgb_eq_share`). The orders
of two neighbouring sectors agree where these meet (`Hsv.inSector_eq_share` has both ends of a sector).
-/

namespace DomainColoring

variable {K : Type} [Field K] [LinearOrder K]

/-- Up from 0 to 1, level for two units, and down again; nothing from 4 on. -/
def trapezoid (q : K) : K := max 0 (min (min q (4 - q)) 1)

theorem trapezoid_nonneg (q : K) : 0 ≤ trapezoid q := le_max_left _ _

variable [IsStrictOrderedRing K]

section Trapezoid

variable {q f : K}

theorem trapezoid_le_one (q : K) : trapezoid q ≤ 1 := max_le zero_le_one (min_le_right _ _)

theorem trapezoid_up (nonneg : 0 ≤ q) (le : q ≤ 1) : trapezoid q = q := by
  have rising : min q (4 - q) = q := min_eq_left (by linarith)
  rw [trapezoid, rising, min_eq_left le, max_eq_right nonneg]

theorem trapezoid_top (least : 1 ≤ q) (most : q ≤ 3) : trapezoid q = 1 := by
  have high : 1 ≤ min q (4 - q) := le_min least (by linarith)
  rw [trapezoid, min_eq_right high, max_eq_right zero_le_one]

theorem trapezoid_down (least : 3 ≤ q) (most : q ≤ 4) : trapezoid q = 4 - q := by
  have falling : min q (4 - q) = 4 - q := min_eq_right (by linarith)
  rw [trapezoid, falling, min_eq_left (by linarith), max_eq_right (by linarith)]

theorem trapezoid_bottom (least : 4 ≤ q) : trapezoid q = 0 := by
  have falling : min q (4 - q) = 4 - q := min_eq_right (by linarith)
  rw [trapezoid, falling, min_eq_left (by linarith), max_eq_left (by linarith)]

/-- The trapezoid within each of six units. -/
theorem trapezoid_add (least : 0 ≤ f) (most : f ≤ 1) :
    trapezoid (0 + f) = f ∧ trapezoid (1 + f) = 1 ∧ trapezoid (2 + f) = 1 ∧
      trapezoid (3 + f) = 1 - f ∧ trapezoid (4 + f) = 0 ∧ trapezoid (5 + f) = 0 := by
  refine ⟨?up, trapezoid_top (by linarith) (by linarith), trapezoid_top (by linarith) (by linarith),
    ?down, trapezoid_bottom (by linarith), trapezoid_bottom (by linarith)⟩
  case up => rw [zero_add, trapezoid_up least most]
  case down =>
    rw [trapezoid_down (by linarith) (by linarith)]
    ring

end Trapezoid

namespace Hsv

/-- The channels of a colour whose hue is `f` of the way through sector `k`. -/
def inSector {α : Type} [Scalar α] (c : Hsv α) (k : Nat) (f : α) : Rgb α :=
  let v := c.value
  let p := v * (Scalar.ofNat 1 - c.saturation)
  let q := v * (Scalar.ofNat 1 - c.saturation * f)
  let t := v * (Scalar.ofNat 1 - c.saturation * (Scalar.ofNat 1 - f))
  match k with
  | 0 => ⟨v, t, p⟩
  | 1 => ⟨q, v, p⟩
  | 2 => ⟨p, v, t⟩
  | 3 => ⟨p, q, v⟩
  | 4 => ⟨t, p, v⟩
  | _ => ⟨v, p, q⟩

/-- The conversion is the channels in the sector of the hue, unless there is no saturation. -/
theorem toRgb_eq_inSector {α : Type} [Scalar α] (c : Hsv α) :
    c.toRgb =
      if c.saturation == Scalar.ofNat 0 then ⟨c.value, c.value, c.value⟩
      else
        let h := Scalar.wrap c.hue * Scalar.ofNat 6
        c.inSector (Scalar.floorNat h % 6) (Scalar.fract h) := rfl

variable [FloorRing K]

/-- How many sectors round the circle the hue is, counted from `n` sectors before its start. -/
def way (n : Nat) (hue : K) : K := 6 * Int.fract (hue + n / 6)

/-- The share of the saturation that is taken from the channel whose full sectors end `n` sectors before
the start of the circle. -/
def share (n : Nat) (hue : K) : K := trapezoid (way n hue)

omit [IsStrictOrderedRing K] in
theorem share_nonneg (n : Nat) (hue : K) : 0 ≤ share n hue := trapezoid_nonneg _

theorem share_le_one (n : Nat) (hue : K) : share n hue ≤ 1 := trapezoid_le_one _

/-- Whole sectors are counted round, and the way within a sector stays. -/
theorem way_div_six {f : K} (n k : Nat) (least : 0 ≤ f) (most : f < 1) :
    way n ((k + f) / 6) = ((n + k) % 6 : Nat) + f := by
  have sectors : ((n + k) % 6 : Nat) + 6 * (((n + k) / 6 : Nat) : K) = n + k := by
    exact_mod_cast Nat.mod_add_div (n + k) 6
  have few : (((n + k) % 6 : Nat) : K) ≤ 5 := by
    exact_mod_cast Nat.le_of_lt_succ (Nat.mod_lt (n + k) (by decide))
  have some : (0 : K) ≤ ((n + k) % 6 : Nat) := Nat.cast_nonneg _
  generalize (n + k) % 6 = r at sectors few some ⊢
  generalize (n + k) / 6 = d at sectors
  have position : Int.fract ((k + f) / 6 + n / 6) = (r + f) / 6 := by
    refine Int.fract_eq_iff.2 ⟨by linarith, by linarith, d, ?_⟩
    push_cast
    linarith
  rw [way, position]
  ring

/-- The share is read off the trapezoid within a sector, both ends of the sector included. -/
theorem share_div_six {f : K} (n k : Nat) (least : 0 ≤ f) (most : f ≤ 1) :
    share n ((k + f) / 6) = trapezoid (((n + k) % 6 : Nat) + f) := by
  rcases most.lt_or_eq with within | rfl
  · rw [share, way_div_six n k least within]
  · -- the end of a sector is the start of the next one, and the last one ends where the first starts
    have next : (k + 1 : K) / 6 = ((k + 1 : Nat) + 0) / 6 := by push_cast; ring
    have follows : (n + (k + 1)) % 6 = if (n + k) % 6 = 5 then 0 else (n + k) % 6 + 1 := by
      split_ifs <;> omega
    rw [share, next, way_div_six n (k + 1) le_rfl one_pos, follows, add_zero]
    split_ifs with last
    · have bottom : trapezoid ((5 : Nat) + 1 : K) = 0 := trapezoid_bottom (by norm_num)
      rw [last, bottom, Nat.cast_zero, trapezoid_up le_rfl zero_le_one]
    · rw [Nat.cast_succ]

/-- In each sector, both of its ends included, each channel is the value less a share of the
saturation. -/
theorem inSector_eq_share {f : K} (c : Hsv K) {k : Nat} (sector : k < 6) (least : 0 ≤ f) (most : f ≤ 1) :
    @inSector K (Scalar.ofField K) c k f =
      ⟨c.value - c.value * c.saturation * share 5 ((k + f) / 6),
        c.value - c.value * c.saturation * share 3 ((k + f) / 6),
        c.value - c.value * c.saturation * share 1 ((k + f) / 6)⟩ := by
  -- the three channels are as many units along the trapezoid as they are apart
  obtain ⟨zero, one, two, three, four, five⟩ := trapezoid_add least most
  rw [share_div_six 5 k least most, share_div_six 3 k least most, share_div_six 1 k least most]
  unfold inSector
  interval_cases k <;>
    simp only [Scalar.ofNat, Nat.reduceMod, Nat.reduceAdd, Nat.cast_zero, Nat.cast_one, Nat.cast_ofNat,
      zero, one, two, three, four, five, Rgb.mk.injEq] <;>
    refine ⟨?_, ?_, ?_⟩ <;> ring

/-- Every hue is some way through a sector, whole turns apart. -/
theorem exists_sector (hue : K) :
    ∃ k : Nat, k < 6 ∧ ∃ f : K, (0 ≤ f ∧ f < 1) ∧ Int.fract hue = (k + f) / 6 ∧
      ⌊Int.fract hue * 6⌋₊ = k ∧ Int.fract (Int.fract hue * 6) = f := by
  have nonneg : 0 ≤ Int.fract hue * 6 := mul_nonneg (Int.fract_nonneg hue) (by norm_num)
  have below : Int.fract hue * 6 < (6 : Nat) := by
    push_cast
    linarith [Int.fract_lt_one hue]
  have whole : (⌊Int.fract hue * 6⌋₊ : K) + Int.fract (Int.fract hue * 6) = Int.fract hue * 6 := by
    rw [natCast_floor_eq_intCast_floor nonneg, Int.floor_add_fract]
  exact ⟨_, (Nat.floor_lt nonneg).2 below, _, ⟨Int.fract_nonneg _, Int.fract_lt_one _⟩,
    by rw [whole]; ring, rfl, rfl⟩

/-- A channel depends on the hue within its turn only. -/
theorem share_fract (n : Nat) (hue : K) : share n (Int.fract hue) = share n hue := by
  have turns : hue + n / 6 = Int.fract hue + n / 6 + ⌊hue⌋ := by
    rw [add_right_comm, Int.fract_add_floor]
  rw [share, share, way, way, turns, Int.fract_add_intCast]

/-- With exact numbers each channel is the value less a share of the saturation. -/
theorem toRgb_eq_share (hue saturation value : K) :
    @toRgb K (Scalar.ofField K) ⟨hue, saturation, value⟩ =
      ⟨value - value * saturation * share 5 hue, value - value * saturation * share 3 hue,
        value - value * saturation * share 1 hue⟩ := by
  obtain ⟨k, sector, f, ⟨least, most⟩, position, whole, part⟩ := exists_sector hue
  have nonneg : 0 ≤ Int.fract hue * 6 := mul_nonneg (Int.fract_nonneg hue) (by norm_num)
  rw [@toRgb_eq_inSector K (Scalar.ofField K)]
  simp only [Scalar.wrap_ofField, Scalar.ofNat, Scalar.floorNat, Nat.cast_ofNat,
    Scalar.fract_ofField nonneg, whole, part, Nat.mod_eq_of_lt sector]
  rw [inSector_eq_share _ sector least most.le, ← position, share_fract, share_fract, share_fract]
  split_ifs with gray
  · have none : saturation = 0 := by simpa using gray
    simp [none]
  · rfl

end Hsv

end DomainColoring
