import Identicon.Intensity
import Identicon.Proofs.Range

/-!
# Intensities of values in range

The map of `[-1, 1]` onto `[0, 255]` takes two rounded operations and the rounding to a whole
number. All three are monotone, and the ends of the range are doubles and whole numbers, so that
none of them leaves it. Every policy then gives the same byte and none of them has anything to say.

## Main definitions

* `scaled`: the exact number that the two rounded operations compute.
-/

namespace Identicon

open Binary64

variable {z : Float} {x : ℚ}

namespace Binary64

theorem holds_127_5 : Holds 127.5 (255 / 2) :=
  holds_of_unpack (m := 0x1FE00000000000) (e := -46) (by norm_num) rfl (by norm_num)

theorem holds_255 : Holds 255 255 :=
  holds_of_unpack (m := 0x1FE00000000000) (e := -45) (by norm_num) rfl (by norm_num)

/-- Whole doubles are in the range of bytes if they are as integers. -/
theorem Holds.mem_byteRange_iff {k : ℤ} (h : Holds z k) :
    0 ≤ z ∧ z ≤ 255 ↔ 0 ≤ k ∧ k ≤ 255 := by
  rw [holds_zero.le_iff h, h.le_iff holds_255]
  norm_cast

/-- A double that holds a byte is converted to this byte. -/
theorem Holds.toNat_byte {k : ℤ} (h : Holds z k) (h0 : 0 ≤ k) (h255 : k ≤ 255) :
    (z.toUInt8.toNat : ℤ) = k := by
  have hlt : (k : ℚ) < 2 ^ 8 := by exact_mod_cast (by omega : k < 256)
  rw [toNat_toUInt8 h (by exact_mod_cast h0) hlt, ← Int.floor_toNat, Int.floor_intCast,
    Int.toNat_of_nonneg h0]

end Binary64

/-! ## Scaling -/

/-- A number scaled from `[-1, 1]` to `[0, 255]`, both operations rounded. -/
def scaled (x : ℚ) : ℚ :=
  nearest (nearest (x * (255 / 2)) + 255 / 2)

theorem scaled_mono : Monotone scaled := by
  intro x y hxy
  have hmul : nearest (x * (255 / 2)) ≤ nearest (y * (255 / 2)) := nearest_mono (by linarith)
  exact nearest_mono (by linarith)

theorem scaled_neg_one : scaled (-1) = 0 := by
  rw [scaled, neg_one_mul, nearest_of_onGrid holds_127_5.onGrid.neg, neg_add_cancel, nearest_zero]

theorem scaled_zero : scaled 0 = 255 / 2 := by
  rw [scaled, zero_mul, nearest_zero, zero_add, nearest_of_onGrid holds_127_5.onGrid]

theorem scaled_one : scaled 1 = 255 := by
  rw [scaled, one_mul, nearest_of_onGrid holds_127_5.onGrid, add_halves,
    nearest_of_onGrid holds_255.onGrid]

/-- The ends of the range are scaled without rounding, so that nothing is scaled past them. -/
theorem scaled_mem (hx : |x| ≤ 1) : 0 ≤ scaled x ∧ scaled x ≤ 255 := by
  obtain ⟨hlo, hhi⟩ := abs_le.mp hx
  rw [← scaled_neg_one, ← scaled_one]
  exact ⟨scaled_mono hlo, scaled_mono hhi⟩

/-- If the product does not overflow, the sum does not either. -/
theorem holds_scaled (hz : Holds z x) (h : |nearest (x * (255 / 2))| < 2 ^ 1024) :
    Holds (z * 127.5 + 127.5) (scaled x) := by
  have hmul := hz.mul holds_127_5 h
  exact hmul.add holds_127_5 (hmul.abs_nearest_add_lt (by norm_num))

theorem holds_scaled_of_inUnit (hz : InUnit z) :
    Holds (z * 127.5 + 127.5) (scaled (toRat z)) := by
  apply holds_scaled hz.holds
  apply abs_nearest_lt
  calc |toRat z * (255 / 2)| = |toRat z| * (255 / 2) := by
        rw [abs_mul, abs_of_pos (by norm_num : (0 : ℚ) < 255 / 2)]
    _ ≤ 1 * (255 / 2) := mul_le_mul_of_nonneg_right hz.abs_toRat_le (by norm_num)
    _ ≤ 2 ^ 100 := by norm_num

/-! ## Values in range -/

/-- No policy has to interfere with an intensity in range. -/
theorem intensity_of_mem (h : 0 ≤ roundedIntensity z ∧ roundedIntensity z ≤ 255)
    (policy : Policy) : intensity policy z = .ok (roundedIntensity z).toUInt8 :=
  if_pos h

/-- The rounded intensity of a value in range is a whole number from 0 to 255. -/
theorem holds_roundedIntensity (hz : InUnit z) :
    Holds (roundedIntensity z) (halfAway (scaled (toRat z))) ∧
      0 ≤ halfAway (scaled (toRat z)) ∧ halfAway (scaled (toRat z)) ≤ 255 := by
  obtain ⟨h0, h255⟩ := scaled_mem hz.abs_toRat_le
  exact ⟨(holds_scaled_of_inUnit hz).roundHalfAway,
    le_halfAway (by exact_mod_cast h0), halfAway_le (by exact_mod_cast h255)⟩

theorem intensity_of_inUnit (hz : InUnit z) (policy : Policy) :
    intensity policy z = .ok (roundedIntensity z).toUInt8 := by
  obtain ⟨hv, h0, h255⟩ := holds_roundedIntensity hz
  exact intensity_of_mem (hv.mem_byteRange_iff.mpr ⟨h0, h255⟩) policy

/-- The byte of a value in range is the whole number nearest to the scaled value. -/
theorem toNat_roundedIntensity (hz : InUnit z) :
    ((roundedIntensity z).toUInt8.toNat : ℤ) = halfAway (toRat (z * 127.5 + 127.5)) := by
  obtain ⟨hv, h0, h255⟩ := holds_roundedIntensity hz
  rw [(holds_scaled_of_inUnit hz).toRat_eq]
  exact hv.toNat_byte h0 h255

end Identicon
