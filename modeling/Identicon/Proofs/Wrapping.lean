import Identicon.Proofs.Binary64.Overflow
import Identicon.Proofs.Intensity

/-!
# Wrapped intensities

Under `wrap` a byte is the remainder of the rounded intensity by 256, taken after the intensity has
been clamped into the signed 64-bit range. At the lower end of that range clamping does not show:
all doubles beyond it are multiples of 256, and so is the end. The upper end is no multiple, as it
is one less than a power of two. Intensities from `2 ^ 63` on have the remainder 0 and become 255
nevertheless, so that `wrap` is modular below `2 ^ 63` and nowhere else (`intensity_wrap`).
-/

namespace Identicon

open Binary64

variable {k : ℤ} {z : Float}

namespace Binary64

/-- Doubles that are large enough end in eight zeros. -/
theorem Holds.emod_eq_zero (h : Holds z k) (hk : 2 ^ 60 ≤ |k|) : k % 256 = 0 := by
  have hq : (2 : ℚ) ^ (52 + 8 : ℤ) ≤ |(k : ℚ)| := by exact_mod_cast hk
  obtain ⟨n, hn⟩ := h.onGrid.exists_eq_mul_two_zpow hq
  have heq : k = n * 256 := by
    norm_num at hn
    exact_mod_cast hn
  rw [heq, Int.mul_emod_left]

/-- What clamping into the signed 64-bit range does to the remainder. -/
theorem Holds.toInt_emod (h : Holds z k) :
    toInt z % 256 = if k < 2 ^ 63 then k % 256 else 255 := by
  rw [h.toInt_eq, truncate_intCast]
  -- below the range both the double and the end that stands in for it are multiples of 256
  rcases lt_or_ge k (-2 ^ 63) with hlow | hlow
  · have hzero := h.emod_eq_zero (by rw [abs_of_neg (by omega)]; omega)
    omega
  · omega

end Binary64

/-- The byte of a remainder by 256. -/
theorem toNat_ofNat_emod (k : ℤ) : ((UInt8.ofNat (k % 256).toNat).toNat : ℤ) = k % 256 := by
  rw [UInt8.toNat_ofNat']
  omega

theorem intensity_wrap_of_not_mem (h : ¬ (0 ≤ roundedIntensity z ∧ roundedIntensity z ≤ 255)) :
    intensity .wrap z = .ok (UInt8.ofNat (toInt (roundedIntensity z) % 256).toNat) :=
  if_neg h

/-- The byte that a whole intensity becomes. -/
theorem exists_intensity_wrap_eq (h : Holds (roundedIntensity z) k) :
    ∃ b : UInt8, intensity .wrap z = .ok b ∧
      (b.toNat : ℤ) = if k < 2 ^ 63 then k % 256 else 255 := by
  by_cases hrange : 0 ≤ roundedIntensity z ∧ roundedIntensity z ≤ 255
  · refine ⟨_, intensity_of_mem hrange .wrap, ?_⟩
    obtain ⟨h0, h255⟩ := h.mem_byteRange_iff.mp hrange
    rw [h.toNat_byte h0 h255]
    omega
  · refine ⟨_, intensity_wrap_of_not_mem hrange, ?_⟩
    rw [toNat_ofNat_emod, h.toInt_emod]

/-- **Under `wrap` a finite intensity becomes its remainder by 256 if it is less than `2 ^ 63`, and
255 if it is not**, which is not its remainder. -/
theorem intensity_wrap (h : (roundedIntensity z).isFinite = true) :
    ∃ x : ℚ, Holds (z * 127.5 + 127.5) x ∧ Holds (roundedIntensity z) (halfAway x) ∧
      ∃ b : UInt8, intensity .wrap z = .ok b ∧
        (b.toNat : ℤ) = (if halfAway x < 2 ^ 63 then halfAway x % 256 else 255) ∧
        ((b.toNat : ℤ) = halfAway x % 256 ↔ halfAway x < 2 ^ 63) := by
  have hscaled : Holds (z * 127.5 + 127.5) (toRat (z * 127.5 + 127.5)) :=
    holds_toRat (isFinite_of_isFinite_roundHalfAway h)
  have hv := hscaled.roundHalfAway
  obtain ⟨b, hb, hbyte⟩ := exists_intensity_wrap_eq hv
  refine ⟨_, hscaled, hv, b, hb, hbyte, ?_⟩
  rw [hbyte]
  split_ifs with hlt
  · exact iff_of_true rfl hlt
  · -- large doubles have no remainder
    have hzero := hv.emod_eq_zero (by rw [abs_of_nonneg (by omega)]; omega)
    exact iff_of_false (by omega) hlt

/-- The intensity of `-1.5` is `-64`, of which 192 is left. -/
theorem intensity_wrap_negative :
    (roundedIntensity (-1.5)).isFinite = true ∧
      ∃ b : UInt8, intensity .wrap (-1.5) = .ok b ∧ (b.toNat : ℤ) = -64 % 256 := by
  have hfin : (roundedIntensity (-1.5)).isFinite = true := rfl
  have h64 : Holds 64 64 :=
    holds_of_unpack (m := 2 ^ 52) (e := -46) (by norm_num) rfl (by norm_num)
  have hvalue : roundedIntensity (-1.5) = -64 := by decide +kernel
  obtain ⟨x, -, hv, b, hb, hbyte, -⟩ := intensity_wrap hfin
  have hx : halfAway x = -64 := by
    rw [hvalue] at hv
    exact_mod_cast hv.toRat_eq.symm.trans h64.neg.toRat_eq
  refine ⟨hfin, b, hb, ?_⟩
  rw [hbyte, hx]
  rfl

/-- The intensity of `1e17` is a multiple of 256 and becomes 255. -/
theorem intensity_wrap_large :
    Holds (roundedIntensity 1e17) (12750000000000000000 : ℤ) ∧
      (12750000000000000000 : ℤ) % 256 = 0 ∧ intensity .wrap 1e17 = .ok 255 := by
  have hvalue : roundedIntensity 1e17 = Float.ofBits 0x43e61e232e52c760 := rfl
  have hrange : ¬ (0 ≤ roundedIntensity 1e17 ∧ roundedIntensity 1e17 ≤ 255) := by
    rw [hvalue]
    decide
  have hint : toInt (roundedIntensity 1e17) = 2 ^ 63 - 1 := by
    rw [hvalue]
    rfl
  refine ⟨?_, by norm_num, ?_⟩
  · exact holds_of_unpack (m := 0x161e232e52c760) (e := 11) (by norm_num) rfl (by norm_num)
  · rw [intensity_wrap_of_not_mem hrange, hint]
    rfl

end Identicon
