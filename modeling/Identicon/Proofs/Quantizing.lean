import Identicon.Proofs.Binary64.Overflow
import Identicon.Proofs.Intensity

/-!
# Values as bytes

Under `clamp` every value becomes a byte, and greater values become no smaller bytes. The byte of a
number is known exactly: the number is scaled, rounded to a whole number, and clamped into the range
of bytes (`exists_intensity_clamp_eq`). Each of these steps is monotone. An overflow while scaling
does not disturb this, as it happens far outside the range and the infinity in place of the product
is clamped to the same end.

On `[-1, 1]` the byte differs from the exact scaled value by the half that rounding to a whole
number costs, and by half a unit in the last place of a number below 128 and of one below 256. The
three policies agree there, and wherever else the rounded intensity is in range.
-/

namespace Identicon

open Binary64

variable {w z : Float} {x : ℚ} {k : ℤ}

/-! ## In range and outside -/

/-- An intensity is in range, or below it or no number, or above it, and only one of these. -/
theorem byteRange_cases (v : Float) :
    (0 ≤ v ∧ v ≤ 255) ∧ ¬ (v < 0 ∨ v.isNaN = true) ∧ ¬ 255 < v ∨
    ¬ (0 ≤ v ∧ v ≤ 255) ∧ (v < 0 ∨ v.isNaN = true) ∧ ¬ 255 < v ∨
    ¬ (0 ≤ v ∧ v ≤ 255) ∧ ¬ (v < 0 ∨ v.isNaN = true) ∧ 255 < v := by
  rcases eq_nan_or_infinite_or_isFinite v with rfl | rfl | rfl | hfin
  · exact .inr (.inl (by decide))
  · exact .inr (.inr (by decide))
  · exact .inr (.inl (by decide))
  · have hv := holds_toRat hfin
    have hnan : ¬ v.isNaN = true := by
      rw [isNaN_eq_false hfin]
      exact Bool.false_ne_true
    rw [holds_zero.le_iff hv, hv.le_iff holds_255, hv.lt_iff holds_zero, holds_255.lt_iff hv,
      or_iff_left hnan]
    rcases lt_or_ge (toRat v) 0 with h0 | h0
    · exact .inr (.inl ⟨fun h => h0.not_ge h.1, h0, by linarith⟩)
    · rcases le_or_gt (toRat v) 255 with h255 | h255
      · exact .inl ⟨⟨h0, h255⟩, h0.not_gt, h255.not_gt⟩
      · exact .inr (.inr ⟨fun h => h255.not_ge h.2, h0.not_gt, h255⟩)

theorem intensity_strict_of_not_mem (h : ¬ (0 ≤ roundedIntensity z ∧ roundedIntensity z ≤ 255)) :
    intensity .strict z = .error (.channelOverflow (roundedIntensity z)) :=
  if_neg h

theorem intensity_clamp_of_not_mem (h : ¬ (0 ≤ roundedIntensity z ∧ roundedIntensity z ≤ 255)) :
    intensity .clamp z = .ok (if 255 < roundedIntensity z then 255 else 0) :=
  if_neg h

theorem intensity_clamp_of_low (h : roundedIntensity z < 0 ∨ (roundedIntensity z).isNaN = true) :
    intensity .clamp z = .ok 0 := by
  rcases byteRange_cases (roundedIntensity z) with ⟨-, hlow, -⟩ | ⟨hout, -, hhigh⟩ | ⟨-, hlow, -⟩
  · exact absurd h hlow
  · rw [intensity_clamp_of_not_mem hout, if_neg hhigh]
  · exact absurd h hlow

theorem intensity_clamp_of_high (h : 255 < roundedIntensity z) : intensity .clamp z = .ok 255 := by
  rcases byteRange_cases (roundedIntensity z) with ⟨-, -, hhigh⟩ | ⟨-, -, hhigh⟩ | ⟨hout, -, -⟩
  · exact absurd h hhigh
  · exact absurd h hhigh
  · rw [intensity_clamp_of_not_mem hout, if_pos h]

/-! ## Clamping -/

theorem exists_intensity_clamp_eq_of_holds (hv : Holds (roundedIntensity z) k) :
    ∃ b : UInt8, intensity .clamp z = .ok b ∧ (b.toNat : ℤ) = max 0 (min k 255) := by
  rcases byteRange_cases (roundedIntensity z) with ⟨hin, -, -⟩ | ⟨-, hlow, -⟩ | ⟨-, -, hhigh⟩
  · refine ⟨_, intensity_of_mem hin .clamp, ?_⟩
    obtain ⟨h0, h255⟩ := hv.mem_byteRange_iff.mp hin
    rw [hv.toNat_byte h0 h255, min_eq_left h255, max_eq_right h0]
  · refine ⟨0, intensity_clamp_of_low hlow, ?_⟩
    rw [isNaN_eq_false hv.isFinite, or_iff_left Bool.false_ne_true, hv.lt_iff holds_zero] at hlow
    have h0 : k < 0 := by exact_mod_cast hlow
    rw [max_eq_left (by omega)]
    rfl
  · refine ⟨255, intensity_clamp_of_high hhigh, ?_⟩
    rw [holds_255.lt_iff hv] at hhigh
    have h255 : 255 < k := by exact_mod_cast hhigh
    rw [min_eq_right h255.le]
    rfl

/-- An infinity stays what it is while scaling goes on, and is clamped to the end on its side. -/
theorem intensity_clamp_of_mul_eq_inf (h : z * 127.5 = Float.inf) :
    intensity .clamp z = .ok 255 := by
  have hv : roundedIntensity z = Float.inf := by
    rw [roundedIntensity, h]
    decide +kernel
  exact intensity_clamp_of_high (by rw [hv]; decide)

theorem intensity_clamp_of_mul_eq_neg_inf (h : z * 127.5 = -Float.inf) :
    intensity .clamp z = .ok 0 := by
  have hv : roundedIntensity z = -Float.inf := by
    rw [roundedIntensity, h]
    decide +kernel
  exact intensity_clamp_of_low (by rw [hv]; decide)

/-- **The clamped byte of a number is the number scaled, rounded, and clamped.** -/
theorem exists_intensity_clamp_eq (hz : Holds z x) :
    ∃ b : UInt8, intensity .clamp z = .ok b ∧
      (b.toNat : ℤ) = max 0 (min (halfAway (scaled x)) 255) := by
  rcases lt_or_ge |nearest (x * (255 / 2))| (2 ^ 1024) with hlt | hge
  · exact exists_intensity_clamp_eq_of_holds (holds_scaled hz hlt).roundHalfAway
  · have hlarge : (2 : ℚ) ^ 8 ≤ 2 ^ 1024 := pow_le_pow_right₀ one_le_two (by norm_num)
    -- a number this large is clamped to the same end as the infinity in place of the product
    rcases le_abs.mp hge with hpos | hneg
    · have hmul := hlarge.trans hpos
      have hsum : ((255 : ℤ) : ℚ) ≤ scaled x :=
        le_nearest holds_255.onGrid (by push_cast; linarith only [hmul])
      refine ⟨255, intensity_clamp_of_mul_eq_inf (hz.mul_eq_inf holds_127_5 hpos), ?_⟩
      rw [min_eq_right (le_halfAway hsum)]
      rfl
    · have hmul := hlarge.trans hneg
      have hsum : scaled x ≤ ((0 : ℤ) : ℚ) :=
        nearest_le onGrid_zero (by push_cast; linarith only [hmul])
      refine ⟨0, intensity_clamp_of_mul_eq_neg_inf
        (hz.mul_eq_neg_inf holds_127_5 (le_neg_of_le_neg hneg)), ?_⟩
      rw [max_eq_left ((min_le_left _ _).trans (halfAway_le hsum))]
      rfl

theorem intensity_clamp_inf : intensity .clamp Float.inf = .ok 255 :=
  intensity_clamp_of_mul_eq_inf rfl

theorem intensity_clamp_neg_inf : intensity .clamp (-Float.inf) = .ok 0 :=
  intensity_clamp_of_mul_eq_neg_inf rfl

/-- Every value has a clamped byte, a NaN the byte 0. -/
theorem exists_intensity_clamp (z : Float) : ∃ b : UInt8, intensity .clamp z = .ok b := by
  by_cases h : 0 ≤ roundedIntensity z ∧ roundedIntensity z ≤ 255
  · exact ⟨_, intensity_of_mem h .clamp⟩
  · exact ⟨_, intensity_clamp_of_not_mem h⟩

/-- Greater values do not become smaller bytes. -/
theorem intensity_clamp_mono (h : z ≤ w) :
    ∃ b b' : UInt8, intensity .clamp z = .ok b ∧ intensity .clamp w = .ok b' ∧ b ≤ b' := by
  rcases infinite_or_isFinite_of_le h with rfl | rfl | ⟨hz, hw⟩
  · obtain ⟨b', hb'⟩ := exists_intensity_clamp w
    refine ⟨0, b', intensity_clamp_neg_inf, hb', ?_⟩
    rw [UInt8.le_iff_toNat_le]
    exact b'.toNat.zero_le
  · obtain ⟨b, hb⟩ := exists_intensity_clamp z
    refine ⟨b, 255, hb, intensity_clamp_inf, ?_⟩
    rw [UInt8.le_iff_toNat_le]
    exact Nat.le_of_lt_succ b.toNat_lt
  · obtain ⟨b, hb, hbyte⟩ := exists_intensity_clamp_eq (holds_toRat hz)
    obtain ⟨b', hb', hbyte'⟩ := exists_intensity_clamp_eq (holds_toRat hw)
    have hround := halfAway_mono (scaled_mono ((le_iff_toRat_le hz hw).mp h))
    refine ⟨b, b', hb, hb', ?_⟩
    rw [UInt8.le_iff_toNat_le]
    omega

/-! ## The error of a byte -/

/-- What the two operations of scaling lose: half a unit in the last place of a number below 128,
and of one below 256. -/
theorem abs_scaled_sub_le (hx : |x| ≤ 1) :
    |scaled x - (255 / 2 * x + 255 / 2)| ≤ 2 ^ (-45 : ℤ) := by
  have hmulq : |x * (255 / 2)| ≤ 255 / 2 := by
    rw [abs_mul, abs_of_pos (by norm_num : (0 : ℚ) < 255 / 2)]
    exact mul_le_of_le_one_left (by norm_num) hx
  have hmul : |x * (255 / 2) - nearest (x * (255 / 2))| ≤ 2 ^ (-46 - 1 : ℤ) :=
    abs_sub_nearest_le_of_abs_lt (by norm_num) (hmulq.trans_lt (by norm_num))
  obtain ⟨hlo, hhi⟩ := abs_le.mp (abs_nearest_le holds_127_5.onGrid hmulq)
  have hsum : |nearest (x * (255 / 2)) + 255 / 2 - scaled x| ≤ 2 ^ (-45 - 1 : ℤ) := by
    apply abs_sub_nearest_le_of_abs_lt (by norm_num)
    rw [abs_of_nonneg (by linarith)]
    norm_num
    linarith
  generalize nearest (x * (255 / 2)) = y at hmul hsum
  calc |scaled x - (255 / 2 * x + 255 / 2)|
      = |(y + 255 / 2 - scaled x) + (x * (255 / 2) - y)| := by
        rw [← abs_neg]
        ring_nf
    _ ≤ 2 ^ (-45 - 1 : ℤ) + 2 ^ (-46 - 1 : ℤ) := (abs_add_le _ _).trans (add_le_add hsum hmul)
    _ ≤ 2 ^ (-45 : ℤ) := by norm_num

/-- The byte of a value in range is half away from the exact scaled value at most, but for what
scaling loses. -/
theorem abs_byte_sub_le (hz : InUnit z) :
    |((roundedIntensity z).toUInt8.toNat : ℚ) - (255 / 2 * toRat z + 255 / 2)| ≤
      1 / 2 + 2 ^ (-45 : ℤ) := by
  have hbyte := toNat_roundedIntensity hz
  rw [(holds_scaled_of_inUnit hz).toRat_eq] at hbyte
  have hcast : ((roundedIntensity z).toUInt8.toNat : ℚ) = halfAway (scaled (toRat z)) := by
    exact_mod_cast hbyte
  rw [hcast]
  calc |(halfAway (scaled (toRat z)) : ℚ) - (255 / 2 * toRat z + 255 / 2)|
      ≤ |(halfAway (scaled (toRat z)) : ℚ) - scaled (toRat z)| +
          |scaled (toRat z) - (255 / 2 * toRat z + 255 / 2)| := abs_sub_le _ _ _
    _ ≤ 1 / 2 + 2 ^ (-45 : ℤ) := by
        rw [abs_sub_comm]
        exact add_le_add (abs_sub_halfAway_le _) (abs_scaled_sub_le hz.abs_toRat_le)

/-! ## All policies -/

/-- **Clamping is a monotone quantizer that is exact up to rounding, and the policies agree in
range.** Monotone for all values that compare, infinities included; half a byte and `2 ^ (-45)` away
from the exact scaled value for values in `[-1, 1]`; and for every value, NaN included, `strict`
fails with the rounded intensity where `clamp` takes an end of the range, and elsewhere all policies
give the same byte. -/
theorem intensity_quantizes :
    (∀ z w : Float, z ≤ w →
      ∃ b b' : UInt8, intensity .clamp z = .ok b ∧ intensity .clamp w = .ok b' ∧ b ≤ b') ∧
    (∀ z : Float, -1 ≤ z → z ≤ 1 → ∀ policy : Policy,
      ∃ b : UInt8, intensity policy z = .ok b ∧
        |(b.toNat : ℚ) - (255 / 2 * toRat z + 255 / 2)| ≤ 1 / 2 + 2 ^ (-45 : ℤ)) ∧
    ∀ z v : Float, roundHalfAway (z * 127.5 + 127.5) = v →
      ((∃ b : UInt8, intensity .strict z = .ok b) ↔ 0 ≤ v ∧ v ≤ 255) ∧
      (0 ≤ v ∧ v ≤ 255 → ∃ b : UInt8, ∀ policy : Policy, intensity policy z = .ok b) ∧
      (¬ (0 ≤ v ∧ v ≤ 255) → intensity .strict z = .error (.channelOverflow v) ∧
        ((v < 0 ∨ v.isNaN = true) ∧ intensity .clamp z = .ok 0 ∨
          255 < v ∧ intensity .clamp z = .ok 255)) := by
  refine ⟨fun z w => intensity_clamp_mono, ?_, ?_⟩
  · intro z hlo hhi policy
    have hz : InUnit z := ⟨hlo, hhi⟩
    exact ⟨_, intensity_of_inUnit hz policy, abs_byte_sub_le hz⟩
  · rintro z v rfl
    change (_ ↔ 0 ≤ roundedIntensity z ∧ roundedIntensity z ≤ 255) ∧ _
    refine ⟨⟨?_, ?_⟩, ?_, ?_⟩
    · rintro ⟨b, hb⟩
      by_contra hout
      rw [intensity_strict_of_not_mem hout] at hb
      cases hb
    · exact fun hin => ⟨_, intensity_of_mem hin .strict⟩
    · exact fun hin => ⟨_, intensity_of_mem hin⟩
    · intro hout
      refine ⟨intensity_strict_of_not_mem hout, ?_⟩
      rcases byteRange_cases (roundedIntensity z) with ⟨hin, -, -⟩ | ⟨-, hlow, -⟩ | ⟨-, -, hhigh⟩
      · exact absurd hin hout
      · exact .inl ⟨hlow, intensity_clamp_of_low hlow⟩
      · exact .inr ⟨hhigh, intensity_clamp_of_high hhigh⟩

/-- The law at values far out of range, at an end of the range, and at NaN. -/
theorem intensity_quantizes_nan :
    (∃ b b' : UInt8, intensity .clamp (-1.5) = .ok b ∧ intensity .clamp Float.inf = .ok b' ∧
      b ≤ b') ∧
    (∃ b : UInt8, intensity .wrap 1 = .ok b ∧
      |(b.toNat : ℚ) - (255 / 2 * toRat 1 + 255 / 2)| ≤ 1 / 2 + 2 ^ (-45 : ℤ)) ∧
    intensity .strict Float.nan = .error (.channelOverflow Float.nan) := by
  obtain ⟨hmono, herror, hlaw⟩ := intensity_quantizes
  have hnan : roundHalfAway (Float.nan * 127.5 + 127.5) = Float.nan := by decide +kernel
  have hout : ¬ (0 ≤ Float.nan ∧ Float.nan ≤ 255) := by decide
  exact ⟨hmono (-1.5) Float.inf (by decide +kernel),
    herror 1 (by decide +kernel) (by decide +kernel) .wrap, ((hlaw Float.nan _ hnan).2.2 hout).1⟩

end Identicon
