import Identicon.Proofs.Binary64.Value

/-!
# Rounding an unpacked result

Every operation first computes an exact result, as a mantissa and an exponent with a note on what
the mantissa leaves out, and then rounds it. This module says that rounding takes the exact result
to `nearest`.

## Shape of the argument

`Represents em x` says that a mantissa with its two residual bits describes the number `x`: the
mantissa is the whole part, and the residual bits place the fraction relative to a half. Shifting to
the right by one halves the number (`Represents.shiftRightOne`), so that shifting down to the last
digit that the format has room for describes the exact result in units of that digit, and rounding
the mantissa there is `nearestEven` (`Represents.roundedMantissa`).

A rounded mantissa may have one digit too many, but then it is a power of two, and one more shift
loses nothing (`shift_of_eq`). `IsRounding` states the outcome for a sign and a positive number, and
`isRounding_roundWithAccuracy`, `isRounding_round` establish it.
-/

namespace Identicon.Binary64

open Float.Model (UnpackedFloat Format totalExponent)
open Float.Model.UnpackedFloat (Sign Accuracy ExtendedMantissa shiftToExponent shiftToTargetExponent
  roundWithAccuracy)

/-! ## Mantissas with residual bits -/

/-- The mantissa is the whole part of `x`, the round bit says whether the fraction is a half or
more, and the sticky bit whether it is neither zero nor a half. -/
structure Represents (em : ExtendedMantissa) (x : ℚ) : Prop where
  floor_eq : ⌊x⌋ = em.mantissa
  roundBit_iff : em.roundBit = true ↔ 1 / 2 ≤ Int.fract x
  stickyBit_iff : em.stickyBit = true ↔ Int.fract x ≠ 0 ∧ Int.fract x ≠ 1 / 2

variable {em : ExtendedMantissa} {x q : ℚ} {m : ℕ} {e t : ℤ} {acc : Accuracy}

theorem represents_exact (m : ℕ) : Represents (.ofMantissaAndAccuracy m .exact) m := by
  constructor <;> simp [ExtendedMantissa.ofMantissaAndAccuracy]

theorem shiftRightOne_eq {k b : ℕ} (hb : b < 2) (roundBit stickyBit : Bool) :
    ExtendedMantissa.shiftRightOne ⟨2 * k + b, roundBit, stickyBit⟩ =
      ⟨k, b != 0, roundBit || stickyBit⟩ := by
  have hdiv : (2 * k + b) / 2 = k := by omega
  have hmod : (2 * k + b) % 2 = b := by omega
  rw [ExtendedMantissa.shiftRightOne, hdiv, hmod]

/-- Shifting to the right halves the number. -/
theorem Represents.shiftRightOne (h : Represents em x) : Represents em.shiftRightOne (x / 2) := by
  obtain ⟨mantissa, roundBit, stickyBit⟩ := em
  obtain ⟨hfloor, hround, hsticky⟩ := h
  obtain ⟨k, b, hb, rfl⟩ : ∃ k b, b < 2 ∧ mantissa = 2 * k + b :=
    ⟨mantissa / 2, mantissa % 2, by omega, by omega⟩
  have hx : 2 * (k : ℚ) + b + Int.fract x = x := by
    have := Int.floor_add_fract x
    rw [hfloor] at this
    push_cast at this
    exact this
  have h0 := Int.fract_nonneg x
  have h1 := Int.fract_lt_one x
  have hb' : (b : ℚ) ≤ 1 := by exact_mod_cast Nat.le_of_lt_succ hb
  have hb0 : (0 : ℚ) ≤ b := Nat.cast_nonneg b
  have hfloor' : ⌊x / 2⌋ = k := by
    rw [Int.floor_eq_iff, Int.cast_natCast]
    constructor <;> linarith
  have hfract : Int.fract (x / 2) = (b + Int.fract x) / 2 := by
    rw [Int.fract, hfloor', Int.cast_natCast]
    linarith
  have hsticky' : (roundBit || stickyBit) = true ↔ Int.fract x ≠ 0 := by
    rw [Bool.or_eq_true, hround, hsticky]
    constructor
    · rintro (h | h) hz
      · linarith
      · exact h.1 hz
    · intro hz
      by_cases hhalf : Int.fract x = 1 / 2
      · exact Or.inl hhalf.ge
      · exact Or.inr ⟨hz, hhalf⟩
  rw [shiftRightOne_eq hb]
  refine ⟨hfloor', ?_, ?_⟩
  · rw [hfract]
    interval_cases b
    · exact iff_of_false (by simp) (by push_cast; linarith)
    · exact iff_of_true rfl (by push_cast; linarith)
  · rw [hfract]
    refine hsticky'.trans (not_iff_not.mpr ?_ |>.trans not_or)
    interval_cases b
    · constructor
      · intro hz
        left
        rw [hz]
        norm_num
      · rintro (hz | hz) <;> push_cast at hz <;> linarith
    · constructor
      · intro hz
        right
        rw [hz]
        norm_num
      · rintro (hz | hz) <;> push_cast at hz <;> linarith

/-- Shifting to the right by `n` divides by `2 ^ n`. -/
theorem Represents.shiftRight (h : Represents em x) (n : ℕ) : Represents (em >>> n) (x / 2 ^ n) := by
  induction n with
  | zero => rwa [pow_zero, div_one]
  | succ n ih =>
    rw [pow_succ, ← div_div]
    exact ih.shiftRightOne

/-- Rounding the mantissa by its residual bits is rounding the number. -/
theorem Represents.roundedMantissa (h : Represents em x) :
    (em.roundedMantissa : ℤ) = nearestEven x := by
  obtain ⟨hfloor, hround, hsticky⟩ := h
  have h0 := Int.fract_nonneg x
  obtain ⟨mantissa, roundBit, stickyBit⟩ := em
  rw [nearestEven, hfloor]
  cases roundBit <;> cases stickyBit <;>
    simp only [Bool.false_eq_true, false_iff, true_iff, not_le, not_and_or, not_not] at hround hsticky
  · rw [if_pos hround]
    rfl
  · rw [if_pos hround]
    rfl
  · have hhalf : Int.fract x = 1 / 2 := hsticky.resolve_left (by linarith)
    rw [if_neg (by linarith), if_neg (by linarith)]
    show ((mantissa + mantissa % 2 : ℕ) : ℤ) = _
    push_cast
    rfl
  · have hgt : 1 / 2 < Int.fract x := lt_of_le_of_ne hround (Ne.symm hsticky.2)
    rw [if_neg (by linarith), if_pos hgt]
    rfl

/-! ## Exponents -/

/-- The exponent that the format gives to a mantissa. -/
theorem targetExponent_eq (m : ℕ) (e : ℤ) :
    Format.binary64.targetExponent (totalExponent m e) = max (m.log2 + e - 52) (-1074) := by
  show max ((m.log2 : ℤ) + 1 + e - (53 : ℕ)) (3 - 2 ^ 10 - (53 : ℕ)) = _
  congr 1
  omega

/-- The logarithm of a number is that of its whole part, at the scale of any power of two. -/
theorem log_eq_of_floor_eq (hm : 0 < m) (hfloor : ⌊q / 2 ^ e⌋ = m) :
    Int.log 2 q = m.log2 + e := by
  have hp := two_zpow_pos e
  have hlo : (m : ℚ) ≤ q / 2 ^ e := by
    rw [← Int.cast_natCast, ← hfloor]
    exact Int.floor_le _
  have hhi : q / 2 ^ e < m + 1 := by
    rw [← Int.cast_natCast, ← hfloor]
    exact Int.lt_floor_add_one _
  rw [le_div_iff₀ hp] at hlo
  rw [div_lt_iff₀ hp] at hhi
  have hq : 0 < q := lt_of_lt_of_le (natCast_mul_two_zpow_pos hm) hlo
  have hle : (2 : ℚ) ^ (m.log2 : ℤ) ≤ m := by exact_mod_cast Nat.log2_self_le hm.ne'
  have hlt : (m : ℚ) + 1 ≤ 2 ^ (m.log2 + 1 : ℤ) := by exact_mod_cast (Nat.lt_log2_self : m < _)
  apply le_antisymm
  · have hlt' : q < 2 ^ (m.log2 + e + 1 : ℤ) := by
      rw [show (m.log2 + e + 1 : ℤ) = (m.log2 + 1) + e by ring, two_zpow_add]
      exact hhi.trans_le (mul_le_mul_of_nonneg_right hlt hp.le)
    have hlog := (Int.lt_zpow_iff_log_lt (one_lt_two : 1 < 2) hq).mp (by exact_mod_cast hlt')
    omega
  · rw [← Int.zpow_le_iff_le_log (one_lt_two : 1 < 2) hq]
    push_cast
    rw [two_zpow_add]
    exact (mul_le_mul_of_nonneg_right hle hp.le).trans hlo

/-- If the mantissa is the whole part of a number at a scale fine enough, the format gives it the
exponent of the last digit of that number. -/
theorem targetExponent_eq_ulpExponent (hq : 0 < q) (he : e ≤ ulpExponent q)
    (hfloor : ⌊q / 2 ^ e⌋ = m) :
    Format.binary64.targetExponent (totalExponent m e) = ulpExponent q := by
  rw [targetExponent_eq, ulpExponent, abs_of_pos hq] at *
  rcases Nat.eq_zero_or_pos m with rfl | hm
  · -- the scale is coarser than `q`, which leaves the least exponent there is
    have hlt : q < 2 ^ e := by
      have := Int.lt_floor_add_one (q / 2 ^ e)
      rwa [hfloor, Nat.cast_zero, Int.cast_zero, zero_add, div_lt_one (two_zpow_pos e)] at this
    have hlog := (Int.lt_zpow_iff_log_lt (one_lt_two : 1 < 2) hq).mp (by exact_mod_cast hlt)
    simp only [Nat.log2_zero]
    omega
  · rw [log_eq_of_floor_eq hm hfloor]

/-! ## Shifting to the target -/

theorem represents_shiftToExponent (he : e ≤ t)
    (h : Represents (.ofMantissaAndAccuracy m acc) (q / 2 ^ e)) :
    Represents (shiftToExponent m e acc t).1 (q / 2 ^ t) ∧ (shiftToExponent m e acc t).2 = t := by
  obtain ⟨n, rfl⟩ : ∃ n : ℕ, t = e + n := ⟨(t - e).toNat, by omega⟩
  have hn : (e + n - e).toNat = n := by omega
  simp only [shiftToExponent, hn, and_true]
  rw [two_zpow_add, zpow_natCast, ← div_div]
  exact h.shiftRight n

/-- A mantissa of at most 53 digits stays as it is. -/
theorem shift_of_lt (hm : m < 2 ^ 53) (he : -1074 ≤ e) :
    shiftToTargetExponent .binary64 m e .exact = (⟨m, false, false⟩, e) := by
  have hlog : m.log2 ≤ 52 := by
    by_cases h0 : m = 0
    · simp [h0]
    · have := (Nat.log2_lt h0).mpr hm
      omega
  have hn : (Format.binary64.targetExponent (totalExponent m e) - e).toNat = 0 := by
    rw [targetExponent_eq]
    omega
  rw [shiftToTargetExponent, shiftToExponent, hn]
  exact Prod.ext rfl (add_zero e)

/-- A mantissa that rounding has made a digit too long loses a zero. -/
theorem shift_of_eq (he : -1074 ≤ e) :
    shiftToTargetExponent .binary64 (2 ^ 53) e .exact = (⟨2 ^ 52, false, false⟩, e + 1) := by
  have hn : (Format.binary64.targetExponent (totalExponent (2 ^ 53) e) - e).toNat = 1 := by
    rw [targetExponent_eq, Nat.log2_two_pow]
    omega
  rw [shiftToTargetExponent, shiftToExponent, hn]
  rfl

/-! ## Rounding -/

/-- The unpacked double that a positive number `q` with a sign is rounded to, before its exponent is
checked against the largest there is. -/
def IsRounding (s : Sign) (q : ℚ) : UnpackedFloat → Prop
  | .zero s' => s' = s ∧ nearest q = 0
  | .finite s' m e _ =>
    s' = s ∧ m < 2 ^ 53 ∧ -1074 ≤ e ∧ (2 ^ 52 ≤ m ∨ e = -1074) ∧ (m : ℚ) * 2 ^ e = nearest q
  | _ => False

/-- The second shift, which only makes room for a carry, does not change the number. -/
theorem isRounding_of_shift (s : Sign) (ht : -1074 ≤ t) (hm : m ≤ 2 ^ 53)
    (hlo : 2 ^ 52 ≤ m ∨ t = -1074) (hvalue : (m : ℚ) * 2 ^ t = nearest q) :
    IsRounding s q
      (if h : (shiftToTargetExponent .binary64 m t .exact).1.mantissa = 0 then .zero s
        else .finite s (shiftToTargetExponent .binary64 m t .exact).1.mantissa
          (shiftToTargetExponent .binary64 m t .exact).2 (Nat.pos_of_ne_zero h)) := by
  rcases hm.lt_or_eq with hlt | rfl
  · rw [shift_of_lt hlt ht]
    split_ifs with h0
    · refine ⟨rfl, ?_⟩
      rw [← hvalue, show m = 0 from h0, Nat.cast_zero, zero_mul]
    · exact ⟨rfl, hlt, ht, hlo, hvalue⟩
  · rw [shift_of_eq ht]
    refine ⟨rfl, by norm_num, by show -1074 ≤ t + 1; omega, Or.inl le_rfl, ?_⟩
    rw [← hvalue, two_zpow_add]
    push_cast
    ring

/-- **Rounding an exact result takes it to the nearest number.** The result may be given at any
scale up to the one of its last digit. -/
theorem isRounding_roundWithAccuracy (s : Sign) (hq : 0 < q) (he : e ≤ ulpExponent q)
    (hr : Represents (.ofMantissaAndAccuracy m acc) (q / 2 ^ e)) :
    IsRounding s q (roundWithAccuracy .binary64 s m e acc) := by
  have hfloor : ⌊q / 2 ^ e⌋ = m := by
    rw [hr.floor_eq]
    cases acc with
    | exact => rfl
    | inexact o => cases o <;> rfl
  have hfirst : shiftToTargetExponent .binary64 m e acc =
      shiftToExponent m e acc (ulpExponent q) := by
    rw [shiftToTargetExponent, targetExponent_eq_ulpExponent hq he hfloor]
  obtain ⟨hrep, hexp⟩ := represents_shiftToExponent he hr
  have hround := hrep.roundedMantissa
  simp only [roundWithAccuracy, hfirst, hexp]
  refine isRounding_of_shift s (neg_1074_le_ulpExponent q) ?_ ?_ ?_
  · have hle := (abs_le.mp (abs_nearestEven_div_le q)).2
    rw [← hround] at hle
    exact_mod_cast hle
  · rcases (neg_1074_le_ulpExponent q).lt_or_eq with hlt | heq
    · have hge := le_nearestEven_div hq hlt
      rw [← hround] at hge
      exact Or.inl (by exact_mod_cast hge)
    · exact Or.inr heq.symm
  · rw [nearest, ← hround, Int.cast_natCast]

/-- A mantissa and an exponent without a remainder may be given at any scale. -/
theorem isRounding_round (s : Sign) (hm : 0 < m) (e : ℤ) :
    IsRounding s (m * 2 ^ e) (UnpackedFloat.round .binary64 s m e) := by
  have hq : (0 : ℚ) < m * 2 ^ e := natCast_mul_two_zpow_pos hm
  have hlog : Int.log 2 ((m : ℚ) * 2 ^ e) = m.log2 + e := by
    apply log_eq_of_floor_eq hm
    rw [mul_div_cancel_right₀ _ (two_zpow_pos e).ne', Int.floor_natCast]
  have htarget : Format.binary64.targetExponent (totalExponent m e) = ulpExponent (m * 2 ^ e) := by
    rw [targetExponent_eq, ulpExponent, abs_of_pos hq, hlog]
  simp only [UnpackedFloat.round, UnpackedFloat.decreaseExponent, htarget]
  -- `n` zeros are appended, so that the exponent comes down to the one of the last digit
  generalize hn : (e - ulpExponent ((m : ℚ) * 2 ^ e)).toNat = n
  have hexact : ((m <<< n : ℕ) : ℚ) = m * 2 ^ e / 2 ^ (e - n : ℤ) := by
    rw [zpow_sub₀ two_ne_zero, Nat.shiftLeft_eq, zpow_natCast]
    push_cast
    field_simp
  apply isRounding_roundWithAccuracy s hq (by omega)
  rw [← hexact]
  exact represents_exact _

end Identicon.Binary64
