import Identicon.Proofs.Binary64.Whole
import Identicon.Proofs.Decimal.Digits

/-!
# The double nearest to a decimal

`Decimal.nearest?` is the double that the number of a decimal is rounded to, and which of the
decimals with this number has been written does not matter. It says what a decimal means; documents
are read by a conversion that is less exact.

## Shape of the argument

The conversion of the library multiplies or divides two doubles where the digits and the power of
ten both are doubles, and rounds an exact product or quotient otherwise. Either way the number of
the decimal is rounded once (`holds_ofScientific`). The library is asked only if the leading
exponent lies in a certain range, and decimals outside this range are rounded to zero or beyond the
greatest double (`leadingExponent_bounds`), so that the range cuts nothing off.
-/

namespace Identicon.Decimal

open Binary64
open Float.Model (UnpackedFloat Format)
open Float.Model.UnpackedFloat (Sign)

variable {d : Decimal} {m : ℕ} {e : ℤ} {z : Float} {x : ℚ}

/-- The number that a decimal stands for. -/
def value (d : Decimal) : ℚ :=
  d.digits * 10 ^ d.power

theorem ten_zpow_pos (e : ℤ) : (0 : ℚ) < 10 ^ e := zpow_pos (by norm_num) e

theorem ten_zpow_add (a b : ℤ) : (10 : ℚ) ^ (a + b) = 10 ^ a * 10 ^ b := zpow_add₀ (by norm_num) a b

theorem value_eq_zero_iff : d.value = 0 ↔ d.digits = 0 := by
  rw [value, mul_eq_zero_iff_right (ten_zpow_pos _).ne', Nat.cast_eq_zero]

/-- The double nearest to the decimal with this sign, or nothing if it lies beyond the greatest
double. A magnitude of `10 ^ 310` or more is beyond it, and one below `10 ^ -330` is nearer to zero
than to the least double. -/
def nearest? (negative : Bool) (d : Decimal) : Option Float :=
  let signed (z : Float) : Float := if negative then -z else z
  if d.digits = 0 then some (signed 0)
  else if 310 ≤ d.leadingExponent then none
  else if d.leadingExponent < -330 then some (signed 0)
  else
    let z := Float.ofScientific d.digits (d.power < 0) d.power.natAbs
    if z.isFinite then some (signed z) else none

/-! ## Leading exponents -/

theorem two_zpow_le_ten_zpow : (2 : ℚ) ^ (1024 : ℤ) ≤ 10 ^ (310 : ℤ) := by
  have h : 2 ^ 1024 ≤ 10 ^ 310 := by decide +kernel
  exact_mod_cast h

theorem ten_zpow_le_two_zpow : (10 : ℚ) ^ (-330 : ℤ) ≤ 2 ^ (-1075 : ℤ) := by
  have h : 2 ^ 1075 ≤ 10 ^ 330 := by decide +kernel
  rw [zpow_neg, zpow_neg]
  exact inv_anti₀ (two_zpow_pos 1075) (by exact_mod_cast h)

theorem value_lt_pow (d : Decimal) : d.value < 10 ^ (d.leadingExponent + 1) := by
  have hlt : (d.digits : ℚ) < 10 ^ ((digitsOf d.digits).length : ℤ) := by
    exact_mod_cast lt_pow_length_digitsOf d.digits
  have hexp : d.leadingExponent + 1 = (digitsOf d.digits).length + d.power := by
    rw [leadingExponent]
    ring
  rw [hexp, ten_zpow_add, value]
  exact mul_lt_mul_of_pos_right hlt (ten_zpow_pos _)

theorem pow_leadingExponent_le (h : d.digits ≠ 0) : 10 ^ d.leadingExponent ≤ d.value := by
  have hlen := length_digitsOf_pos d.digits
  have hle : (10 : ℚ) ^ (((digitsOf d.digits).length - 1 : ℕ) : ℤ) ≤ d.digits := by
    exact_mod_cast pow_length_digitsOf_le (Nat.pos_of_ne_zero h)
  have hexp : d.leadingExponent = ((digitsOf d.digits).length - 1 : ℕ) + d.power := by
    rw [leadingExponent, Nat.cast_sub hlen, Nat.cast_one]
  rw [hexp, ten_zpow_add, value]
  exact mul_le_mul_of_nonneg_right hle (ten_zpow_pos _).le

/-! ## The conversion of the library -/

/-- The powers of ten that are doubles are in the table. -/
theorem isFinite_toRat_powersOfTen : ∀ e : Fin Float.exactlyRepresentablePowersOfTen.size,
    Float.exactlyRepresentablePowersOfTen[e].isFinite = true ∧
    toRat Float.exactlyRepresentablePowersOfTen[e] = 10 ^ (e : ℕ) := by
  decide +kernel

theorem holds_powerOfTen {e : ℕ} (h : e < Float.exactlyRepresentablePowersOfTen.size) :
    Holds Float.exactlyRepresentablePowersOfTen[e] (10 ^ e) := by
  obtain ⟨hfin, hval⟩ := isFinite_toRat_powersOfTen ⟨e, h⟩
  exact ⟨hfin, hval⟩

/-- A product is rounded from as many digits as it has. -/
theorem rounds_mul_pow (hm : 0 < m) (e : ℕ) (h : 0 < m <<< 53) (h' : 0 < 10 ^ e) :
    Rounds (m * 10 ^ e) (UnpackedFloat.mul .binary64 (.finite .positive (m <<< 53) (-53) h)
      (.finite .positive (10 ^ e) 0 h')) := by
  have hone : (1 : ℚ) ≤ m * 10 ^ e := by exact_mod_cast Nat.mul_pos hm h'
  refine ⟨.positive, m * 10 ^ e, ?_, rfl⟩
  have hscale : (m * 10 ^ e : ℚ) / (2 : ℚ) ^ (-53 + 0 : ℤ) = (m <<< 53 * 10 ^ e : ℕ) := by
    rw [Nat.shiftLeft_eq]
    push_cast
    norm_num
    ring
  apply isRounding_roundWithAccuracy .positive (by linarith)
  · apply le_ulpExponent
    refine le_trans ?_ hone
    norm_num
  · rw [hscale]
    exact represents_exact _

/-- The decimal of a mantissa and an exponent is rounded unless the exponent is far out of range. -/
theorem rounds_ofScientific (hm : 0 < m) (hlo : -(2 ^ 11 + m.log2 : ℤ) ≤ e) (hhi : e ≤ 2 ^ 11) :
    Rounds (m * 10 ^ e) (UnpackedFloat.ofScientific .binary64 m e) := by
  have hlo' : ¬ e < -(2 ^ Format.binary64.exponentBits + (m.log2 : ℤ)) := not_lt.mpr hlo
  have hhi' : ¬ 2 ^ Format.binary64.exponentBits < e := not_lt.mpr hhi
  rw [UnpackedFloat.ofScientific, dif_neg hm.ne', if_neg hhi', if_neg hlo']
  split_ifs with he
  · obtain ⟨n, rfl⟩ := Int.eq_ofNat_of_zero_le he
    exact rounds_mul_pow hm n _ _
  · obtain ⟨n, rfl⟩ : ∃ n : ℕ, e = -n := ⟨(-e).toNat, by omega⟩
    have hpow : 0 < 10 ^ (- -(n : ℤ)).toNat := by positivity
    have h := rounds_div (u := .finite .positive m 0 hm) (v := .finite .positive _ 0 hpow) rfl rfl
      (by rw [rational_positive]; positivity)
    have hval : (m : ℚ) * 10 ^ (-n : ℤ) =
        m * 2 ^ (0 : ℤ) / ((10 ^ (- -(n : ℤ)).toNat : ℕ) * 2 ^ (0 : ℤ)) := by
      rw [zpow_neg, zpow_natCast, neg_neg, Int.toNat_natCast, Nat.cast_pow, Nat.cast_ofNat,
        zpow_zero, mul_one, mul_one, ← div_eq_mul_inv]
    rw [hval]
    rwa [rational_positive, rational_positive] at h

/-- **The conversion of the library is correctly rounded.** It multiplies or divides doubles where
the mantissa and the power of ten both are doubles, and rounds the exact number otherwise. -/
theorem holds_ofScientific (hm : 0 < m) (hlo : -(2 ^ 11 + m.log2 : ℤ) ≤ e) (hhi : e ≤ 2 ^ 11)
    (h : |nearest (m * 10 ^ e)| < 2 ^ 1024) :
    Holds (Float.ofScientific m (e < 0) e.natAbs) (nearest (m * 10 ^ e)) := by
  by_cases hexact : m < 2 ^ 53 ∧ e.natAbs ≤ 22
  · have hm' := holds_toFloat_nat hexact.1
    have hpow := holds_powerOfTen (Nat.lt_succ_of_le hexact.2)
    rw [Float.ofScientific, dif_pos hexact]
    rcases lt_or_ge e 0 with he | he
    · have hval : (m : ℚ) * 10 ^ e = m / 10 ^ e.natAbs := by
        obtain ⟨n, rfl⟩ : ∃ n : ℕ, e = -n := ⟨(-e).toNat, by omega⟩
        rw [zpow_neg, zpow_natCast, Int.natAbs_neg, Int.natAbs_natCast, ← div_eq_mul_inv]
      rw [hval] at h ⊢
      rw [if_pos (decide_eq_true he)]
      exact hm'.div hpow (by positivity) h
    · have hval : (m : ℚ) * 10 ^ e = m * 10 ^ e.natAbs := by
        obtain ⟨n, rfl⟩ := Int.eq_ofNat_of_zero_le he
        rw [Int.natAbs_natCast, zpow_natCast]
      rw [hval] at h ⊢
      rw [if_neg (by rw [decide_eq_true_iff]; omega)]
      exact hm'.mul hpow h
  · have hsigned :
        (if decide (e < 0) = true then Int.negOfNat e.natAbs else Int.ofNat e.natAbs) = e := by
      rw [Int.negOfNat_eq, Int.ofNat_eq_natCast]
      split_ifs with he
      · rw [decide_eq_true_iff] at he
        omega
      · rw [decide_eq_true_iff] at he
        omega
    rw [Float.ofScientific, dif_neg hexact, hsigned]
    exact holds_of_rounds (rounds_ofScientific hm hlo hhi) h

/-! ## The double nearest to a decimal -/

/-- The leading exponent of a decimal that is rounded to a finite double other than zero. -/
theorem leadingExponent_bounds (h : Holds z (nearest d.value)) (hpos : 0 < nearest d.value) :
    -330 ≤ d.leadingExponent ∧ d.leadingExponent < 310 := by
  have hdigits : d.digits ≠ 0 := by
    intro h0
    rw [value_eq_zero_iff.mpr h0, nearest_zero] at hpos
    exact hpos.ne rfl
  have hle := pow_leadingExponent_le hdigits
  constructor
  · by_contra! hlt
    have hsmall : d.value < 2 ^ (-1075 : ℤ) :=
      calc d.value < 10 ^ (d.leadingExponent + 1) := value_lt_pow d
        _ ≤ 10 ^ (-330 : ℤ) := zpow_le_zpow_right₀ (by norm_num) (by omega)
        _ ≤ 2 ^ (-1075 : ℤ) := ten_zpow_le_two_zpow
    exact hpos.ne' (nearest_eq_zero ((ten_zpow_pos _).trans_le hle) hsmall)
  · by_contra! hge
    have hlarge : (2 : ℚ) ^ (1024 : ℤ) ≤ d.value :=
      calc (2 : ℚ) ^ (1024 : ℤ) ≤ 10 ^ (310 : ℤ) := two_zpow_le_ten_zpow
        _ ≤ 10 ^ d.leadingExponent := zpow_le_zpow_right₀ (by norm_num) hge
        _ ≤ d.value := hle
    have hround := le_nearest (onGrid_two_zpow (e := 1024) (by norm_num)) hlarge
    have hlt := h.abs_lt
    rw [abs_of_pos hpos] at hlt
    exact absurd (by exact_mod_cast hround) (not_le.mpr hlt)

theorem length_digitsOf_le_log2 (hm : 0 < m) : (digitsOf m).length - 1 ≤ m.log2 := by
  rw [Nat.le_log2 hm.ne']
  exact (Nat.pow_le_pow_left (by decide) _).trans (pow_length_digitsOf_le hm)

/-- **The nearest double is the one that the number of the decimal is rounded to.** -/
theorem nearest?_eq_some (h : Holds z (nearest d.value)) (hpos : 0 < nearest d.value)
    (negative : Bool) : d.nearest? negative = some (if negative then -z else z) := by
  have hdigits : d.digits ≠ 0 := by
    intro h0
    rw [value_eq_zero_iff.mpr h0, nearest_zero] at hpos
    exact hpos.ne rfl
  obtain ⟨hlo, hhi⟩ := leadingExponent_bounds h hpos
  have hlog := length_digitsOf_le_log2 (Nat.pos_of_ne_zero hdigits)
  have hlen := length_digitsOf_pos d.digits
  have hexp : d.leadingExponent = (digitsOf d.digits).length - 1 + d.power := rfl
  have hread : Float.ofScientific d.digits (d.power < 0) d.power.natAbs = z := by
    have hholds := holds_ofScientific (Nat.pos_of_ne_zero hdigits) (e := d.power) (by omega)
      (by omega) h.abs_lt
    exact hholds.eq_of_ne_zero h hpos.ne'
  rw [nearest?, if_neg hdigits, if_neg (by omega), if_neg (by omega), hread]
  exact if_pos h.isFinite

theorem nearest?_eq_zero (h : d.value = 0) (negative : Bool) :
    d.nearest? negative = some (if negative then -0 else 0) := by
  rw [nearest?, if_pos (value_eq_zero_iff.mp h)]

end Identicon.Decimal
