import Identicon.Proofs.Decimal.Scaled
import Identicon.Proofs.Decimal.Shortest

/-!
# Doubles written and read

A finite double is written to a document as its shortest decimal. `reread?` is what becomes of it
when that decimal is scaled, and `rereadMagnitude` the number that this is in exact terms. The
double nearest to the shortest decimal would be the double itself, but scaling rounds more often, so
that some doubles do not come back.

## Main statements

* `reread?_eq_some`, `reread?_eq_none`: the double that a finite double becomes.
* `reread?_eq_self_iff`: which doubles stay the same.
* `reread?_eq_self`: few digits and a small power of ten lose nothing.
* `reread?_close`: no double of ordinary size changes by much.
-/

namespace Identicon.Decimal

open Binary64

variable {d : Decimal} {z : Float}

/-! ## Shortest decimals -/

/-- The decimal that a document shows of a shortest one: a whole number without an exponent is
followed by a point and a zero. -/
def laidOut (d : Decimal) : Decimal :=
  if 0 ≤ d.power ∧ d.leadingExponent ≤ 15 then ⟨d.digits * 10 ^ (d.power.toNat + 1), -1⟩ else d

theorem value_laidOut (d : Decimal) : d.laidOut.value = d.value := by
  rw [laidOut]
  split_ifs with h
  · obtain ⟨n, hn⟩ := Int.eq_ofNat_of_zero_le h.1
    rw [value, value, hn, Int.toNat_natCast, zpow_natCast, zpow_neg_one]
    push_cast
    field_simp
    ring
  · rfl

theorem digits_laidOut_lt (h : d.digits < 10 ^ 18) : d.laidOut.digits < UInt64.size := by
  rw [laidOut]
  split_ifs with hlaid
  · obtain ⟨n, hn⟩ := Int.eq_ofNat_of_zero_le hlaid.1
    have hlt : (d.digits : ℚ) * 10 ^ n < 10 ^ 16 := by
      have hval := d.value_lt_pow
      rw [value, hn, zpow_natCast] at hval
      refine hval.trans_le ?_
      calc (10 : ℚ) ^ (d.leadingExponent + 1) ≤ 10 ^ (16 : ℤ) :=
            zpow_le_zpow_right₀ (by norm_num) (by omega)
        _ = 10 ^ 16 := zpow_ofNat 10 16
    have hnat : d.digits * 10 ^ n < 10 ^ 16 := by exact_mod_cast hlt
    have hten : d.digits * 10 ^ n * 10 < UInt64.size := by
      rw [UInt64.size]
      omega
    rwa [hn, Int.toNat_natCast, pow_succ, ← mul_assoc]
  · exact h.trans (by decide)

theorem power_laidOut_bounds (hlo : -616 ≤ d.power) (hhi : d.power ≤ 308) :
    -616 ≤ d.laidOut.power ∧ d.laidOut.power ≤ 308 := by
  rw [laidOut]
  split_ifs
  · exact ⟨by norm_num, by norm_num⟩
  · exact ⟨hlo, hhi⟩

theorem digits_laidOut_pos (h : 0 < d.digits) : 0 < d.laidOut.digits := by
  rw [laidOut]
  split_ifs
  · exact Nat.mul_pos h (Nat.pow_pos (by decide))
  · exact h

/-! ## Doubles -/

/-- What a finite double becomes when it is written to a document and read from there. -/
def reread? (z : Float) : Option Float :=
  (ofFinite z).laidOut.scaled? (isSigned z)

/-- The magnitude of that. -/
def rereadMagnitude (z : Float) : ℚ :=
  (ofFinite z).laidOut.rescaled

theorem rereadMagnitude_nonneg (z : Float) : 0 ≤ rereadMagnitude z :=
  rescale_nonneg (le_nearest onGrid_zero (Nat.cast_nonneg _)) _

theorem rereadMagnitude_eq_zero (hfin : z.isFinite = true) (h0 : toRat z = 0) :
    rereadMagnitude z = 0 := by
  have hlaid : laidOut ⟨0, 0⟩ = ⟨0, -1⟩ := rfl
  rw [rereadMagnitude, ofFinite_eq_zero hfin h0, hlaid, rescaled, rescale, if_neg (by decide),
    if_pos (by decide), Nat.cast_zero, nearest_zero, zero_div, nearest_zero]

theorem reread?_eq_zero (hfin : z.isFinite = true) (h0 : toRat z = 0) :
    reread? z = some (withSignOf z 0) := by
  have hlaid : laidOut ⟨0, 0⟩ = ⟨0, -((1 : ℕ) : ℤ)⟩ := rfl
  have hzero : (0 : ℕ).toUInt64.toFloat = 0 := rfl
  have hpow : 0 < nearest (10 ^ 1) := zero_lt_one.trans_le (one_le_nearest_pow 1)
  rw [reread?, ofFinite_eq_zero hfin h0, hlaid, scaled?, scale_neg_natCast (by decide) (by decide),
    hzero, floatZero_div (holds_power (by decide)) hpow, Option.map_some]
  rfl

section Finite

variable (hfin : z.isFinite = true)
include hfin

/-- The decimal of a double other than zero can be scaled: its digits fit into 64 bits, and its
power of ten is in the table or needs one more division. -/
theorem laidOut_ofFinite_bounds (h0 : toRat z ≠ 0) :
    0 < (ofFinite z).laidOut.digits ∧ (ofFinite z).laidOut.digits < UInt64.size ∧
      -616 ≤ (ofFinite z).laidOut.power ∧ (ofFinite z).laidOut.power ≤ 308 := by
  have hpower := power_ofFinite_bounds hfin
  exact ⟨digits_laidOut_pos (digits_ofFinite_pos hfin h0),
    digits_laidOut_lt (digits_ofFinite_lt hfin), power_laidOut_bounds (by omega) hpower.2⟩

/-- **A finite double becomes the double that its shortest decimal is scaled to**, with its own
sign, if that is not beyond the greatest double. -/
theorem reread?_eq_some (hlt : rereadMagnitude z < 2 ^ 1024) :
    ∃ w, Holds w (rereadMagnitude z) ∧ isSigned w = false ∧ reread? z = some (withSignOf z w) := by
  by_cases h0 : toRat z = 0
  · rw [rereadMagnitude_eq_zero hfin h0]
    exact ⟨0, holds_zero, rfl, reread?_eq_zero hfin h0⟩
  · obtain ⟨hpos, hdigits, hlo, hhi⟩ := laidOut_ofFinite_bounds hfin h0
    obtain ⟨w, hw, hsign, hscaled⟩ := scaled?_eq_some hpos hdigits hlo hhi hlt
    exact ⟨w, hw, hsign, hscaled (isSigned z)⟩

theorem reread?_eq_none (hle : 2 ^ 1024 ≤ rereadMagnitude z) : reread? z = none := by
  by_cases h0 : toRat z = 0
  · rw [rereadMagnitude_eq_zero hfin h0] at hle
    exact absurd hle (not_le.mpr (by positivity))
  · obtain ⟨hpos, hdigits, hlo, hhi⟩ := laidOut_ofFinite_bounds hfin h0
    exact scaled?_eq_none hpos hdigits hlo hhi hle _

/-- **A finite double stays the same exactly if its shortest decimal is scaled to its
magnitude.** -/
theorem reread?_eq_self_iff : reread? z = some z ↔ rereadMagnitude z = |toRat z| := by
  have habs : Holds z.abs |toRat z| := (holds_toRat hfin).abs
  constructor
  · intro h
    have hlt : rereadMagnitude z < 2 ^ 1024 := by
      by_contra hle
      rw [reread?_eq_none hfin (not_lt.mp hle)] at h
      cases h
    obtain ⟨w, hw, hsign, hsome⟩ := reread?_eq_some hfin hlt
    rw [h] at hsome
    have hsame : |toRat z| = |toRat w| := by
      rw [Option.some.inj hsome, abs_toRat_withSignOf]
    rw [hsame, hw.toRat_eq, abs_of_nonneg (rereadMagnitude_nonneg z)]
  · intro h
    have hlt : rereadMagnitude z < 2 ^ 1024 := by
      rw [h]
      exact (le_abs_self _).trans_lt habs.abs_lt
    obtain ⟨w, hw, hsign, hsome⟩ := reread?_eq_some hfin hlt
    rw [h] at hw
    rw [hsome, hw.eq habs (hsign.trans (isSigned_abs z).symm), withSignOf_abs]

/-- A double that is written with few digits is read as the same. -/
theorem reread?_eq_self (hdigits : (ofFinite z).laidOut.digits ≤ 2 ^ 53)
    (hlo : -22 ≤ (ofFinite z).laidOut.power) (hhi : (ofFinite z).laidOut.power ≤ 22) :
    reread? z = some z := by
  rw [reread?_eq_self_iff hfin, rereadMagnitude, rescaled_of_few hdigits hlo hhi, value_laidOut,
    nearest_ofFinite hfin]

/-- **A finite double that is neither small nor great keeps its sign and all but a few of its
accuracy**: all in all it has been rounded four times. -/
theorem reread?_close (hlo : 2 ^ (-960 : ℤ) < |toRat z|) (hhi : |toRat z| ≤ 2 ^ 1023) :
    ∃ w, reread? z = some w ∧ w.isFinite = true ∧ isSigned w = isSigned z ∧
      |toRat w - toRat z| ≤ 2 ^ (-50 : ℤ) * |toRat z| := by
  have h0 : toRat z ≠ 0 := abs_pos.mp ((two_zpow_pos _).trans hlo)
  have hround := nearest_ofFinite hfin
  rw [← value_laidOut] at hround
  have hvalue : 2 ^ (-960 : ℤ) ≤ (ofFinite z).laidOut.value := by
    by_contra hlt
    have := nearest_le (onGrid_two_zpow (by norm_num)) (not_le.mp hlt).le
    linarith
  have hagree : Agree 4 |toRat z| (rereadMagnitude z) := by
    rw [← hround]
    obtain ⟨hpos, hdigits, -⟩ := laidOut_ofFinite_bounds hfin h0
    have hleast : (2 : ℚ) ^ (-1021 : ℤ) ≤ 2 ^ (-960 : ℤ) := two_zpow_le (by norm_num)
    exact (agree_nearest (hleast.trans hvalue)).symm.trans (agree_rescaled hpos hdigits hvalue)
  have hclose := hagree.abs_sub_le (abs_nonneg _)
  have hlt : rereadMagnitude z < 2 ^ 1024 := by
    have hhalf : rereadMagnitude z - |toRat z| ≤ 1 / 2 * |toRat z| :=
      (le_abs_self _).trans (hclose.trans
        (mul_le_mul_of_nonneg_right (by norm_num) (abs_nonneg _)))
    calc rereadMagnitude z ≤ 3 / 2 * |toRat z| := by linarith only [hhalf]
      _ ≤ 3 / 2 * 2 ^ 1023 := mul_le_mul_of_nonneg_left hhi (by norm_num)
      _ < 2 * 2 ^ 1023 := mul_lt_mul_of_pos_right (by norm_num) (by positivity)
      _ = 2 ^ 1024 := (pow_succ' 2 1023).symm
  obtain ⟨w, hw, hsign, hsome⟩ := reread?_eq_some hfin hlt
  have hholds := holds_withSignOf (holds_toRat hfin) hw fun h => absurd h h0
  refine ⟨_, hsome, hholds.isFinite, isSigned_withSignOf hw.isFinite hsign z, ?_⟩
  rw [hholds.toRat_eq]
  split_ifs with hsigned
  · rwa [abs_of_nonneg hsigned] at hclose ⊢
  · rw [abs_of_neg (not_le.mp hsigned)] at hclose ⊢
    rwa [← abs_neg, neg_sub, sub_neg_eq_add, add_comm, ← sub_neg_eq_add]

end Finite

end Identicon.Decimal
