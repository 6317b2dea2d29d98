import Identicon.Expr.Basic
import Identicon.Proofs.Binary64.Whole

/-!
# The range of expressions

At a point of the square `[-1, 1] × [-1, 1]` every expression has a value in `[-1, 1]`, provided
that sines and cosines of finite arguments do. The value never becomes a NaN or an infinity on the
way: a product of two values in range is rounded to a value in range, as rounding is monotone and
the bounds are doubles, and the argument of a sine or cosine is at most the circle constant.
-/

namespace Identicon

namespace Binary64

variable {x y : ℚ} {z w : Float}

/-- A double from `-1` to `1`. Comparisons with a NaN are false, so that it is none. -/
structure InUnit (z : Float) : Prop where
  neg_one_le : -1 ≤ z
  le_one : z ≤ 1

theorem Holds.inUnit (h : Holds z x) (hx : |x| ≤ 1) : InUnit z := by
  obtain ⟨hlo, hhi⟩ := abs_le.mp hx
  exact ⟨(holds_one.neg.le_iff h).mpr hlo, (h.le_iff holds_one).mpr hhi⟩

theorem InUnit.isFinite (h : InUnit z) : z.isFinite = true :=
  isFinite_of_le_of_le holds_one.neg.isFinite holds_one.isFinite h.neg_one_le h.le_one

theorem InUnit.holds (h : InUnit z) : Holds z (toRat z) := holds_toRat h.isFinite

theorem InUnit.abs_toRat_le (h : InUnit z) : |toRat z| ≤ 1 := by
  have hlo := (holds_one.neg.le_iff h.holds).mp h.neg_one_le
  have hhi := (h.holds.le_iff holds_one).mp h.le_one
  exact abs_le.mpr ⟨hlo, hhi⟩

theorem InUnit.isNaN_eq_false (h : InUnit z) : z.isNaN = false :=
  Binary64.isNaN_eq_false h.isFinite

theorem InUnit.neg (h : InUnit z) : InUnit (-z) :=
  h.holds.neg.inUnit (by rw [abs_neg]; exact h.abs_toRat_le)

/-- What rounding a number in range gives is in range. -/
theorem abs_nearest_le_one (h : |x| ≤ 1) : |nearest x| ≤ 1 :=
  abs_nearest_le (by simpa using onGrid_two_zpow (e := 0) (by norm_num)) h

theorem one_lt_two_pow_1024 : (1 : ℚ) < 2 ^ 1024 := one_lt_pow₀ one_lt_two (by norm_num)

theorem InUnit.abs_mul_le (hz : InUnit z) (hw : InUnit w) : |toRat z * toRat w| ≤ 1 := by
  rw [abs_mul]
  exact mul_le_one₀ hz.abs_toRat_le (abs_nonneg _) hw.abs_toRat_le

theorem InUnit.holds_mul (hz : InUnit z) (hw : InUnit w) :
    Holds (z * w) (nearest (toRat z * toRat w)) := by
  have hr := abs_nearest_le_one (hz.abs_mul_le hw)
  exact hz.holds.mul hw.holds (hr.trans_lt one_lt_two_pow_1024)

/-- Rounding keeps a product of numbers in range in range. -/
theorem InUnit.mul (hz : InUnit z) (hw : InUnit w) : InUnit (z * w) :=
  (hz.holds_mul hw).inUnit (abs_nearest_le_one (hz.abs_mul_le hw))

/-- A multiple of the circle constant by a number in range is finite. -/
theorem isFinite_pi_mul (hz : InUnit z) : (pi * z).isFinite = true := by
  refine (holds_pi.mul hz.holds ?_).isFinite
  apply abs_nearest_lt
  have hpi : |(0x1921FB54442D18 * 2 ^ (-51 : ℤ) : ℚ)| ≤ 4 := by norm_num
  calc |(0x1921FB54442D18 * 2 ^ (-51 : ℤ) : ℚ) * toRat z| ≤ 4 * 1 := by
        rw [abs_mul]
        exact mul_le_mul hpi hz.abs_toRat_le (abs_nonneg _) (by norm_num)
    _ ≤ 2 ^ 100 := by norm_num

end Binary64

open Binary64 (InUnit)

/-- What is known of the sine and cosine of a machine: they stay in `[-1, 1]` for finite
arguments. -/
structure Trig.Bounded (trig : Trig) : Prop where
  sin : ∀ t : Float, t.isFinite = true → -1 ≤ trig.sin t ∧ trig.sin t ≤ 1
  cos : ∀ t : Float, t.isFinite = true → -1 ≤ trig.cos t ∧ trig.cos t ≤ 1

variable {trig : Trig} {x y : Float}

theorem Leaf.inUnit_evaluate (hx : InUnit x) (hy : InUnit y) (l : Leaf) :
    InUnit (l.evaluate x y) := by
  cases l with
  | x => exact hx
  | y => exact hy
  | xy => exact hx.mul hy

/-- The range invariant: no expression leaves `[-1, 1]` on the square. -/
theorem Expr.inUnit_evaluate (ht : trig.Bounded) (hx : InUnit x) (hy : InUnit y) (e : Expr) :
    InUnit (e.evaluate trig x y) := by
  induction e with
  | leaf l => exact l.inUnit_evaluate hx hy
  | product lhs rhs ihl ihr => exact ihl.mul ihr
  | sine arg ih =>
    obtain ⟨hlo, hhi⟩ := ht.sin _ (Binary64.isFinite_pi_mul ih)
    exact ⟨hlo, hhi⟩
  | cosine arg ih =>
    obtain ⟨hlo, hhi⟩ := ht.cos _ (Binary64.isFinite_pi_mul ih)
    exact ⟨hlo, hhi⟩

end Identicon
