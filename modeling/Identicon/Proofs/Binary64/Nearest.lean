import Mathlib

/-!
# Rounding of rational numbers to doubles

The set of doubles without the bound on the exponent, as rational numbers, and the function that
takes a rational number to the nearest of them. Nothing here mentions a bit: how the machine's
operations arrive at this function is the matter of the modules that import this one.

## Shape of the argument

`nearestEven` rounds to an integer, and `nearest` scales by a power of two before and after. The
power `ulpExponent` is chosen so that the scaled number has at most 53 binary digits. The one fact
that takes work is `abs_sub_nearest_le`: no member of the grid is closer to `x` than `nearest x`.
What callers use follows from it alone:

* `nearest_of_onGrid`: a member of the grid stays where it is.
* `nearest_mono`: rounding is monotone.
* `nearest_le`, `le_nearest`: a bound from the grid survives rounding.

How far a number is moved follows from `nearestEven` (`abs_sub_nearest_le_of_abs_lt`), and with it
which numbers are kept apart (`nearest_lt_nearest`).
-/

namespace Identicon.Binary64

/-! ## Rounding to an integer -/

/-- The integer nearest to `x`, and of two such integers the even one. -/
def nearestEven (x : ℚ) : ℤ :=
  if Int.fract x < 1 / 2 then ⌊x⌋
  else if 1 / 2 < Int.fract x then ⌊x⌋ + 1
  else ⌊x⌋ + ⌊x⌋ % 2

/-- Rounding to an integer moves a number by at most a half. -/
theorem abs_sub_nearestEven_le_half (x : ℚ) : |x - nearestEven x| ≤ 1 / 2 := by
  have hx : (⌊x⌋ : ℚ) + Int.fract x = x := Int.floor_add_fract x
  have h0 : 0 ≤ Int.fract x := Int.fract_nonneg x
  have h1 : Int.fract x < 1 := Int.fract_lt_one x
  rw [abs_le, nearestEven]
  split_ifs with hlt hgt
  · constructor <;> linarith
  · push_cast
    constructor <;> linarith
  · rcases Int.emod_two_eq_zero_or_one ⌊x⌋ with hm | hm <;> rw [hm] <;> push_cast <;>
      constructor <;> linarith

/-- Of two integers at the same distance the even one is taken. -/
theorem even_nearestEven_of_tie {x : ℚ} (h : |x - nearestEven x| = 1 / 2) :
    Even (nearestEven x) := by
  have hx : (⌊x⌋ : ℚ) + Int.fract x = x := Int.floor_add_fract x
  have h0 : 0 ≤ Int.fract x := Int.fract_nonneg x
  have h1 : Int.fract x < 1 := Int.fract_lt_one x
  rw [nearestEven] at h ⊢
  split_ifs at h ⊢ with hlt hgt
  · rw [abs_of_nonneg (by linarith)] at h
    linarith
  · push_cast at h
    rw [abs_of_nonpos (by linarith)] at h
    linarith
  · rw [Int.even_iff]
    omega

/-- No integer is closer to `x` than `nearestEven x`. -/
theorem abs_sub_nearestEven_le (x : ℚ) (k : ℤ) : |x - nearestEven x| ≤ |x - k| := by
  by_cases hk : k = nearestEven x
  · rw [hk]
  · have hhalf := abs_sub_nearestEven_le_half x
    have hone : (1 : ℚ) ≤ |(nearestEven x : ℚ) - k| := by
      exact_mod_cast Int.one_le_abs (sub_ne_zero.mpr (Ne.symm hk))
    have htri : |(nearestEven x : ℚ) - k| ≤ |x - nearestEven x| + |x - k| := by
      rw [abs_sub_comm x]
      exact abs_sub_le _ _ _
    linarith

/-- An integer closer than a half is the one that rounding gives. -/
theorem nearestEven_eq_of_lt {x : ℚ} {k : ℤ} (h : |x - k| < 1 / 2) : nearestEven x = k := by
  by_contra hne
  have hone : (1 : ℚ) ≤ |(nearestEven x : ℚ) - k| := by
    exact_mod_cast Int.one_le_abs (sub_ne_zero.mpr hne)
  have htri : |(nearestEven x : ℚ) - k| ≤ |x - nearestEven x| + |x - k| := by
    rw [abs_sub_comm x]
    exact abs_sub_le _ _ _
  have hhalf := abs_sub_nearestEven_le_half x
  linarith

/-- An even integer at the distance of a half is the one that rounding gives. -/
theorem nearestEven_eq_of_tie {x : ℚ} {k : ℤ} (h : |x - k| = 1 / 2) (hk : Even k) :
    nearestEven x = k := by
  have hle := h ▸ abs_sub_nearestEven_le x k
  rcases lt_or_eq_of_le hle with hlt | heq
  · -- something closer than a half leaves no room for another integer at a half
    have htri : |(nearestEven x : ℚ) - k| ≤ |x - nearestEven x| + |x - k| := by
      rw [abs_sub_comm x]
      exact abs_sub_le _ _ _
    have hlt1 : |(nearestEven x : ℚ) - k| < 1 := by linarith
    have : |nearestEven x - k| < 1 := by exact_mod_cast hlt1
    linarith [Int.abs_lt_one_iff.mp this]
  · have heven := even_nearestEven_of_tie heq
    have htri : |(nearestEven x : ℚ) - k| ≤ |x - nearestEven x| + |x - k| := by
      rw [abs_sub_comm x]
      exact abs_sub_le _ _ _
    have hle1 : |nearestEven x - k| ≤ 1 := by
      have : |(nearestEven x : ℚ) - k| ≤ 1 := by linarith
      exact_mod_cast this
    obtain ⟨a, ha⟩ := heven
    obtain ⟨b, hb⟩ := hk
    rw [abs_le] at hle1
    omega

@[simp]
theorem nearestEven_intCast (k : ℤ) : nearestEven (k : ℚ) = k :=
  nearestEven_eq_of_lt (by simp)

/-- Rounding to an integer does not prefer a sign. -/
theorem nearestEven_neg (x : ℚ) : nearestEven (-x) = -nearestEven x := by
  have hdist : |-x - ((-nearestEven x : ℤ) : ℚ)| = |x - nearestEven x| := by
    rw [← abs_neg]
    push_cast
    ring_nf
  rcases lt_or_eq_of_le (abs_sub_nearestEven_le_half x) with hlt | heq
  · exact nearestEven_eq_of_lt (by rwa [hdist])
  · exact nearestEven_eq_of_tie (by rwa [hdist]) (even_nearestEven_of_tie heq).neg

/-! ## The grid of doubles -/

/-- The numbers with at most 53 binary digits, the last of which counts multiples of
`2 ^ (-1074)` or more. Doubles are those of magnitude below `2 ^ 1024`. -/
def OnGrid (x : ℚ) : Prop :=
  ∃ m e : ℤ, |m| ≤ 2 ^ 53 ∧ -1074 ≤ e ∧ x = m * 2 ^ e

/-- The exponent of the last binary digit that a double next to `x` can have. -/
def ulpExponent (x : ℚ) : ℤ :=
  max (Int.log 2 |x| - 52) (-1074)

/-- The member of the grid nearest to `x`, and of two the one with an even last digit. -/
def nearest (x : ℚ) : ℚ :=
  nearestEven (x / 2 ^ ulpExponent x) * 2 ^ ulpExponent x

@[simp]
theorem nearest_zero : nearest 0 = 0 := by
  rw [nearest, zero_div, ← Int.cast_zero, nearestEven_intCast, Int.cast_zero, zero_mul]

theorem two_zpow_pos (e : ℤ) : (0 : ℚ) < 2 ^ e := zpow_pos two_pos e

theorem two_zpow_add (a b : ℤ) : (2 : ℚ) ^ (a + b) = 2 ^ a * 2 ^ b := zpow_add₀ two_ne_zero a b

theorem two_zpow_le {a b : ℤ} (h : a ≤ b) : (2 : ℚ) ^ a ≤ 2 ^ b := zpow_le_zpow_right₀ one_le_two h

theorem neg_1074_le_ulpExponent (x : ℚ) : -1074 ≤ ulpExponent x := le_max_right _ _

@[simp]
theorem ulpExponent_neg (x : ℚ) : ulpExponent (-x) = ulpExponent x := by
  rw [ulpExponent, ulpExponent, abs_neg]

/-- Scaled by its last digit, a number stays below `2 ^ 53`. -/
theorem abs_lt_two_zpow_ulpExponent (x : ℚ) : |x| < 2 ^ (ulpExponent x + 53) := by
  calc |x| < 2 ^ (Int.log 2 |x| + 1) := by
        exact_mod_cast Int.lt_zpow_succ_log_self (one_lt_two : 1 < 2) |x|
    _ ≤ 2 ^ (ulpExponent x + 53) := by
        apply two_zpow_le
        rw [ulpExponent]
        omega

/-- Unless its last digit is the least there is, a number has all 53 binary digits. -/
theorem two_zpow_ulpExponent_le {x : ℚ} (h : -1074 < ulpExponent x) (hx : x ≠ 0) :
    2 ^ (ulpExponent x + 52) ≤ |x| := by
  have hlog : ulpExponent x + 52 = Int.log 2 |x| := by
    rw [ulpExponent] at h ⊢
    omega
  rw [hlog]
  exact_mod_cast Int.zpow_log_le_self (one_lt_two : 1 < 2) (abs_pos.mpr hx)

/-- A number with 53 binary digits above the place `e` has its last digit there or higher. -/
theorem le_ulpExponent {x : ℚ} {e : ℤ} (h : 2 ^ (e + 52) ≤ x) : e ≤ ulpExponent x := by
  have hx : 0 < x := (two_zpow_pos _).trans_le h
  have hlog : e + 52 ≤ Int.log 2 x := by
    rw [← Int.zpow_le_iff_le_log (one_lt_two : 1 < 2) hx]
    exact_mod_cast h
  rw [ulpExponent, abs_of_pos hx]
  omega

theorem onGrid_zero : OnGrid 0 := ⟨0, 0, by norm_num, by norm_num, by norm_num⟩

theorem OnGrid.neg {x : ℚ} : OnGrid x → OnGrid (-x) := by
  rintro ⟨m, e, hm, he, rfl⟩
  exact ⟨-m, e, by rwa [abs_neg], he, by push_cast; ring⟩

/-- Integers of at most 53 binary digits lie on the grid. -/
theorem onGrid_intCast {n : ℤ} (h : |n| ≤ 2 ^ 53) : OnGrid n :=
  ⟨n, 0, h, by norm_num, by simp⟩

theorem onGrid_two_zpow {e : ℤ} (h : -1074 ≤ e) : OnGrid (2 ^ e) :=
  ⟨1, e, by norm_num, h, by simp⟩

/-- At the scale of its last digit, a number is rounded to at most 53 binary digits or to the power
of two that follows. -/
theorem abs_nearestEven_div_le (x : ℚ) : |nearestEven (x / 2 ^ ulpExponent x)| ≤ 2 ^ 53 := by
  have hp := two_zpow_pos (ulpExponent x)
  have hlt : |x / 2 ^ ulpExponent x| < 2 ^ 53 := by
    rw [abs_div, abs_of_pos hp, div_lt_iff₀ hp, mul_comm]
    have h := abs_lt_two_zpow_ulpExponent x
    rwa [two_zpow_add] at h
  have hhalf := abs_sub_nearestEven_le_half (x / 2 ^ ulpExponent x)
  have htri := abs_sub_abs_le_abs_sub
    (nearestEven (x / 2 ^ ulpExponent x) : ℚ) (x / 2 ^ ulpExponent x)
  rw [abs_sub_comm] at hhalf
  have hlt' : |(nearestEven (x / 2 ^ ulpExponent x) : ℚ)| < 2 ^ 53 + 1 := by linarith
  have : |nearestEven (x / 2 ^ ulpExponent x)| < 2 ^ 53 + 1 := by exact_mod_cast hlt'
  omega

/-- Unless its last digit is the least there is, a positive number is rounded to no fewer than 53
binary digits. -/
theorem le_nearestEven_div {x : ℚ} (hx : 0 < x) (h : -1074 < ulpExponent x) :
    2 ^ 52 ≤ nearestEven (x / 2 ^ ulpExponent x) := by
  have hp := two_zpow_pos (ulpExponent x)
  have hle : 2 ^ 52 ≤ x / 2 ^ ulpExponent x := by
    have hbinade := two_zpow_ulpExponent_le h hx.ne'
    rw [abs_of_pos hx, two_zpow_add, mul_comm] at hbinade
    rw [le_div_iff₀ hp]
    exact_mod_cast hbinade
  have hhalf := (abs_le.mp (abs_sub_nearestEven_le_half (x / 2 ^ ulpExponent x))).2
  by_contra! hlt
  have : (nearestEven (x / 2 ^ ulpExponent x) : ℚ) ≤ 2 ^ 52 - 1 := by
    exact_mod_cast Int.le_sub_one_of_lt hlt
  linarith

/-- Rounding ends on the grid. -/
theorem onGrid_nearest (x : ℚ) : OnGrid (nearest x) :=
  ⟨nearestEven (x / 2 ^ ulpExponent x), ulpExponent x, abs_nearestEven_div_le x,
    neg_1074_le_ulpExponent x, rfl⟩

/-- The distance to the rounded number, seen at the scale of the last digit. -/
private theorem abs_sub_nearest_le_of_int (x : ℚ) (k : ℤ) :
    |x - nearest x| ≤ |x - k * 2 ^ ulpExponent x| := by
  have hp := two_zpow_pos (ulpExponent x)
  have hscale : ∀ y : ℤ, |x - y * 2 ^ ulpExponent x| =
      |x / 2 ^ ulpExponent x - y| * 2 ^ ulpExponent x := by
    intro y
    rw [← abs_of_pos hp, ← abs_mul, abs_of_pos hp, sub_mul, div_mul_cancel₀ _ hp.ne']
  rw [nearest, hscale, hscale]
  exact mul_le_mul_of_nonneg_right (abs_sub_nearestEven_le _ k) hp.le

/-- The power of two where the binade of `x` begins, with the sign of `x`, is no closer to `x` than
`nearest x`. -/
private theorem abs_sub_nearest_le_of_binade {x : ℚ} (h : 2 ^ (ulpExponent x + 52) ≤ |x|) :
    |x - nearest x| ≤ |x| - 2 ^ (ulpExponent x + 52) := by
  have hsplit : (2 : ℚ) ^ (ulpExponent x + 52) = 2 ^ 52 * 2 ^ ulpExponent x := by
    rw [two_zpow_add, mul_comm]
    norm_cast
  rw [hsplit] at h ⊢
  rcases le_total 0 x with hx | hx
  · rw [abs_of_nonneg hx] at h ⊢
    have hk := abs_sub_nearest_le_of_int x (2 ^ 52)
    rwa [Int.cast_pow, Int.cast_ofNat, abs_of_nonneg (sub_nonneg.mpr h)] at hk
  · rw [abs_of_nonpos hx] at h ⊢
    have hk := abs_sub_nearest_le_of_int x (-2 ^ 52)
    rw [Int.cast_neg, Int.cast_pow, Int.cast_ofNat, neg_mul, sub_neg_eq_add,
      abs_of_nonpos (a := x + _) (by linarith)] at hk
    linarith

/-- **Rounding is to nearest.** No member of the grid is closer to `x` than `nearest x`. -/
theorem abs_sub_nearest_le (x : ℚ) {f : ℚ} (hf : OnGrid f) : |x - nearest x| ≤ |x - f| := by
  obtain ⟨m, e, hm, he, rfl⟩ := hf
  rcases le_or_gt (ulpExponent x) e with hte | hte
  · -- a multiple of the last digit of `x`: rounding to an integer has considered it
    have hmul : (m : ℚ) * 2 ^ e = ((m * 2 ^ (e - ulpExponent x).toNat : ℤ) : ℚ) *
        2 ^ ulpExponent x := by
      push_cast
      rw [← zpow_natCast, Int.toNat_of_nonneg (by omega), mul_assoc, ← two_zpow_add,
        sub_add_cancel]
    rw [hmul]
    exact abs_sub_nearest_le_of_int x _
  · -- a finer last digit: `f` is at most the power of two where the binade of `x` begins
    by_cases hx : x = 0
    · rw [hx, nearest_zero, sub_self, abs_zero]
      exact abs_nonneg _
    have hf : |(m : ℚ) * 2 ^ e| ≤ 2 ^ (ulpExponent x + 52) := by
      have hm' : |(m : ℚ)| ≤ 2 ^ (53 : ℤ) := by exact_mod_cast hm
      calc |(m : ℚ) * 2 ^ e| = |(m : ℚ)| * 2 ^ e := by rw [abs_mul, abs_of_pos (two_zpow_pos e)]
        _ ≤ 2 ^ (53 : ℤ) * 2 ^ e := mul_le_mul_of_nonneg_right hm' (two_zpow_pos e).le
        _ = 2 ^ (53 + e) := (two_zpow_add 53 e).symm
        _ ≤ 2 ^ (ulpExponent x + 52) := two_zpow_le (by omega)
    calc |x - nearest x| ≤ |x| - 2 ^ (ulpExponent x + 52) :=
          abs_sub_nearest_le_of_binade (two_zpow_ulpExponent_le (by omega) hx)
      _ ≤ |x| - |(m : ℚ) * 2 ^ e| := sub_le_sub_left hf _
      _ ≤ |x - (m : ℚ) * 2 ^ e| := abs_sub_abs_le_abs_sub x (m * 2 ^ e)

/-- Rounding moves a number by at most half of a unit of its last digit. -/
theorem abs_sub_nearest_le_half (x : ℚ) : |x - nearest x| ≤ 2 ^ (ulpExponent x - 1) := by
  have hp := two_zpow_pos (ulpExponent x)
  have hscale : x - nearest x =
      (x / 2 ^ ulpExponent x - nearestEven (x / 2 ^ ulpExponent x)) * 2 ^ ulpExponent x := by
    rw [nearest, sub_mul, div_mul_cancel₀ _ hp.ne']
  calc |x - nearest x|
      = |x / 2 ^ ulpExponent x - nearestEven (x / 2 ^ ulpExponent x)| * 2 ^ ulpExponent x := by
        rw [hscale, abs_mul, abs_of_pos hp]
    _ ≤ 1 / 2 * 2 ^ ulpExponent x :=
        mul_le_mul_of_nonneg_right (abs_sub_nearestEven_le_half _) hp.le
    _ = 2 ^ (ulpExponent x - 1) := by
        rw [zpow_sub_one₀ two_ne_zero]
        ring

/-- Below a power of two the last digit is at a known place or further down. -/
theorem abs_sub_nearest_le_of_abs_lt {x : ℚ} {e : ℤ} (he : -1074 ≤ e) (h : |x| < 2 ^ (e + 53)) :
    |x - nearest x| ≤ 2 ^ (e - 1) := by
  by_cases h0 : x = 0
  · rw [h0, nearest_zero, sub_self, abs_zero]
    exact (two_zpow_pos _).le
  · have hulp : ulpExponent x ≤ e := by
      have hlog := (Int.lt_zpow_iff_log_lt (one_lt_two : 1 < 2) (abs_pos.mpr h0)).mp
        (by exact_mod_cast h)
      rw [ulpExponent]
      omega
    exact (abs_sub_nearest_le_half x).trans (two_zpow_le (by omega))

/-- Above the smallest doubles the error is relative. -/
theorem abs_sub_nearest_le_mul {x : ℚ} (h : 2 ^ (-1021 : ℤ) ≤ x) :
    |x - nearest x| ≤ 2 ^ (-53 : ℤ) * x := by
  have hx : 0 < x := (two_zpow_pos _).trans_le h
  have hulp : -1073 ≤ ulpExponent x := le_ulpExponent h
  have hle := two_zpow_ulpExponent_le (by omega) hx.ne'
  rw [abs_of_pos hx] at hle
  calc |x - nearest x| ≤ 2 ^ (ulpExponent x - 1) := abs_sub_nearest_le_half x
    _ = 2 ^ (-53 : ℤ) * 2 ^ (ulpExponent x + 52) := by
      rw [← two_zpow_add]
      congr 1
      ring
    _ ≤ 2 ^ (-53 : ℤ) * x := mul_le_mul_of_nonneg_left hle (two_zpow_pos _).le

/-- A member of the grid stays where it is. -/
theorem nearest_of_onGrid {x : ℚ} (h : OnGrid x) : nearest x = x := by
  have hdist := abs_sub_nearest_le x h
  rw [sub_self, abs_zero] at hdist
  exact (sub_eq_zero.mp (abs_nonpos_iff.mp hdist)).symm

theorem nearest_neg (x : ℚ) : nearest (-x) = -nearest x := by
  rw [nearest, nearest, ulpExponent_neg, neg_div, nearestEven_neg]
  push_cast
  ring

/-- **Rounding is monotone.** If `nearest x` lay above `nearest y`, then `x` would lie in the upper
half of the gap between them and `y` in the lower half. -/
theorem nearest_mono : Monotone nearest := by
  intro x y hxy
  rcases hxy.eq_or_lt with rfl | hlt
  · exact le_rfl
  by_contra! hgap
  have hx := abs_sub_nearest_le x (onGrid_nearest y)
  have hy := abs_sub_nearest_le y (onGrid_nearest x)
  have hx' : nearest x + nearest y ≤ 2 * x := by
    rw [← sq_le_sq] at hx
    nlinarith
  have hy' : 2 * y ≤ nearest x + nearest y := by
    rw [← sq_le_sq] at hy
    nlinarith
  linarith

/-- Numbers that differ by more than a unit of the last digit are kept apart. -/
theorem nearest_lt_nearest {x y : ℚ} {e : ℤ} (he : -1074 ≤ e) (hx : |x| < 2 ^ (e + 53))
    (hy : |y| < 2 ^ (e + 53)) (hgap : 2 ^ e < y - x) : nearest x < nearest y := by
  have hxe := abs_le.mp (abs_sub_nearest_le_of_abs_lt he hx)
  have hye := abs_le.mp (abs_sub_nearest_le_of_abs_lt he hy)
  have hhalf : (2 : ℚ) ^ e = 2 ^ (e - 1) + 2 ^ (e - 1) := by
    rw [zpow_sub_one₀ two_ne_zero]
    ring
  linarith

/-- A bound from the grid survives rounding. -/
theorem nearest_le {x b : ℚ} (hb : OnGrid b) (h : x ≤ b) : nearest x ≤ b :=
  (nearest_mono h).trans_eq (nearest_of_onGrid hb)

theorem le_nearest {x b : ℚ} (hb : OnGrid b) (h : b ≤ x) : b ≤ nearest x :=
  (nearest_of_onGrid hb).symm.trans_le (nearest_mono h)

theorem abs_nearest_le {x b : ℚ} (hb : OnGrid b) (h : |x| ≤ b) : |nearest x| ≤ b := by
  rw [abs_le] at h ⊢
  exact ⟨le_nearest hb.neg h.1, nearest_le hb h.2⟩

theorem two_zpow_le_abs_nearest {x : ℚ} {e : ℤ} (he : -1074 ≤ e) (h : 2 ^ e ≤ |x|) :
    2 ^ e ≤ |nearest x| := by
  rcases le_abs'.mp h with hneg | hpos
  · have hle := nearest_le (onGrid_two_zpow he).neg hneg
    exact le_abs'.mpr (.inl hle)
  · exact le_abs'.mpr (.inr (le_nearest (onGrid_two_zpow he) hpos))

/-- Only numbers smaller than every double are rounded to zero. -/
theorem nearest_ne_zero {x : ℚ} {e : ℤ} (he : -1074 ≤ e) (h : 2 ^ e ≤ |x|) : nearest x ≠ 0 :=
  abs_pos.mp ((two_zpow_pos e).trans_le (two_zpow_le_abs_nearest he h))

/-- The last digit of a number whose digits are known. -/
theorem ulpExponent_eq {x : ℚ} {e : ℤ} (hx : 0 < x) (he : -1074 ≤ e)
    (hlo : 2 ^ (e + 52) ≤ x ∨ e = -1074) (hhi : x < 2 ^ (e + 53)) : ulpExponent x = e := by
  apply le_antisymm
  · have hlog := (Int.lt_zpow_iff_log_lt (one_lt_two : 1 < 2) hx).mp (by exact_mod_cast hhi)
    rw [ulpExponent, abs_of_pos hx]
    omega
  · rcases hlo with hlo | rfl
    · exact le_ulpExponent hlo
    · exact neg_1074_le_ulpExponent x

/-- What lies below half of the least double is rounded to zero. -/
theorem nearest_eq_zero {x : ℚ} (hx : 0 < x) (h : x < 2 ^ (-1075 : ℤ)) : nearest x = 0 := by
  have hulp : ulpExponent x = -1074 :=
    ulpExponent_eq hx le_rfl (.inr rfl) (h.trans_le (two_zpow_le (by norm_num)))
  have hhalf : |x / 2 ^ (-1074 : ℤ) - (0 : ℤ)| < 1 / 2 := by
    have hscale : (2 : ℚ) ^ (-1075 : ℤ) = 1 / 2 * 2 ^ (-1074 : ℤ) := by
      rw [show (-1075 : ℤ) = -1 + -1074 by norm_num, two_zpow_add, zpow_neg_one, one_div]
    rw [Int.cast_zero, sub_zero, abs_of_pos (div_pos hx (two_zpow_pos _)),
      div_lt_iff₀ (two_zpow_pos _), ← hscale]
    exact h
  rw [nearest, hulp, nearestEven_eq_of_lt hhalf, Int.cast_zero, zero_mul]

/-- A number is rounded to the multiple of its last digit that is no more than a half away. -/
theorem nearest_eq_mul {x : ℚ} {e k : ℤ} (hulp : ulpExponent x = e) (hle : |x / 2 ^ e - k| ≤ 1 / 2)
    (htie : |x / 2 ^ e - k| = 1 / 2 → Even k) : nearest x = k * 2 ^ e := by
  have heven : nearestEven (x / 2 ^ e) = k := by
    rcases hle.lt_or_eq with hlt | heq
    · exact nearestEven_eq_of_lt hlt
    · exact nearestEven_eq_of_tie heq (htie heq)
  rw [nearest, hulp, heven]

end Identicon.Binary64
