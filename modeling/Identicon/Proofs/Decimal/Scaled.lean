import Identicon.Json.Conversion
import Identicon.Proofs.Binary64.Agreement
import Identicon.Proofs.Binary64.Overflow
import Identicon.Proofs.Decimal.Nearest

/-!
# Decimals scaled by powers of ten

What becomes of a decimal when its digits are rounded to a double first and the double is then
multiplied or divided by a rounded power of ten: `rescaled` is the number that results. It is the
double nearest to the decimal if digits and power are doubles themselves (`rescaled_of_few`), and
three roundings away from the decimal in general (`agree_rescaled`).

## Main statements

* `scaled?_eq_some`, `scaled?_eq_none`: the double that a decimal is turned into.
* `rescaled_of_few`, `agree_rescaled`: how far it is from the decimal.
-/

namespace Identicon.Decimal

open Binary64

variable {d : Decimal} {n : ℕ} {z : Float} {x : ℚ}

/-! ## Powers of ten -/

theorem one_le_nearest_pow (n : ℕ) : 1 ≤ nearest (10 ^ n) :=
  le_nearest holds_one.onGrid (one_le_pow₀ (by norm_num))

/-- The powers of ten of the table are rounded to finite doubles. -/
theorem nearest_pow_lt (h : n ≤ greatestPower) : nearest (10 ^ n) < 2 ^ 1024 := by
  have hgrid : OnGrid (3 * 2 ^ (1022 : ℤ)) := ⟨3, 1022, by norm_num, by norm_num, by norm_num⟩
  have hend : 10 ^ 308 ≤ 3 * 2 ^ 1022 := by decide +kernel
  have hlt : 3 * 2 ^ 1022 < 2 ^ 1024 := by decide +kernel
  have hle : (10 : ℚ) ^ n ≤ 3 * 2 ^ (1022 : ℤ) :=
    calc (10 : ℚ) ^ n ≤ 10 ^ 308 := pow_le_pow_right₀ (by norm_num) h
      _ ≤ 3 * 2 ^ (1022 : ℤ) := by exact_mod_cast hend
  calc nearest (10 ^ n) ≤ 3 * 2 ^ (1022 : ℤ) := nearest_le hgrid hle
    _ < 2 ^ 1024 := by exact_mod_cast hlt

theorem holds_power (h : n ≤ greatestPower) : Holds (powerOfTen n) (nearest (10 ^ n)) := by
  have hone := one_le_nearest_pow n
  have hexp : n ≤ 308 := h
  have hval : ((1 : ℕ) : ℚ) * 10 ^ (n : ℤ) = 10 ^ n := by
    rw [Nat.cast_one, one_mul, zpow_natCast]
  have hlt : |nearest (((1 : ℕ) : ℚ) * 10 ^ (n : ℤ))| < 2 ^ 1024 := by
    rw [hval, abs_of_pos (zero_lt_one.trans_le hone)]
    exact nearest_pow_lt h
  have hholds := holds_ofScientific (m := 1) (e := n) (by decide) (by omega) (by omega) hlt
  have hneg : decide ((n : ℤ) < 0) = false := decide_eq_false (by omega)
  rwa [hval, hneg, Int.natAbs_natCast] at hholds

/-! ## Scaling -/

theorem scale_natCast (h : n ≤ greatestPower) (z : Float) :
    scale z n = if (z * powerOfTen n).isInf then none else some (z * powerOfTen n) := by
  rw [scale, if_pos (by rwa [Int.natAbs_natCast]), if_pos (by omega), Int.natAbs_natCast]

theorem scale_neg_natCast (hpos : 0 < n) (h : n ≤ greatestPower) (z : Float) :
    scale z (-n) = some (z / powerOfTen n) := by
  rw [scale, if_pos (by rwa [Int.natAbs_neg, Int.natAbs_natCast]), if_neg (by omega),
    Int.natAbs_neg, Int.natAbs_natCast]

/-- A power below those of the table takes another step. -/
theorem scale_neg_add (hn : 0 < n) (hz : (z == 0) = false) :
    scale z (-(n + greatestPower : ℕ)) = scale (z / powerOfTen greatestPower) (-n) := by
  have hexp : -((n + greatestPower : ℕ) : ℤ) + (greatestPower : ℤ) = -n := by
    push_cast
    ring
  rw [scale, if_neg (by rw [Int.natAbs_neg, Int.natAbs_natCast]; omega),
    if_neg (by rw [hz]; exact Bool.false_ne_true), if_neg (by omega), hexp]

/-- Division by a power of ten stays in range and keeps the sign. -/
theorem holds_div_power (hz : Holds z x) (hx : 0 < x) (h : n ≤ greatestPower) :
    Holds (z / powerOfTen n) (nearest (x / nearest (10 ^ n))) ∧
      isSigned (z / powerOfTen n) = false := by
  have hone := one_le_nearest_pow n
  have hpow : 0 < nearest (10 ^ n) := zero_lt_one.trans_le hone
  have hle : nearest (x / nearest (10 ^ n)) ≤ x := nearest_le hz.onGrid (div_le_self hx.le hone)
  have hnonneg : 0 ≤ nearest (x / nearest (10 ^ n)) :=
    le_nearest onGrid_zero (div_pos hx hpow).le
  have hlt : nearest (x / nearest (10 ^ n)) < 2 ^ 1024 :=
    hle.trans_lt ((le_abs_self x).trans_lt hz.abs_lt)
  exact ⟨hz.div (holds_power h) hpow.ne' (by rwa [abs_of_nonneg hnonneg]),
    hz.isSigned_div (holds_power h) hx hpow hlt⟩

/-- Not even a quotient by the last power of the table is rounded to zero. -/
theorem nearest_div_greatest_pos (hx : 1 ≤ x) : 0 < nearest (x / nearest (10 ^ greatestPower)) := by
  have hpow : 0 < nearest (10 ^ greatestPower) :=
    zero_lt_one.trans_le (one_le_nearest_pow greatestPower)
  have hle : (2 : ℚ) ^ (-1024 : ℤ) ≤ x / nearest (10 ^ greatestPower) := by
    rw [le_div_iff₀ hpow, zpow_neg, zpow_ofNat, inv_mul_le_iff₀ (by positivity)]
    exact (nearest_pow_lt le_rfl).le.trans (le_mul_of_one_le_right (by positivity) hx)
  exact (two_zpow_pos _).trans_le (le_nearest (onGrid_two_zpow (by norm_num)) hle)

/-- A number times a power of ten that is rounded, or over one. A quotient by a power beyond the
table is taken in two steps. -/
def rescale (x : ℚ) (e : ℤ) : ℚ :=
  if 0 ≤ e then nearest (x * nearest (10 ^ e.toNat))
  else if e.natAbs ≤ greatestPower then nearest (x / nearest (10 ^ e.natAbs))
  else nearest (nearest (x / nearest (10 ^ greatestPower)) /
    nearest (10 ^ (e.natAbs - greatestPower)))

theorem rescale_natCast (x : ℚ) (n : ℕ) : rescale x n = nearest (x * nearest (10 ^ n)) := by
  rw [rescale, if_pos (Int.natCast_nonneg n), Int.toNat_natCast]

theorem rescale_neg_natCast (hpos : 0 < n) (hn : n ≤ greatestPower) (x : ℚ) :
    rescale x (-n) = nearest (x / nearest (10 ^ n)) := by
  rw [rescale, if_neg (by omega), Int.natAbs_neg, Int.natAbs_natCast, if_pos hn]

theorem rescale_nonneg (hx : 0 ≤ x) (e : ℤ) : 0 ≤ rescale x e := by
  have hpow : ∀ n : ℕ, 0 ≤ nearest (10 ^ n) := fun n => zero_le_one.trans (one_le_nearest_pow n)
  rw [rescale]
  split_ifs
  · exact le_nearest onGrid_zero (mul_nonneg hx (hpow _))
  · exact le_nearest onGrid_zero (div_nonneg hx (hpow _))
  · have hfirst := le_nearest onGrid_zero (div_nonneg hx (hpow greatestPower))
    exact le_nearest onGrid_zero (div_nonneg hfirst (hpow _))

/-- A double is scaled up to the nearest double, if that is not beyond the greatest one. -/
theorem scale_natCast_eq_some (hz : Holds z x) (hx : 1 ≤ x) (hn : n ≤ greatestPower)
    (hlt : rescale x n < 2 ^ 1024) :
    ∃ w, Holds w (rescale x n) ∧ isSigned w = false ∧ scale z n = some w := by
  rw [rescale_natCast] at hlt ⊢
  have hone : 1 ≤ nearest (x * nearest (10 ^ n)) :=
    le_nearest holds_one.onGrid (one_le_mul_of_one_le_of_one_le hx (one_le_nearest_pow n))
  have hpos := zero_lt_one.trans_le hone
  have hmul := hz.mul (holds_power hn) ((abs_of_pos hpos).trans_lt hlt)
  refine ⟨_, hmul, ?_, ?_⟩
  · rw [hmul.isSigned_eq hpos.ne']
    exact decide_eq_false (not_lt.mpr hpos.le)
  · rw [scale_natCast hn, isInf_eq_false hmul.isFinite]
    rfl

theorem scale_natCast_eq_none (hz : Holds z x) (hn : n ≤ greatestPower)
    (hle : 2 ^ 1024 ≤ rescale x n) : scale z n = none := by
  rw [rescale_natCast] at hle
  rw [scale_natCast hn, hz.mul_eq_inf (holds_power hn) hle]
  rfl

/-- A double is scaled down in one step or two. -/
theorem scale_neg_eq_some (hz : Holds z x) (hx : 1 ≤ x) (hpos : 0 < n)
    (hn : n ≤ 2 * greatestPower) :
    ∃ w, Holds w (rescale x (-n)) ∧ isSigned w = false ∧ scale z (-n) = some w := by
  have hx0 : 0 < x := zero_lt_one.trans_le hx
  rw [rescale, if_neg (by omega), Int.natAbs_neg, Int.natAbs_natCast]
  split_ifs with htable
  · obtain ⟨hholds, hsign⟩ := holds_div_power hz hx0 htable
    exact ⟨_, hholds, hsign, scale_neg_natCast hpos htable _⟩
  · -- the first step divides by the last power of the table
    obtain ⟨j, rfl⟩ : ∃ j, n = j + greatestPower := ⟨n - greatestPower, by omega⟩
    have hj : j ≤ greatestPower := by omega
    have hjpos : 0 < j := by omega
    have hzero : (z == 0) = false := by
      rw [Bool.eq_false_iff, ne_eq, beq_zero_iff hz.isFinite, hz.toRat_eq]
      exact hx0.ne'
    have hfirst := (holds_div_power hz hx0 le_rfl).1
    obtain ⟨hholds, hsign⟩ := holds_div_power hfirst (nearest_div_greatest_pos hx) hj
    rw [Nat.add_sub_cancel]
    refine ⟨_, hholds, hsign, ?_⟩
    rw [scale_neg_add hjpos hzero, scale_neg_natCast hjpos hj]

/-! ## Decimals -/

/-- The number that a decimal becomes when its digits are rounded, and then scaled by a rounded
power of ten. -/
def rescaled (d : Decimal) : ℚ :=
  rescale (nearest d.digits) d.power

theorem holds_digits (hlt : d.digits < UInt64.size) :
    Holds d.digits.toUInt64.toFloat (nearest d.digits) := by
  have hnat : d.digits.toUInt64.toNat = d.digits := by
    rw [Nat.toUInt64, UInt64.toNat_ofNat', Nat.mod_eq_of_lt hlt]
  have h := holds_toFloat_nearest d.digits.toUInt64
  rwa [hnat] at h

theorem one_le_nearest_digits (hpos : 0 < d.digits) : 1 ≤ nearest d.digits :=
  le_nearest holds_one.onGrid (by exact_mod_cast hpos)

theorem power_cases (hlo : -616 ≤ d.power) (hhi : d.power ≤ 308) :
    (∃ n : ℕ, n ≤ greatestPower ∧ d.power = n) ∨
      ∃ n : ℕ, 0 < n ∧ n ≤ 2 * greatestPower ∧ d.power = -n := by
  rw [greatestPower]
  rcases le_or_gt 0 d.power with h | h
  · exact .inl ⟨d.power.toNat, by omega, by omega⟩
  · exact .inr ⟨d.power.natAbs, by omega, by omega, by omega⟩

/-- **A decimal of 64 bits is turned into the number that it is scaled to**, if that is not beyond
the greatest double. -/
theorem scaled?_eq_some (hpos : 0 < d.digits) (hdigits : d.digits < UInt64.size)
    (hlo : -616 ≤ d.power) (hhi : d.power ≤ 308) (hlt : d.rescaled < 2 ^ 1024) :
    ∃ w, Holds w d.rescaled ∧ isSigned w = false ∧
      ∀ negative, d.scaled? negative = some (if negative then -w else w) := by
  have hz := holds_digits hdigits
  have hone := one_le_nearest_digits hpos
  suffices hscale : ∃ w, Holds w d.rescaled ∧ isSigned w = false ∧
      scale d.digits.toUInt64.toFloat d.power = some w by
    obtain ⟨w, hw, hsign, hscale⟩ := hscale
    refine ⟨w, hw, hsign, fun negative => ?_⟩
    rw [scaled?, hscale, Option.map_some]
  rw [rescaled] at hlt ⊢
  rcases power_cases hlo hhi with ⟨n, hn, hpower⟩ | ⟨n, hn0, hn, hpower⟩
  · rw [hpower] at hlt ⊢
    exact scale_natCast_eq_some hz hone hn hlt
  · rw [hpower]
    exact scale_neg_eq_some hz hone hn0 hn

/-- Beyond the greatest double there is nothing that a decimal is turned into. -/
theorem scaled?_eq_none (hpos : 0 < d.digits) (hdigits : d.digits < UInt64.size)
    (hlo : -616 ≤ d.power) (hhi : d.power ≤ 308) (hle : 2 ^ 1024 ≤ d.rescaled) (negative : Bool) :
    d.scaled? negative = none := by
  have hz := holds_digits hdigits
  rw [rescaled] at hle
  rcases power_cases hlo hhi with ⟨n, hn, hpower⟩ | ⟨n, hn0, hn, hpower⟩
  · rw [hpower] at hle
    rw [scaled?, hpower, scale_natCast_eq_none hz hn hle, Option.map_none]
  · -- a quotient is a double
    rw [hpower] at hle
    obtain ⟨w, hw, -⟩ := scale_neg_eq_some hz (one_le_nearest_digits hpos) hn0 hn
    exact absurd ((le_abs_self _).trans_lt hw.abs_lt) (not_lt.mpr hle)

/-! ## Few digits -/

theorem value_of_power_eq_neg (hn : d.power = -n) : d.value = d.digits / 10 ^ n := by
  rw [value, hn, zpow_neg, zpow_natCast, ← div_eq_mul_inv]

/-- The first powers of ten are doubles. -/
theorem nearest_pow_of_le (h : n ≤ 22) : nearest (10 ^ n) = 10 ^ n := by
  have hfive : 5 ^ n ≤ 2 ^ 53 := (Nat.pow_le_pow_right (by decide) h).trans (by decide)
  refine nearest_of_onGrid ⟨5 ^ n, n, ?_, by omega, ?_⟩
  · rw [abs_of_pos (by positivity)]
    exact_mod_cast hfive
  · rw [zpow_natCast]
    push_cast
    rw [← mul_pow]
    norm_num

/-- With few digits and a small power of ten a decimal is rounded only once. -/
theorem rescaled_of_few (hdigits : d.digits ≤ 2 ^ 53) (hlo : -22 ≤ d.power) (hhi : d.power ≤ 22) :
    d.rescaled = nearest d.value := by
  have hexact : nearest (d.digits : ℚ) = d.digits := by
    have h : |(d.digits : ℤ)| ≤ 2 ^ 53 := by
      rw [Nat.abs_cast]
      exact_mod_cast hdigits
    exact_mod_cast nearest_of_onGrid (onGrid_intCast h)
  rw [rescaled, hexact]
  rcases le_or_gt 0 d.power with hpower | hpower
  · obtain ⟨n, hn⟩ := Int.eq_ofNat_of_zero_le hpower
    rw [value, hn, rescale_natCast, nearest_pow_of_le (by omega), zpow_natCast]
  · obtain ⟨n, hn⟩ : ∃ n : ℕ, d.power = -n := ⟨d.power.natAbs, by omega⟩
    have htable : n ≤ greatestPower := by
      rw [greatestPower]
      omega
    rw [value_of_power_eq_neg hn, hn, rescale_neg_natCast (by omega) htable,
      nearest_pow_of_le (by omega)]

/-! ## Lost accuracy -/

theorem agree_nearest_pow (n : ℕ) : Agree 1 (10 ^ n) (nearest (10 ^ n)) :=
  agree_nearest ((zpow_le_one_of_nonpos₀ (by norm_num) (by norm_num)).trans
    (one_le_pow₀ (by norm_num)))

/-- A decimal of 64 bits that is not too small is scaled in one step. -/
theorem le_greatestPower (hdigits : d.digits < UInt64.size)
    (hle : 2 ^ (-960 : ℤ) ≤ (d.digits : ℚ) / 10 ^ n) : n ≤ greatestPower := by
  have hend : 2 ^ 960 * 2 ^ 64 ≤ 10 ^ 309 := by decide +kernel
  have hlt : (d.digits : ℚ) < 2 ^ 64 := by exact_mod_cast hdigits
  have hpow : (10 : ℚ) ^ n < 10 ^ 309 :=
    calc (10 : ℚ) ^ n ≤ 2 ^ 960 * d.digits := by
          rwa [le_div_iff₀ (by positivity), zpow_neg, zpow_ofNat,
            inv_mul_le_iff₀ (by positivity)] at hle
      _ < 2 ^ 960 * 2 ^ 64 := mul_lt_mul_of_pos_left hlt (by positivity)
      _ ≤ 10 ^ 309 := by exact_mod_cast hend
  exact Nat.le_of_lt_succ ((pow_lt_pow_iff_right₀ (by norm_num)).mp hpow)

/-- A decimal that is scaled in one step has been rounded three times. -/
theorem agree_rescaled (hpos : 0 < d.digits) (hdigits : d.digits < UInt64.size)
    (hle : 2 ^ (-960 : ℤ) ≤ d.value) : Agree 3 d.value d.rescaled := by
  have hleast : (2 : ℚ) ^ (-1021 : ℤ) ≤ 1 := zpow_le_one_of_nonpos₀ (by norm_num) (by norm_num)
  have hone : (1 : ℚ) ≤ d.digits := by exact_mod_cast hpos
  have hx := one_le_nearest_digits hpos
  have hagree := agree_nearest (hleast.trans hone)
  rcases le_or_gt 0 d.power with hpower | hpower
  · obtain ⟨n, hn⟩ := Int.eq_ofNat_of_zero_le hpower
    have hten := one_le_nearest_pow n
    have hmul := hagree.mul (agree_nearest_pow n) (by linarith) (by linarith) (by positivity)
      (by linarith)
    rw [rescaled, value, hn, rescale_natCast, zpow_natCast]
    exact hmul.trans (agree_nearest (hleast.trans (one_le_mul_of_one_le_of_one_le hx hten)))
  · obtain ⟨n, hn⟩ : ∃ n : ℕ, d.power = -n := ⟨d.power.natAbs, by omega⟩
    have hten := one_le_nearest_pow n
    have hdiv := hagree.div (agree_nearest_pow n) (by linarith) (by linarith) (by positivity)
      (by linarith)
    rw [value_of_power_eq_neg hn] at hle ⊢
    rw [rescaled, hn, rescale_neg_natCast (by omega) (le_greatestPower hdigits hle)]
    -- the quotient is nowhere near the smallest doubles
    have hkept : (1 : ℚ) / 2 ≤ kept ^ 2 := by norm_num [kept]
    have hsmall : (2 : ℚ) ^ (-1021 : ℤ) ≤ 2 ^ (-960 : ℤ) * (1 / 2) := by
      rw [one_div, ← zpow_neg_one, ← two_zpow_add]
      exact two_zpow_le (by norm_num)
    refine hdiv.trans (agree_nearest (hsmall.trans (le_trans ?_ hdiv.1)))
    exact mul_le_mul hle hkept (by norm_num) ((two_zpow_pos _).le.trans hle)

end Identicon.Decimal
