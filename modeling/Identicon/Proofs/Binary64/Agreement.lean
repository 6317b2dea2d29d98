import Identicon.Proofs.Binary64.Nearest

/-!
# Numbers that roundings part

Rounding takes a number to one that is smaller or greater by a factor close to 1, unless the number
is one of the smallest. How many roundings stand between two numbers is therefore kept count of by
their quotient: `Agree n x y` says that each is at least the other times the `n`-th power of what a
single rounding leaves of it. Said of both numbers alike, it is symmetric, and counts add up along
chains, products and quotients.
-/

namespace Identicon.Binary64

variable {m n : ℕ} {x x' y y' : ℚ}

/-- What is left of a number, at the least, when it is rounded. -/
def kept : ℚ := 1 - 2 ^ (-53 : ℤ)

theorem kept_pow_pos (n : ℕ) : 0 < kept ^ n := by
  have hpos : 0 < kept := by norm_num [kept]
  positivity

/-- Numbers that differ no more than by `n` roundings. -/
def Agree (n : ℕ) (x y : ℚ) : Prop :=
  x * kept ^ n ≤ y ∧ y * kept ^ n ≤ x

theorem Agree.symm (h : Agree n x y) : Agree n y x := ⟨h.2, h.1⟩

theorem agree_nearest (h : 2 ^ (-1021 : ℤ) ≤ x) : Agree 1 x (nearest x) := by
  have hx : 0 < x := (two_zpow_pos _).trans_le h
  obtain ⟨hlo, hhi⟩ := abs_le.mp (abs_sub_nearest_le_mul h)
  have hunit : (0 : ℚ) < 2 ^ (-53 : ℤ) := two_zpow_pos _
  rw [Agree, pow_one, kept]
  constructor
  · linarith
  · -- the square of the error is on the safe side
    have hle : nearest x ≤ x * (1 + 2 ^ (-53 : ℤ)) := by linarith
    calc nearest x * (1 - 2 ^ (-53 : ℤ)) ≤ x * (1 + 2 ^ (-53 : ℤ)) * (1 - 2 ^ (-53 : ℤ)) :=
          mul_le_mul_of_nonneg_right hle (by norm_num)
      _ = x - x * (2 ^ (-53 : ℤ)) ^ 2 := by ring
      _ ≤ x := sub_le_self _ (by positivity)

theorem Agree.trans (hm : Agree m x y) (hn : Agree n y x') : Agree (m + n) x x' := by
  have hkm := (kept_pow_pos m).le
  have hkn := (kept_pow_pos n).le
  constructor
  · calc x * kept ^ (m + n) = x * kept ^ m * kept ^ n := by ring
      _ ≤ y * kept ^ n := mul_le_mul_of_nonneg_right hm.1 hkn
      _ ≤ x' := hn.1
  · calc x' * kept ^ (m + n) = x' * kept ^ n * kept ^ m := by ring
      _ ≤ y * kept ^ m := mul_le_mul_of_nonneg_right hn.2 hkm
      _ ≤ x := hm.2

theorem Agree.mul (h : Agree m x y) (h' : Agree n x' y') (hx : 0 ≤ x) (hy : 0 ≤ y) (hx' : 0 ≤ x')
    (hy' : 0 ≤ y') : Agree (m + n) (x * x') (y * y') := by
  have hkn := (kept_pow_pos n).le
  constructor
  · calc x * x' * kept ^ (m + n) = x * kept ^ m * (x' * kept ^ n) := by ring
      _ ≤ y * y' := mul_le_mul h.1 h'.1 (mul_nonneg hx' hkn) hy
  · calc y * y' * kept ^ (m + n) = y * kept ^ m * (y' * kept ^ n) := by ring
      _ ≤ x * x' := mul_le_mul h.2 h'.2 (mul_nonneg hy' hkn) hx

theorem Agree.inv (h : Agree n x y) (hx : 0 < x) (hy : 0 < y) : Agree n x⁻¹ y⁻¹ := by
  constructor
  · rw [inv_mul_le_iff₀ hx, le_mul_inv_iff₀ hy, mul_comm]
    exact h.2
  · rw [inv_mul_le_iff₀ hy, le_mul_inv_iff₀ hx, mul_comm]
    exact h.1

theorem Agree.div (h : Agree m x y) (h' : Agree n x' y') (hx : 0 ≤ x) (hy : 0 ≤ y) (hx' : 0 < x')
    (hy' : 0 < y') : Agree (m + n) (x / x') (y / y') := by
  rw [div_eq_mul_inv, div_eq_mul_inv]
  exact h.mul (h'.inv hx' hy') hx hy (inv_nonneg.mpr hx'.le) (inv_nonneg.mpr hy'.le)

theorem Agree.abs_sub_le (h : Agree 4 x y) (hx : 0 ≤ x) : |y - x| ≤ 2 ^ (-50 : ℤ) * x := by
  have hlo : 1 - 2 ^ (-50 : ℤ) ≤ kept ^ 4 := by norm_num [kept]
  have hhi : 1 ≤ (1 + 2 ^ (-50 : ℤ)) * kept ^ 4 := by norm_num [kept]
  rw [abs_sub_le_iff]
  constructor
  · have hle : y * kept ^ 4 ≤ x * (1 + 2 ^ (-50 : ℤ)) * kept ^ 4 :=
      calc y * kept ^ 4 ≤ x := h.2
        _ ≤ x * ((1 + 2 ^ (-50 : ℤ)) * kept ^ 4) := le_mul_of_one_le_right hx hhi
        _ = x * (1 + 2 ^ (-50 : ℤ)) * kept ^ 4 := by ring
    linarith [le_of_mul_le_mul_right hle (kept_pow_pos 4)]
  · linarith [(mul_le_mul_of_nonneg_left hlo hx).trans h.1]

end Identicon.Binary64
