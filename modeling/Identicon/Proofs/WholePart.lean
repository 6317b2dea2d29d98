import Identicon.Expr.Grammar
import Identicon.Proofs.Binary64.Whole

/-!
# Whole parts in the grammar

Below the root the grammar looks at a value through its whole part alone: the whole part selects the
rule and the leaf, and a sine or cosine hands on nine tenths of it. As long as whole parts stay
small enough for rounding not to reach the next whole number, `n` becomes `9 * n / 10`.
-/

namespace Identicon

open Binary64

namespace Binary64

/-- The double is a number from 0 on with the whole part `n`. -/
def HasWholePart (z : Float) (n : ℕ) : Prop :=
  ∃ x : ℚ, Holds z x ∧ 0 ≤ x ∧ ⌊x⌋₊ = n

variable {z : Float} {n : ℕ}

theorem HasWholePart.toInt_eq (h : HasWholePart z n) (hn : n < 2 ^ 63) : toInt z = n := by
  obtain ⟨x, hx, h0, rfl⟩ := h
  rw [Nat.floor_lt h0] at hn
  exact toInt_of_nonneg hx h0 (by exact_mod_cast hn)

theorem HasWholePart.holds_trunc (h : HasWholePart z n) : Holds (trunc z) n := by
  obtain ⟨x, hx, h0, rfl⟩ := h
  -- from 0 on, dropping the fraction and rounding down are the same
  have htrunc := hx.trunc
  rwa [truncate, if_pos h0, ← natCast_floor_eq_intCast_floor h0] at htrunc

/-- The double nearest to nine tenths, which is a little more than that. -/
theorem holds_nine_tenths : Holds 0.9 (0x1CCCCCCCCCCCCD * 2 ^ (-53 : ℤ)) :=
  holds_of_unpack (m := 0x1CCCCCCCCCCCCD) (e := -53) (by norm_num) rfl (by norm_num)

/-- Rounding does not carry nine tenths of a whole number over to the next whole number. -/
theorem floor_nearest_mul_nine_tenths (hn : n < 2 ^ 40) :
    ⌊nearest (n * (0x1CCCCCCCCCCCCD * 2 ^ (-53 : ℤ)))⌋₊ = 9 * n / 10 := by
  set k := 9 * n / 10 with hk
  have hnq : (n : ℚ) < 2 ^ 40 := by exact_mod_cast hn
  have hlo : (10 * k : ℚ) ≤ 9 * n := by exact_mod_cast (by omega : 10 * k ≤ 9 * n)
  have hhi : (9 * n : ℚ) ≤ 10 * k + 9 := by exact_mod_cast (by omega : 9 * n ≤ 10 * k + 9)
  have hn0 : (0 : ℚ) ≤ n := n.cast_nonneg
  -- the exact product lies between two doubles, `k` and a number short of `k + 1`
  have hkgrid : OnGrid k := by
    exact_mod_cast onGrid_intCast (n := (k : ℤ)) (by rw [Nat.abs_cast]; omega)
  have hgrid : OnGrid (k + 31 / 32) := by
    refine ⟨32 * k + 31, -5, ?_, by norm_num, ?_⟩
    · rw [abs_of_nonneg (by positivity)]
      omega
    · push_cast
      norm_num
      ring
  have hle : (k : ℚ) ≤ n * (0x1CCCCCCCCCCCCD * 2 ^ (-53 : ℤ)) := by
    norm_num
    linarith
  have hge : n * (0x1CCCCCCCCCCCCD * 2 ^ (-53 : ℤ)) ≤ (k + 31 / 32 : ℚ) := by
    norm_num
    linarith
  have hlower := le_nearest hkgrid hle
  rw [Nat.floor_eq_iff ((Nat.cast_nonneg k).trans hlower)]
  exact ⟨hlower, (nearest_le hgrid hge).trans_lt (by linarith)⟩

/-- What a sine or cosine hands on. -/
theorem HasWholePart.trigSeed (h : HasWholePart z n) (hn : n < 2 ^ 40) :
    HasWholePart (Expr.trigSeed z) (9 * n / 10) := by
  have hnq : (n : ℚ) < 2 ^ 40 := by exact_mod_cast hn
  have h0 : (0 : ℚ) ≤ n * (0x1CCCCCCCCCCCCD * 2 ^ (-53 : ℤ)) := by positivity
  have hlt : |nearest (n * (0x1CCCCCCCCCCCCD * 2 ^ (-53 : ℤ)))| < 2 ^ 1024 := by
    apply abs_nearest_lt
    rw [abs_of_nonneg h0]
    norm_num
    linarith
  exact ⟨_, h.holds_trunc.mul holds_nine_tenths hlt, le_nearest onGrid_zero h0,
    floor_nearest_mul_nine_tenths hn⟩

end Binary64

/-- The rule for a value by its whole part. -/
theorem Rule.inside_of_hasWholePart {value : Float} {n : ℕ} (h : HasWholePart value n)
    (hn : n < 2 ^ 63) : Rule.inside value =
      if n % 3 = 0 then .sine else if n % 2 = 0 then .cosine else .product := by
  rw [Rule.inside, h.toInt_eq hn]
  norm_cast

namespace Expr

/-! ## The root -/

theorem holds_productBelow : Holds Rule.productBelow 40 :=
  holds_of_unpack (m := 0x14000000000000) (e := -47) (by norm_num) rfl (by norm_num)

theorem holds_cosineBelow : Holds Rule.cosineBelow 30 :=
  holds_of_unpack (m := 0x1E000000000000) (e := -48) (by norm_num) rfl (by norm_num)

/-- A small seed makes a product of two equal factors. -/
theorem grow_of_lt {seed : Float} (h : seed < Rule.productBelow) :
    grow seed =
      .product (growLevels 5 (productSeed seed 0)) (growLevels 5 (productSeed seed 0)) := by
  have hrule : Rule.select seed 0 = .product := if_pos h
  show growLevels 6 seed = _
  rw [growLevels]
  simp only [greatestDepth, Nat.reduceAdd, Nat.sub_self, hrule]

/-- Every other seed makes a sine: no seed is left for the cosine, as its bound is the smaller
one. -/
theorem grow_of_not_lt {seed : Float} (h : ¬ seed < Rule.productBelow) :
    grow seed = .sine (growLevels 5 (trigSeed seed)) := by
  have hcosine : ¬ seed < Rule.cosineBelow := by
    intro hlt
    have hbounds : Rule.cosineBelow < Rule.productBelow :=
      (holds_cosineBelow.lt_iff holds_productBelow).mpr (by norm_num)
    exact h (lt_of_lt_of_lt holds_cosineBelow.isFinite holds_productBelow.isFinite hlt hbounds)
  have hrule : Rule.select seed 0 = .sine := (if_neg h).trans (if_neg hcosine)
  show growLevels 6 seed = _
  rw [growLevels]
  simp only [greatestDepth, Nat.reduceAdd, Nat.sub_self, hrule]

/-! ## Between the root and the leaves -/

/-- The value alone selects the rule. -/
theorem growLevels_succ {levels : ℕ} (hlevels : levels < 5) (value : Float) :
    growLevels (levels + 1) value =
      match Rule.inside value with
      | .terminal => .leaf (.ofSeed value)
      | .product =>
        let factor := growLevels levels (productSeed value (greatestDepth - (levels + 1)))
        .product factor factor
      | .sine => .sine (growLevels levels (trigSeed value))
      | .cosine => .cosine (growLevels levels (trigSeed value)) := by
  have hinner : greatestDepth - (levels + 1) ≠ 0 := by rw [greatestDepth]; omega
  have houter : ¬ greatestDepth ≤ greatestDepth - (levels + 1) := by rw [greatestDepth]; omega
  have hselect : Rule.select value (greatestDepth - (levels + 1)) = Rule.inside value :=
    (if_neg hinner).trans (if_neg houter)
  cases hrule : Rule.inside value <;> simp only [growLevels, hselect, hrule]

theorem growLevels_of_hasWholePart {levels : ℕ} (hlevels : levels < 5) {value : Float} {n : ℕ}
    (h : HasWholePart value n) (hn : n < 2 ^ 63) :
    growLevels (levels + 1) value =
      if n % 3 = 0 then .sine (growLevels levels (trigSeed value))
      else if n % 2 = 0 then .cosine (growLevels levels (trigSeed value))
      else
        let factor := growLevels levels (productSeed value (greatestDepth - (levels + 1)))
        .product factor factor := by
  rw [growLevels_succ hlevels, Rule.inside_of_hasWholePart h hn]
  split_ifs <;> rfl

end Expr

end Identicon
