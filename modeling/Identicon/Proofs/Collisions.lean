import Identicon.Proofs.Binary64.Overflow
import Identicon.Proofs.Levels

/-!
# Seeds that grow the same expression

A value comes into an expression through its whole part, which selects the rule and the leaf and is
what sines and cosines hand on. Only a product hands the fraction on as well, and not even that if
the value is below 50 and replaced. Three families of seeds are therefore told apart by nothing:

* seeds that are below 50 even when they are scaled by the circle constant, all of which grow one
  expression;
* seeds from 40 on with the same whole part;
* below the root, values below 50 with the same whole part.

The last family ends at 50 for a reason: of products from there on, 61 hands on 48.8 and 61.9 hands
on 49.52.
-/

namespace Identicon

open Binary64

namespace Expr

variable {v : Float} {depth : ℕ}

theorem holds_reseedBelow : Holds reseedBelow 50 :=
  holds_of_unpack (m := 0x19000000000000) (e := -47) (by norm_num) rfl (by norm_num)

/-! ## At the root -/

/-- Seeds that are below 50 after scaling make a product. -/
theorem lt_productBelow_of_mul_pi_lt (h : v * pi < reseedBelow) : v < Rule.productBelow := by
  rcases eq_nan_or_infinite_or_isFinite v with rfl | rfl | rfl | hv
  · exact absurd h (by decide)
  · exact absurd h (by decide)
  · decide
  · have hx := holds_toRat hv
    rw [hx.mul_lt_iff holds_pi holds_reseedBelow] at h
    rw [hx.lt_iff holds_productBelow]
    by_contra! hge
    -- three times 40 is more than 50, and rounding does not lead back below it
    have hlarge : 50 ≤ toRat v * (0x1921FB54442D18 * 2 ^ (-51 : ℤ)) := by
      norm_num
      linarith
    exact absurd (le_nearest holds_reseedBelow.onGrid hlarge) (not_le.mpr h)

/-- They are replaced and leave no trace. -/
theorem productSeed_of_mul_pi_lt (h : v * pi < reseedBelow) :
    productSeed v 0 = reseed * 0.8 := by
  rw [productSeed, if_pos rfl, if_pos h]

theorem grow_of_mul_pi_lt (h : v * pi < reseedBelow) :
    grow v = .product (growLevels 5 (reseed * 0.8)) (growLevels 5 (reseed * 0.8)) := by
  rw [grow_of_lt (lt_productBelow_of_mul_pi_lt h), productSeed_of_mul_pi_lt h]

theorem trigSeed_trunc (v : Float) : trigSeed (trunc v) = trigSeed v := by
  rw [trigSeed, trunc_trunc, trigSeed]

/-- From 40 on, the root is a sine and hands on the whole part only. -/
theorem grow_trunc (h : Rule.productBelow ≤ v) : grow (trunc v) = grow v := by
  have hnot := not_lt_of_finite_le holds_productBelow.isFinite h
  have hnot' : ¬ trunc v < Rule.productBelow := by
    rwa [trunc_lt_iff (k := 40) (by exact_mod_cast holds_productBelow) (by norm_num)]
  rw [grow_of_not_lt hnot, grow_of_not_lt hnot', trigSeed_trunc]

/-! ## Below the root -/

theorem inside_trunc (v : Float) : Rule.inside (trunc v) = Rule.inside v := by
  rw [Rule.inside, toInt_trunc, Rule.inside]

theorem ofSeed_trunc (v : Float) : Leaf.ofSeed (trunc v) = Leaf.ofSeed v := by
  rw [Leaf.ofSeed, toInt_trunc, Leaf.ofSeed]

theorem select_trunc (hdepth : 1 ≤ depth) (v : Float) :
    Rule.select (trunc v) depth = Rule.select v depth := by
  have hne : depth ≠ 0 := by omega
  rw [Rule.select, Rule.select, if_neg hne, if_neg hne, inside_trunc]

theorem productSeed_trunc (hdepth : 1 ≤ depth) (h : v < reseedBelow) :
    productSeed (trunc v) depth = productSeed v depth := by
  have h' : trunc v < reseedBelow := by
    rwa [trunc_lt_iff (k := 50) (by exact_mod_cast holds_reseedBelow) (by norm_num)]
  have hne : depth ≠ 0 := by omega
  rw [productSeed, productSeed, if_neg hne, if_neg hne, if_pos h, if_pos h']

theorem growAt_trunc (hdepth : 1 ≤ depth) (h : v < reseedBelow) :
    growAt (trunc v) depth = growAt v depth := by
  rw [growAt_eq, select_trunc hdepth, ofSeed_trunc, productSeed_trunc hdepth h, trigSeed_trunc,
    ← growAt_eq]

/-- **Which seeds collide.** All seeds that are below 50 when scaled by the circle constant grow one
expression, minus infinity among them; a NaN is not below. A seed from 40 on grows the expression of
its whole part, and so does, at every depth below the root, a value below 50. -/
theorem grow_eq_of_indistinct :
    (∀ v w : Float, v * pi < 50 → w * pi < 50 → grow v = grow w) ∧
    (∀ v : Float, 40 ≤ v → grow v = grow (trunc v)) ∧
    ∀ (v : Float) (depth : ℕ), 1 ≤ depth → v < 50 → growAt v depth = growAt (trunc v) depth := by
  refine ⟨?_, fun v h => (grow_trunc h).symm, fun v depth hdepth h => (growAt_trunc hdepth h).symm⟩
  intro v w hv hw
  rw [grow_of_mul_pi_lt hv, grow_of_mul_pi_lt hw]

/-- Minus infinity grows what 15.9 does, 49.5 what 49 does, and below the root `-7.25` what `-7`
does. -/
theorem grow_eq_of_indistinct_infinite :
    (-Float.inf * pi < 50 ∧ 15.9 * pi < 50 ∧ grow (-Float.inf) = grow 15.9) ∧
      ((40 : Float) ≤ 49.5 ∧ grow 49.5 = grow 49) ∧
      ((-7.25 : Float) < 50 ∧ growAt (-7.25) 3 = growAt (-7) 3) := by
  obtain ⟨hscaled, hroot, hbelow⟩ := grow_eq_of_indistinct
  have hinf : -Float.inf * pi < 50 := by decide
  have hsmall : 15.9 * pi < 50 := by decide
  have hlarge : (40 : Float) ≤ 49.5 := by decide
  have hnegative : (-7.25 : Float) < 50 := by decide
  have hwhole : trunc 49.5 = 49 := by decide
  have hwhole' : trunc (-7.25) = -7 := by decide
  refine ⟨⟨hinf, hsmall, hscaled _ _ hinf hsmall⟩, ⟨hlarge, ?_⟩, hnegative, ?_⟩
  · rw [hroot _ hlarge, hwhole]
  · rw [hbelow _ 3 (by decide) hnegative, hwhole']

-- From 50 on, a product hands on the fraction, and the whole parts of what is handed on differ.
example : growAt 61.9 1 ≠ growAt 61 1 := by decide +kernel

end Expr

end Identicon
