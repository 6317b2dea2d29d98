import Identicon.Proofs.Collisions
import Identicon.Proofs.Seeds

/-!
# The values of growing

Every value that growing hands on lies between 7 and a cap, which is 101 or the seed if that is
greater. Below the root each step keeps to these bounds:

* a product below 50 hands on four fifths of 12, and any other four fifths of its value;
* a sine or cosine hands on nine tenths of the whole part, which would be less than 7 if the whole
  part were 7, but 7 selects a product.

The bounds are doubles and rounding is monotone, so that it is enough to compare the exact results
with them. The root is entered with any seed and has a lemma of its own.

No seed of an identifier is greater than 147. All values that its channels hand on are then positive
and far from where the conversion to integers saturates.

## Main definitions

* `Binary64.Between`: the doubles between two numbers.
-/

namespace Identicon

namespace Binary64

variable {a b c z : Float} {lo hi x y : ℚ}

/-- The double is a number between two bounds. -/
def Between (lo hi : ℚ) (z : Float) : Prop :=
  ∃ x : ℚ, Holds z x ∧ lo ≤ x ∧ x ≤ hi

/-- A product is rounded to between doubles that it lies between. -/
theorem Holds.between_mul (ha : Holds a x) (hb : Holds b y) (hlo : OnGrid lo) (h0 : 0 ≤ lo)
    (hc : Holds c hi) (hge : lo ≤ x * y) (hle : x * y ≤ hi) : Between lo hi (a * b) := by
  have hlower := le_nearest hlo hge
  have hupper := nearest_le hc.onGrid hle
  refine ⟨_, ha.mul hb ?_, hlower, hupper⟩
  rw [abs_of_nonneg (h0.trans hlower)]
  exact hupper.trans_lt (lt_of_abs_lt hc.abs_lt)

/-- What is at most a finite double is a number or minus infinity. -/
theorem Holds.eq_neg_inf_or_exists_holds (hc : Holds c hi) (h : z ≤ c) :
    z = -Float.inf ∨ ∃ x, Holds z x ∧ x ≤ hi := by
  rcases eq_nan_or_infinite_or_isFinite z with rfl | rfl | rfl | hz
  · exact absurd h (not_nan_le c)
  · exact absurd h (not_inf_le hc.isFinite)
  · exact .inl rfl
  · exact .inr ⟨_, holds_toRat hz, ((holds_toRat hz).le_iff hc).mp h⟩

theorem Holds.max (ha : Holds a x) (hb : Holds b y) : Holds (max a b) (max x y) := by
  show Holds (if a ≤ b then b else a) _
  split_ifs with h
  · rwa [max_eq_right ((ha.le_iff hb).mp h)]
  · rw [ha.le_iff hb, not_le] at h
    rwa [max_eq_left h.le]

theorem Between.toInt_eq (h : Between lo hi z) (hlo : 0 ≤ lo) (hhi : hi < 2 ^ 63) :
    ∃ x, Holds z x ∧ lo ≤ x ∧ x ≤ hi ∧ toInt z = ⌊x⌋ := by
  obtain ⟨x, hx, hge, hle⟩ := h
  have h0 : 0 ≤ x := hlo.trans hge
  refine ⟨x, hx, hge, hle, ?_⟩
  rw [toInt_of_nonneg hx h0 (hle.trans_lt hhi), Int.natCast_floor_eq_floor h0]

end Binary64

open Binary64

namespace Rule

theorem select_zero_eq_product_iff {value : Float} :
    select value 0 = .product ↔ value < productBelow := by
  show atRoot value = .product ↔ _
  rw [atRoot]
  split_ifs with h <;> simp [h]

theorem select_eq_inside {depth : ℕ} (h0 : 1 ≤ depth) (h : depth < Expr.greatestDepth)
    (value : Float) : select value depth = inside value := by
  rw [select, if_neg (Nat.one_le_iff_ne_zero.mp h0), if_neg (not_le.mpr h)]

end Rule

namespace Expr

variable {c v w : Float} {hi x : ℚ} {depth k : ℕ}

/-! ## Products -/

theorem holds_seven : Holds 7 7 :=
  holds_of_unpack (m := 0x1C000000000000) (e := -50) (by norm_num) rfl (by norm_num)

/-- The double nearest to four fifths, which is a little more than that. -/
theorem holds_four_fifths : Holds 0.8 (0x1999999999999A * 2 ^ (-53 : ℤ)) :=
  holds_of_unpack (m := 0x1999999999999A) (e := -53) (by norm_num) rfl (by norm_num)

/-- What is handed on in place of small values, which is a little more than 9.6. -/
theorem between_reseed (hhi : 10 ≤ hi) : Between 7 hi (reseed * 0.8) := by
  have h : Holds (reseed * 0.8) (0x13333333333334 * 2 ^ (-49 : ℤ)) :=
    holds_of_unpack (m := 0x13333333333334) (e := -49) (by norm_num) rfl (by norm_num)
  exact ⟨_, h, by norm_num, le_trans (by norm_num) hhi⟩

theorem between_mul_four_fifths (hc : Holds c hi) (hx : Holds v x) (hge : 50 ≤ x)
    (hle : x * (0x1999999999999A * 2 ^ (-53 : ℤ)) ≤ hi) : Between 7 hi (v * 0.8) := by
  apply hx.between_mul holds_four_fifths holds_seven.onGrid (by norm_num) hc _ hle
  norm_num
  linarith

theorem between_productSeed (hc : Holds c hi) (hhi : 10 ≤ hi) (hdepth : 1 ≤ depth)
    (hv : Between 7 hi v) : Between 7 hi (productSeed v depth) := by
  obtain ⟨x, hx, hge, hle⟩ := hv
  have hne : depth ≠ 0 := by omega
  rw [productSeed, if_neg hne]
  by_cases hlt : v < reseedBelow
  · rw [if_pos hlt]
    exact between_reseed hhi
  · rw [if_neg hlt]
    rw [hx.lt_iff holds_reseedBelow, not_lt] at hlt
    apply between_mul_four_fifths hc hx hlt
    norm_num
    linarith

/-- A seed below 40 stays below 126 when it is scaled by the circle constant. -/
theorem between_mul_pi (hx : Holds v x) (hlt : x < 40) (h : ¬ v * pi < reseedBelow) :
    Between 50 126 (v * pi) := by
  -- the exact product need not be 50 or more, only the rounded one is known to be
  rw [hx.mul_lt_iff holds_pi holds_reseedBelow, not_lt] at h
  have hgrid : OnGrid 126 := by exact_mod_cast onGrid_intCast (n := 126) (by norm_num)
  have hle : nearest (x * (0x1921FB54442D18 * 2 ^ (-51 : ℤ))) ≤ 126 := by
    apply nearest_le hgrid
    norm_num
    linarith
  refine ⟨_, hx.mul holds_pi ?_, h, hle⟩
  rw [abs_of_nonneg (by linarith)]
  exact hle.trans_lt ((by norm_num : (126 : ℚ) < 2 ^ 7).trans
    (pow_lt_pow_right₀ one_lt_two (by norm_num)))

/-- The root scales a seed before it hands it on. -/
theorem between_productSeed_zero (hc : Holds c hi) (hhi : 101 ≤ hi)
    (hv : v = -Float.inf ∨ ∃ x, Holds v x ∧ x < 40) : Between 7 hi (productSeed v 0) := by
  by_cases hlt : v * pi < reseedBelow
  · rw [productSeed_of_mul_pi_lt hlt]
    exact between_reseed (by linarith)
  · rcases hv with rfl | ⟨x, hx, hx40⟩
    · exact absurd (neg_inf_lt holds_reseedBelow.isFinite) hlt
    · obtain ⟨y, hy, hge, hle⟩ := between_mul_pi hx hx40 hlt
      rw [productSeed, if_pos rfl, if_neg hlt]
      apply between_mul_four_fifths hc hy hge
      norm_num
      linarith

/-! ## Sines and cosines -/

theorem between_trigSeed (hc : Holds c hi) (hx : Holds v x) (hfloor : 8 ≤ ⌊x⌋) (hle : x ≤ hi) :
    Between 7 hi (trigSeed v) := by
  have hfloor' : (8 : ℚ) ≤ ⌊x⌋ := by exact_mod_cast hfloor
  have hfloorle := Int.floor_le x
  have htrunc := hx.trunc
  rw [truncate, if_pos (by linarith)] at htrunc
  -- nine tenths of 8 are more than 7, and nine tenths of the whole part no more than the value
  apply htrunc.between_mul holds_nine_tenths holds_seven.onGrid (by norm_num) hc
  · norm_num
    linarith
  · norm_num
    linarith

/-- A value from 7 on that makes no product has a greater whole part than 7. -/
theorem eight_le_floor (hx : Holds v x) (hge : 7 ≤ x) (hrule : Rule.inside v ≠ .product) :
    8 ≤ ⌊x⌋ := by
  by_contra! hlt
  have hfloor : ⌊x⌋ = 7 := le_antisymm (by omega) (Int.le_floor.mpr (by exact_mod_cast hge))
  -- 7 is neither divisible by three nor even
  have hwhole : HasWholePart v 7 := ⟨x, hx, by linarith, by rw [← Int.floor_toNat, hfloor]; rfl⟩
  exact hrule (Rule.inside_of_hasWholePart hwhole (by norm_num))

/-! ## Steps and runs -/

theorem handedOn_cases (h : handedOn v depth = some w) :
    (Rule.select v depth = .product ∧ w = productSeed v depth) ∨
      (Rule.select v depth ≠ .product ∧ w = trigSeed v) := by
  rw [handedOn] at h
  cases hrule : Rule.select v depth with
  | terminal =>
    rw [hrule] at h
    cases h
  | product =>
    rw [hrule] at h
    exact .inl ⟨rfl, (Option.some.inj h).symm⟩
  | sine | cosine =>
    rw [hrule] at h
    exact .inr ⟨by decide, (Option.some.inj h).symm⟩

/-- What the root hands on. -/
theorem between_handedOn_zero (hc : Holds c hi) (hhi : 101 ≤ hi) (hv : v ≤ c)
    (h : handedOn v 0 = some w) : Between 7 hi w := by
  have hvalue := hc.eq_neg_inf_or_exists_holds hv
  rcases handedOn_cases h with ⟨hrule, rfl⟩ | ⟨hrule, rfl⟩
  · rw [Rule.select_zero_eq_product_iff] at hrule
    apply between_productSeed_zero hc hhi
    exact hvalue.imp_right fun ⟨x, hx, _⟩ => ⟨x, hx, (hx.lt_iff holds_productBelow).mp hrule⟩
  · rw [ne_eq, Rule.select_zero_eq_product_iff] at hrule
    rcases hvalue with rfl | ⟨x, hx, hle⟩
    · exact absurd (neg_inf_lt holds_productBelow.isFinite) hrule
    · rw [hx.lt_iff holds_productBelow, not_lt] at hrule
      exact between_trigSeed hc hx (Int.le_floor.mpr (by norm_num; linarith)) hle

/-- What is handed on below the root keeps to the bounds. -/
theorem between_handedOn (hc : Holds c hi) (hhi : 101 ≤ hi) (hdepth : 1 ≤ depth)
    (hv : Between 7 hi v) (h : handedOn v depth = some w) : Between 7 hi w := by
  have hinside := Rule.select_eq_inside hdepth (lt_of_handedOn_eq_some h) v
  rcases handedOn_cases h with ⟨-, rfl⟩ | ⟨hrule, rfl⟩
  · exact between_productSeed hc (by linarith) hdepth hv
  · obtain ⟨x, hx, hge, hle⟩ := hv
    rw [hinside] at hrule
    exact between_trigSeed hc hx (eight_le_floor hx hge hrule) hle

namespace Reaches

/-- What the root establishes and every step below it keeps holds of all values below the root. -/
theorem invariant {P : Float → Prop} (hroot : ∀ w, handedOn v 0 = some w → P w)
    (hstep : ∀ u w k, 1 ≤ k → P u → handedOn u k = some w → P w) (h : Reaches v 0 w k)
    (hk : 1 ≤ k) : P w := by
  induction h with
  | start => omega
  | @step u w k hu hw ih =>
    -- the step from the root is the only one that does not come from a value below the root
    cases hu with
    | start => exact hroot w hw
    | step _ _ => exact hstep u w _ (by omega) (ih (by omega)) hw

theorem between (hc : Holds c hi) (hhi : 101 ≤ hi) (hv : v ≤ c) (h : Reaches v 0 w k)
    (hk : 1 ≤ k) : Between 7 hi w :=
  h.invariant (fun _ => between_handedOn_zero hc hhi hv)
    (fun _ _ _ hk hu => between_handedOn hc hhi hk hu) hk

end Reaches

/-- Infinity stays what it is. -/
theorem handedOn_inf (h : handedOn Float.inf depth = some w) : w = Float.inf := by
  rcases handedOn_cases h with ⟨-, rfl⟩ | ⟨-, rfl⟩
  · have hscaled : Float.inf * pi = Float.inf := by decide
    rw [productSeed, hscaled, ite_self]
    decide
  · decide

theorem Reaches.eq_inf (h : Reaches Float.inf 0 w k) : w = Float.inf := by
  induction h with
  | start => rfl
  | step _ hw ih => exact handedOn_inf (ih ▸ hw)

/-! ## The bounds -/

theorem holds_cap : Holds 101 101 :=
  holds_of_unpack (m := 0x19400000000000) (e := -46) (by norm_num) rfl (by norm_num)

/-- Any number is at most the greater of it and 101, which is finite unless the number is
infinity. -/
theorem exists_holds_max (hnan : v.isNaN = false) (hinf : v ≠ Float.inf) :
    ∃ hi, Holds (max v 101) hi ∧ 101 ≤ hi ∧ v ≤ max v 101 := by
  rcases eq_nan_or_infinite_or_isFinite v with rfl | rfl | rfl | hv
  · cases hnan
  · exact absurd rfl hinf
  · exact ⟨101, holds_cap, le_rfl, by decide⟩
  · have hmax := (holds_toRat hv).max holds_cap
    exact ⟨_, hmax, le_max_right _ _, ((holds_toRat hv).le_iff hmax).mpr (le_max_left _ _)⟩

theorem seven_le_and_le_max (hnan : v.isNaN = false) (h : Reaches v 0 w k) (hk : 1 ≤ k) :
    7 ≤ w ∧ w ≤ max v 101 := by
  by_cases hinf : v = Float.inf
  · subst hinf
    rw [h.eq_inf]
    decide
  · obtain ⟨hi, hc, hhi, hle⟩ := exists_holds_max hnan hinf
    obtain ⟨x, hx, hge, hxle⟩ := h.between hc hhi hle hk
    exact ⟨(holds_seven.le_iff hx).mpr hge, (hx.le_iff hc).mpr hxle⟩

theorem holds_greatestSeed : Holds 147 147 :=
  holds_of_unpack (m := 0x12600000000000) (e := -45) (by norm_num) rfl (by norm_num)

variable {user : String} {seeds : Seeds}

theorem seed_le (hlen : (lowercaseOf user).length < 2 ^ 32) (h : Seeds.derive user = .ok seeds)
    (c : Channel) : seeds.get c ≤ 147 := by
  obtain ⟨hlong, rfl⟩ := Seeds.derive_eq_ok_iff.mp h
  obtain ⟨x, hx, hle⟩ := exists_holds_seed_le (thirds_ne_nil hlong c)
    ((length_thirds_le _ c).trans_lt hlen)
  rw [Seeds.get_ofParts]
  exact (hx.le_iff holds_greatestSeed).mpr hle

/-- **What growing hands on lies between 7 and the greater of the seed and 101**, whatever number
the seed is, an infinity included. Growing calls itself on the values of `handedOn` and on no others
(`growAt_eq`, `mem_branches_growAt_iff`), so that the nodes of the expression are what is grown from
the values that it comes to. For the seeds of an identifier it lies between 7 and 147, its
whole part is the integer that it is converted to, without saturation, and the remainders that
select rules and leaves are those of a positive number. -/
theorem seven_le_of_reaches :
    (∀ (v : Float) (i : ℕ) (s : Expr), NodeAt (grow v) i s ↔
      ∃ w, Reaches v 0 w i ∧ s = growAt w i) ∧
    (∀ (v w : Float) (depth : ℕ), v.isNaN = false → Reaches v 0 w depth → 1 ≤ depth →
      7 ≤ w ∧ w ≤ max v 101) ∧
    ∀ (user : String) (seeds : Seeds) (c : Channel), (lowercaseOf user).length < 2 ^ 32 →
      Seeds.derive user = .ok seeds → ∀ (w : Float) (depth : ℕ),
        Reaches (seeds.get c) 0 w depth → 1 ≤ depth →
        ∃ x : ℚ, Holds w x ∧ 7 ≤ x ∧ x ≤ 147 ∧ toInt w = ⌊x⌋ ∧ 0 < toInt w := by
  refine ⟨fun v i s => ?_, fun v w depth hnan h hdepth => seven_le_and_le_max hnan h hdepth, ?_⟩
  · rw [grow, nodeAt_growAt_iff, Nat.zero_add]
  intro user seeds c hlen hseeds w depth h hdepth
  have hbetween := h.between holds_greatestSeed (by norm_num) (seed_le hlen hseeds c) hdepth
  obtain ⟨x, hx, hge, hle, hint⟩ := hbetween.toInt_eq (by norm_num) (by norm_num)
  have hfloor : 7 ≤ ⌊x⌋ := Int.le_floor.mpr (by exact_mod_cast hge)
  exact ⟨x, hx, hge, hle, hint, by omega⟩

/-- Infinity is handed on as it is. Underscores make seeds of 15, from which growing comes close to
the lower bound. -/
theorem seven_le_of_reaches_underscores :
    (Float.inf.isNaN = false ∧ Reaches Float.inf 0 Float.inf 1 ∧
      7 ≤ Float.inf ∧ Float.inf ≤ max Float.inf 101) ∧
    ((lowercaseOf "___").length < 2 ^ 32 ∧ Seeds.derive "___" = .ok ⟨15, 15, 15⟩ ∧
      Reaches 15 0 7.2 3 ∧
      ∃ x : ℚ, Holds 7.2 x ∧ 7 ≤ x ∧ x ≤ 147 ∧ toInt 7.2 = ⌊x⌋ ∧ 0 < toInt 7.2) := by
  have hinf : Reaches Float.inf 0 Float.inf 1 := .step .start (by decide)
  have hlen : (lowercaseOf "___").length < 2 ^ 32 := by decide +kernel
  have hseeds : Seeds.derive "___" = .ok ⟨15, 15, 15⟩ :=
    Seeds.derive_eq_ok_iff.mpr ⟨by decide +kernel, by decide +kernel⟩
  have hroot : Reaches 15 0 (reseed * 0.8) 1 := .step .start (by decide +kernel)
  have hsine : Reaches 15 0 8.1 2 := .step hroot (by decide +kernel)
  have h : Reaches 15 0 7.2 3 := .step hsine (by decide +kernel)
  exact ⟨⟨by decide, hinf, seven_le_of_reaches.2.1 _ _ 1 (by decide) hinf le_rfl⟩, hlen, hseeds, h,
    seven_le_of_reaches.2.2 "___" _ .red hlen hseeds _ 3 h (by norm_num)⟩

end Expr

end Identicon
