import Identicon.Proofs.Binary64.Arithmetic

/-!
# Doubles and whole numbers

Whole numbers of at most 53 binary digits are doubles, and the conversions between the two drop a
fraction or round it away from zero, as `truncate` and `halfAway` do with rational numbers. A double
of magnitude `2 ^ 52` or more has no fraction, which is why the conversions leave it alone; below
that, the fraction itself is computed without rounding (`onGrid_sub_floor`).
-/

namespace Identicon.Binary64

open Float.Model (UnpackedFloat Format)
open Float.Model.UnpackedFloat (Sign decreaseExponent shiftToExponent roundToInt)

variable {s : Sign} {x y : ℚ} {m n : ℕ} {e : ℤ} {z w : Float}

/-! ## From whole numbers -/

theorem nearest_intCast {k : ℤ} (hk : |k| ≤ 2 ^ 53) : nearest k = k :=
  nearest_of_onGrid (onGrid_intCast hk)

/-- Whole numbers of at most 53 digits are far from the end of the range. -/
theorem abs_nearest_intCast_lt {k : ℤ} (hk : |k| ≤ 2 ^ 53) : |nearest k| < 2 ^ 1024 := by
  have hq : |(k : ℚ)| ≤ 2 ^ 53 := by exact_mod_cast hk
  exact abs_nearest_lt (hq.trans (by norm_num))

theorem holds_normalize {k : ℤ} (hk : |k| ≤ 2 ^ 53) :
    Holds (Float.ofModel (.pack (UnpackedFloat.normalize .binary64 k 0 .positive))) k := by
  have h := rounds_normalize k 0 .positive
  rw [zpow_zero, mul_one] at h
  rw [← nearest_intCast hk]
  exact holds_of_rounds h (abs_nearest_intCast_lt hk)

/-- Adding and subtracting whole numbers is exact as long as the result has at most 53 digits. -/
theorem Holds.add_intCast {j k : ℤ} (hz : Holds z j) (hw : Holds w k) (h : |j + k| ≤ 2 ^ 53) :
    Holds (z + w) (j + k : ℤ) := by
  have hgrid := nearest_intCast h
  have hlt := abs_nearest_intCast_lt h
  push_cast at hgrid hlt ⊢
  rw [← hgrid]
  exact hz.add hw hlt

theorem Holds.sub_intCast {j k : ℤ} (hz : Holds z j) (hw : Holds w k) (h : |j - k| ≤ 2 ^ 53) :
    Holds (z - w) (j - k : ℤ) := by
  have hneg : Holds (-w) (-k : ℤ) := by
    rw [Int.cast_neg]
    exact hw.neg
  rw [sub_eq_add_neg, floatSub_eq_add_neg]
  exact hz.add_intCast hneg (by rwa [← sub_eq_add_neg])

theorem holds_toFloat_uint64 (n : UInt64) (hn : n.toNat ≤ 2 ^ 53) : Holds n.toFloat n.toNat :=
  holds_normalize (k := n.toNat) (by rw [Nat.abs_cast]; exact_mod_cast hn)

theorem holds_toFloat_uint32 (n : UInt32) : Holds n.toFloat n.toNat :=
  holds_normalize (k := n.toNat) (by
    have := n.toNat_lt
    rw [Nat.abs_cast]
    exact_mod_cast (by omega : n.toNat ≤ 2 ^ 53))

/-- An integer of at most 53 digits is converted exactly. -/
theorem holds_ofInt {k : ℤ} (hk : |k| ≤ 2 ^ 53) : Holds (ofInt k) k := by
  rw [Int.abs_eq_natAbs] at hk
  have hnat : k.natAbs.toUInt64.toNat = k.natAbs := by
    rw [Nat.toUInt64, UInt64.toNat_ofNat', Nat.mod_eq_of_lt (by omega)]
  have habs : Holds k.natAbs.toUInt64.toFloat (k.natAbs : ℚ) := by
    have h := holds_toFloat_uint64 k.natAbs.toUInt64 (by omega)
    rwa [hnat] at h
  rw [ofInt]
  split_ifs with hneg
  · have hcast : (k : ℚ) = -(k.natAbs : ℚ) := by
      rw [Nat.cast_natAbs, abs_of_neg hneg, Int.cast_neg, neg_neg]
    rw [hcast]
    exact habs.neg
  · have hcast : (k : ℚ) = k.natAbs := by
      rw [Nat.cast_natAbs, abs_of_nonneg (not_lt.mp hneg)]
    rw [hcast]
    exact habs

theorem holds_toFloat_nat (hm : m < 2 ^ 53) : Holds m.toUInt64.toFloat m := by
  have hnat : m.toUInt64.toNat = m := by
    rw [Nat.toUInt64, UInt64.toNat_ofNat', Nat.mod_eq_of_lt (by omega)]
  have h := holds_toFloat_uint64 m.toUInt64 (by omega)
  rwa [hnat] at h

/-- A word of 64 bits is a finite double. -/
theorem holds_toFloat_nearest (n : UInt64) : Holds n.toFloat (nearest n.toNat) := by
  have h := rounds_normalize n.toNat 0 .positive
  rw [zpow_zero, mul_one, Int.cast_natCast] at h
  have hlt : |(n.toNat : ℚ)| ≤ 2 ^ 100 := by
    rw [Nat.abs_cast]
    have := n.toNat_lt
    exact_mod_cast (by omega : n.toNat ≤ 2 ^ 100)
  exact holds_of_rounds h (abs_nearest_lt hlt)

/-- Integers are converted to finite doubles of magnitude at most `2 ^ 64`. -/
theorem exists_holds_ofInt (k : ℤ) : ∃ x, Holds (ofInt k) x ∧ |x| ≤ 2 ^ 64 := by
  have hgrid : OnGrid (2 ^ 64) := by exact_mod_cast onGrid_two_zpow (e := 64) (by norm_num)
  have hword : ∀ n : UInt64, |nearest (n.toNat : ℚ)| ≤ 2 ^ 64 := by
    intro n
    apply abs_nearest_le hgrid
    rw [Nat.abs_cast]
    exact_mod_cast n.toNat_lt.le
  rw [ofInt]
  split_ifs
  · exact ⟨_, (holds_toFloat_nearest _).neg, by rw [abs_neg]; exact hword _⟩
  · exact ⟨_, holds_toFloat_nearest _, hword _⟩

/-- A count of characters that fits into a word is converted to a double of at least one. -/
theorem exists_holds_ofInt_natCast {n : ℕ} (hpos : 0 < n) (hlt : n < 2 ^ 64) :
    ∃ x, Holds (ofInt n) x ∧ 1 ≤ x := by
  have hnat : (n : ℤ).natAbs.toUInt64.toNat = n := by
    rw [Int.natAbs_natCast, Nat.toUInt64, UInt64.toNat_ofNat', Nat.mod_eq_of_lt hlt]
  have hone : (1 : ℚ) ≤ nearest n := by
    apply le_nearest
    · exact_mod_cast onGrid_intCast (n := 1) (by norm_num)
    · exact_mod_cast hpos
  refine ⟨nearest n, ?_, hone⟩
  have h := holds_toFloat_nearest (n : ℤ).natAbs.toUInt64
  rw [hnat] at h
  rwa [ofInt, if_neg (by omega)]

/-- Reads a constant off its unpacked form. -/
theorem holds_of_unpack (hm : 0 < m) (h : z.toModel.unpack = .finite .positive m e hm)
    (hx : (m : ℚ) * 2 ^ e = x) : Holds z x := by
  subst hx
  constructor
  · show z.toModel.unpack.isFinite = true
    rw [h]
    rfl
  · rw [toRat, h, rational_positive]

theorem holds_one : Holds 1 1 :=
  holds_of_unpack (m := 2 ^ 52) (e := -52) (by norm_num) rfl (by norm_num)

theorem holds_half : Holds 0.5 (1 / 2) :=
  holds_of_unpack (m := 2 ^ 52) (e := -53) (by norm_num) rfl (by norm_num)

theorem holds_zero : Holds 0 0 := ⟨rfl, rfl⟩

theorem holds_wholeFrom : Holds wholeFrom (2 ^ 52) :=
  holds_of_unpack (m := 2 ^ 52) (e := 0) (by norm_num) rfl (by norm_num)

theorem holds_pi : Holds pi (0x1921FB54442D18 * 2 ^ (-51 : ℤ)) :=
  holds_of_unpack (m := 0x1921FB54442D18) (e := -51) (by norm_num) rfl (by norm_num)

/-! ## Dropping a fraction -/

/-- The whole number next to `x` on the side of zero. -/
def truncate (x : ℚ) : ℤ :=
  if 0 ≤ x then ⌊x⌋ else -⌊-x⌋

theorem roundToInt_eq (s : Sign) (m : ℕ) (e : ℤ) :
    roundToInt s m e = s.apply ⌊(m : ℚ) * 2 ^ e⌋ := by
  -- zeros are appended until the exponent is at most 0, and the digits below the unit are cut off
  obtain ⟨k, d, hd, hk, hle, hval⟩ : ∃ k d, d = decreaseExponent m e 0 ∧ d.1 = k ∧ d.2 ≤ 0 ∧
      (k : ℚ) * 2 ^ d.2 = m * 2 ^ e := by
    refine ⟨_, _, rfl, rfl, by simp only [decreaseExponent]; omega, ?_⟩
    simp only [decreaseExponent]
    generalize (e - 0).toNat = n
    rw [Nat.shiftLeft_eq, zpow_sub₀ two_ne_zero, zpow_natCast]
    push_cast
    field_simp
  have hexact : Represents (.ofMantissaAndAccuracy d.1 .exact) ((m * 2 ^ e : ℚ) / 2 ^ d.2) := by
    rw [← hval, mul_div_cancel_right₀ _ (two_zpow_pos _).ne', hk]
    exact represents_exact k
  have hfloor := (represents_shiftToExponent hle hexact).1.floor_eq
  rw [zpow_zero, div_one] at hfloor
  rw [hfloor, roundToInt, ← hd]

theorem toInt_unpack (h : Holds z x) (a b : ℤ) : z.toModel.unpack.toInt a b = truncate x := by
  obtain ⟨hfin, rfl⟩ := h
  have hfin : z.toModel.unpack.isFinite = true := hfin
  unfold toRat
  cases hz : z.toModel.unpack with
  | notANumber => simp [hz, UnpackedFloat.isFinite] at hfin
  | infinity s => simp [hz, UnpackedFloat.isFinite] at hfin
  | zero s => simp [UnpackedFloat.toInt, rational_zero, truncate]
  | finite s m e hm =>
    have hpos := natCast_mul_two_zpow_pos (e := e) hm
    rw [UnpackedFloat.toInt, roundToInt_eq]
    cases s with
    | positive =>
      rw [rational_positive, truncate, if_pos hpos.le]
      rfl
    | negative =>
      rw [rational_negative, truncate, if_neg (by linarith), neg_neg]
      rfl

theorem toNat_ofNatClamp_uint64 (n : ℕ) :
    (UInt64.ofNatClamp n).toNat = min n (UInt64.size - 1) := by
  rw [UInt64.ofNatClamp]
  split_ifs with h
  · show n = _
    omega
  · show UInt64.size - 1 = _
    omega

theorem toNat_ofNatClamp_uint8 (h : n < UInt8.size) : (UInt8.ofNatClamp n).toNat = n := by
  rw [UInt8.ofNatClamp, dif_pos h]
  rfl

theorem toNat_truncate (h0 : 0 ≤ x) : (truncate x).toNat = ⌊x⌋₊ := by
  rw [truncate, if_pos h0, Int.floor_toNat]

/-- A word takes the whole part of a number from 0 on, or the greatest value that it can. -/
theorem toNat_toUInt64_eq_min (h : Holds z x) (h0 : 0 ≤ x) :
    z.toUInt64.toNat = min ⌊x⌋₊ (UInt64.size - 1) := by
  rw [Float.toUInt64, Float.Model.toUInt64, UnpackedFloat.toUInt64, toInt_unpack h,
    toNat_truncate h0]
  exact toNat_ofNatClamp_uint64 _

theorem toNat_toUInt64 (h : Holds z x) (h0 : 0 ≤ x) (hx : x < 2 ^ 64) :
    z.toUInt64.toNat = ⌊x⌋₊ := by
  have hlt : ⌊x⌋₊ < UInt64.size := by
    rw [Nat.floor_lt h0]
    exact_mod_cast hx
  rw [toNat_toUInt64_eq_min h h0]
  omega

theorem toNat_toUInt8 (h : Holds z x) (h0 : 0 ≤ x) (hx : x < 2 ^ 8) : z.toUInt8.toNat = ⌊x⌋₊ := by
  rw [Float.toUInt8, Float.Model.toUInt8, UnpackedFloat.toUInt8, toInt_unpack h, toNat_truncate h0]
  apply toNat_ofNatClamp_uint8
  rw [Nat.floor_lt h0]
  exact_mod_cast hx

theorem holds_abs_toUInt64 (h : Holds z x) (hx : |x| < 2 ^ 52) :
    Holds z.abs.toUInt64.toFloat ⌊|x|⌋₊ := by
  have hnat : z.abs.toUInt64.toNat = ⌊|x|⌋₊ :=
    toNat_toUInt64 h.abs (abs_nonneg x) (hx.trans (by norm_num))
  have hlt : ⌊|x|⌋₊ < 2 ^ 52 := by
    rw [Nat.floor_lt (abs_nonneg x)]
    exact_mod_cast hx
  rw [← hnat] at hlt ⊢
  exact holds_toFloat_uint64 _ (by omega)

theorem holds_withSignOf (h : Holds z x) (hw : Holds w y) (h0 : x = 0 → y = 0) :
    Holds (withSignOf z w) (if 0 ≤ x then y else -y) := by
  by_cases hx : x = 0
  · -- a zero can have either sign, and its magnitude is a zero too
    have hy := h0 hx
    subst hx hy
    rw [if_pos le_rfl, withSignOf]
    split
    · rw [← neg_zero]
      exact hw.neg
    · exact hw
  · rw [withSignOf, h.isSigned_eq hx]
    by_cases hneg : x < 0
    · rw [if_neg hneg.not_ge, decide_eq_true hneg, if_pos rfl]
      exact hw.neg
    · rw [if_pos (not_lt.mp hneg), decide_eq_false hneg, if_neg Bool.false_ne_true]
      exact hw

/-- Numbers with more digits than a double has room for end in zeros. -/
theorem OnGrid.exists_eq_mul_two_zpow {j : ℤ} (h : OnGrid x) (hx : 2 ^ (52 + j) ≤ |x|) :
    ∃ k : ℤ, x = k * 2 ^ j := by
  obtain ⟨m, e, hm, -, rfl⟩ := h
  rcases le_or_gt j e with he | he
  · obtain ⟨n, rfl⟩ : ∃ n : ℕ, e = n + j := ⟨(e - j).toNat, by omega⟩
    refine ⟨m * 2 ^ n, ?_⟩
    rw [two_zpow_add, zpow_natCast]
    push_cast
    ring
  · -- with a digit below `j`, only `± 2 ^ 53` of its units are left
    have hhalf : (2 : ℚ) ^ e ≤ 2 ^ (j - 1) := two_zpow_le (by omega)
    have hmq : |(m : ℚ)| ≤ 2 ^ 53 := by exact_mod_cast hm
    have habs : |(m : ℚ) * 2 ^ e| = |(m : ℚ)| * 2 ^ e := by
      rw [abs_mul, abs_of_pos (two_zpow_pos e)]
    have hpow : (2 : ℚ) ^ 53 * 2 ^ (j - 1) = 2 ^ (52 + j) := by
      rw [← zpow_natCast, ← two_zpow_add]
      congr 1
      norm_num
      ring
    have heq : |(m : ℚ) * 2 ^ e| = 2 ^ (52 + j) := by
      apply le_antisymm _ hx
      rw [habs, ← hpow]
      exact mul_le_mul hmq hhalf (two_zpow_pos e).le (by norm_num)
    rw [two_zpow_add] at heq
    have hpos : (0 : ℚ) ≤ 2 ^ (52 : ℤ) * 2 ^ j := by positivity
    rcases (abs_eq hpos).mp heq with h | h
    · exact ⟨2 ^ 52, by rw [h]; norm_num⟩
    · exact ⟨-2 ^ 52, by rw [h]; norm_num⟩

/-- A double of magnitude `2 ^ 52` or more has no fraction. -/
theorem exists_int_of_onGrid (h : OnGrid x) (hx : 2 ^ 52 ≤ |x|) : ∃ k : ℤ, x = k := by
  obtain ⟨k, hk⟩ := h.exists_eq_mul_two_zpow (j := 0) (by exact_mod_cast hx)
  exact ⟨k, by rw [hk, zpow_zero, mul_one]⟩

theorem truncate_intCast (k : ℤ) : truncate k = k := by
  rw [truncate, ← Int.cast_neg, Int.floor_intCast, Int.floor_intCast, neg_neg, ite_self]

theorem truncate_eq (x : ℚ) : (truncate x : ℚ) = if 0 ≤ x then (⌊|x|⌋₊ : ℚ) else -⌊|x|⌋₊ := by
  have habs : (⌊|x|⌋₊ : ℚ) = ⌊|x|⌋ := natCast_floor_eq_intCast_floor (abs_nonneg x)
  rw [habs, truncate]
  split_ifs with h
  · rw [abs_of_nonneg h]
  · rw [abs_of_neg (not_le.mp h), Int.cast_neg]

/-- Dropping the fraction of a double is exact. -/
theorem Holds.trunc (h : Holds z x) : Holds (trunc z) (truncate x) := by
  rw [Binary64.trunc]
  split_ifs with hlt
  · have hx := (h.abs.lt_iff holds_wholeFrom).mp hlt
    rw [truncate_eq]
    apply holds_withSignOf h (holds_abs_toUInt64 h hx)
    rintro rfl
    simp
  · have hx := not_lt.mp (mt (h.abs.lt_iff holds_wholeFrom).mpr hlt)
    obtain ⟨k, rfl⟩ := exists_int_of_onGrid h.onGrid hx
    rw [truncate_intCast]
    exact h

/-- A whole part outside the signed 64-bit range is clamped into it. -/
theorem Holds.toInt_eq (h : Holds z x) :
    toInt z = max (-2 ^ 63) (min (truncate x) (2 ^ 63 - 1)) := by
  have hbound : (intBound : ℤ) = 2 ^ 63 := by norm_num [intBound]
  have hsize : UInt64.size = 2 * intBound := by norm_num [UInt64.size, intBound]
  have htrunc : truncate x = if 0 ≤ x then (⌊|x|⌋₊ : ℤ) else -⌊|x|⌋₊ := by
    exact_mod_cast truncate_eq x
  rw [toInt, toNat_toUInt64_eq_min h.abs (abs_nonneg x), htrunc]
  by_cases h0 : x = 0
  · subst h0
    simp
  · rw [h.isSigned_eq h0]
    by_cases hneg : x < 0
    · rw [decide_eq_true hneg, if_pos rfl, if_neg hneg.not_ge]
      omega
    · rw [decide_eq_false hneg, if_neg Bool.false_ne_true, if_pos (not_lt.mp hneg)]
      omega

theorem toInt_of_nonneg (h : Holds z x) (h0 : 0 ≤ x) (hx : x < 2 ^ 63) : toInt z = ⌊x⌋₊ := by
  have hlt : ⌊x⌋₊ < 2 ^ 63 := by
    rw [Nat.floor_lt h0]
    exact_mod_cast hx
  rw [h.toInt_eq, truncate, if_pos h0, ← Int.natCast_floor_eq_floor h0]
  omega

/-! ## Rounding to the nearest whole number -/

/-- The whole number nearest to `x`, a tie going away from zero. -/
def halfAway (x : ℚ) : ℤ :=
  if 0 ≤ x then round x else -round (-x)

/-- The fraction of a double is a double. -/
theorem onGrid_sub_floor (h : OnGrid x) (h0 : 0 ≤ x) : OnGrid (x - ⌊x⌋) := by
  obtain ⟨m, e, hm, he, rfl⟩ := h
  rcases le_or_gt 0 e with he0 | he0
  · obtain ⟨n, rfl⟩ := Int.eq_ofNat_of_zero_le he0
    have hint : (m : ℚ) * 2 ^ (n : ℤ) = (m * 2 ^ n : ℤ) := by
      push_cast
      rw [zpow_natCast]
    rw [hint, Int.floor_intCast, sub_self]
    exact onGrid_zero
  · obtain ⟨n, rfl⟩ : ∃ n : ℕ, e = -n := ⟨(-e).toNat, by omega⟩
    have hm0 : 0 ≤ m := by
      by_contra hneg
      have : (m : ℚ) < 0 := by exact_mod_cast not_le.mp hneg
      exact h0.not_gt (mul_neg_of_neg_of_pos this (two_zpow_pos _))
    have hdiv : (m : ℚ) * 2 ^ (-n : ℤ) = m / (2 ^ n : ℕ) := by
      rw [zpow_neg, zpow_natCast, div_eq_mul_inv, Nat.cast_pow, Nat.cast_ofNat]
    refine ⟨m % 2 ^ n, -n, ?_, he, ?_⟩
    · rw [abs_of_nonneg (Int.emod_nonneg _ (by positivity))]
      rw [abs_of_nonneg hm0] at hm
      have hquot : 0 ≤ 2 ^ n * (m / 2 ^ n) :=
        mul_nonneg (by positivity) (Int.ediv_nonneg hm0 (by positivity))
      rw [Int.emod_def]
      linarith
    · rw [hdiv, Rat.floor_intCast_div_natCast, zpow_neg, zpow_natCast, Int.emod_def]
      push_cast
      field_simp

theorem halfAway_intCast (k : ℤ) : halfAway k = k := by
  rw [halfAway, ← Int.cast_neg, round_intCast, round_intCast, neg_neg, ite_self]

theorem halfAway_mono : Monotone halfAway := by
  have hround : Monotone (round : ℚ → ℤ) := by
    intro a b hab
    rw [round_eq, round_eq]
    exact Int.floor_mono (by linarith)
  intro a b hab
  rw [halfAway, halfAway]
  split_ifs with ha hb hb
  · exact hround hab
  · linarith
  · have hneg : 0 ≤ round (-a) := by simpa using hround (by linarith : 0 ≤ -a)
    have hpos : 0 ≤ round b := by simpa using hround hb
    linarith
  · exact neg_le_neg (hround (neg_le_neg hab))

/-- Rounding to a whole number does not lead past whole numbers. -/
theorem le_halfAway {k : ℤ} (h : k ≤ x) : k ≤ halfAway x := by
  have hround := halfAway_mono h
  rwa [halfAway_intCast] at hround

theorem halfAway_le {k : ℤ} (h : x ≤ k) : halfAway x ≤ k := by
  have hround := halfAway_mono h
  rwa [halfAway_intCast] at hround

theorem abs_sub_halfAway_le (x : ℚ) : |x - halfAway x| ≤ 1 / 2 := by
  rw [halfAway]
  split_ifs
  · exact abs_sub_round x
  · have hneg : x - ((-round (-x) : ℤ) : ℚ) = -(-x - round (-x)) := by
      push_cast
      ring
    rw [hneg, abs_neg]
    exact abs_sub_round (-x)

theorem halfAway_eq (x : ℚ) :
    (halfAway x : ℚ) = if 0 ≤ x then (round |x| : ℚ) else -round |x| := by
  rw [halfAway]
  split_ifs with h
  · rw [abs_of_nonneg h]
  · rw [abs_of_neg (not_le.mp h), Int.cast_neg]

theorem natCast_floor_eq_round_of_lt (h0 : 0 ≤ x) (h : x - ⌊x⌋ < 1 / 2) :
    (⌊x⌋₊ : ℚ) = round x := by
  rw [natCast_floor_eq_intCast_floor h0, Int.cast_inj, eq_comm, round_eq_iff]
  have := Int.floor_le x
  constructor <;> linarith

theorem natCast_floor_add_one_eq_round (h0 : 0 ≤ x) (h : 1 / 2 ≤ x - ⌊x⌋) :
    (⌊x⌋₊ + 1 : ℚ) = round x := by
  rw [natCast_floor_eq_intCast_floor h0, ← Int.cast_one, ← Int.cast_add, Int.cast_inj, eq_comm,
    round_eq_iff]
  have := Int.lt_floor_add_one x
  push_cast
  constructor <;> linarith

theorem holds_floor_add_one (hw : Holds w n) (hn : n < 2 ^ 52) : Holds (w + 1) (n + 1) := by
  have hnat : Holds w (n : ℤ) := by simpa using hw
  have hone : Holds 1 (1 : ℤ) := by simpa using holds_one
  have hadd := hnat.add_intCast hone (by rw [abs_of_nonneg (by omega)]; omega)
  push_cast at hadd
  exact hadd

/-- Rounding a double to the nearest whole number is exact. -/
theorem Holds.roundHalfAway (h : Holds z x) : Holds (roundHalfAway z) (halfAway x) := by
  rw [Binary64.roundHalfAway]
  split_ifs with hlt
  · have hx := (h.abs.lt_iff holds_wholeFrom).mp hlt
    have h0 := abs_nonneg x
    have hfloor := holds_abs_toUInt64 h hx
    have hfract : Holds (z.abs - z.abs.toUInt64.toFloat) (|x| - ⌊|x|⌋) := by
      have hgrid := nearest_of_onGrid (onGrid_sub_floor h.abs.onGrid h0)
      have hone : |nearest (|x| - ⌊|x|⌋)| < 2 ^ 1024 := by
        rw [hgrid, Int.self_sub_floor, abs_of_nonneg (Int.fract_nonneg _)]
        exact (Int.fract_lt_one _).trans (one_lt_pow₀ one_lt_two (by norm_num))
      rw [← natCast_floor_eq_intCast_floor h0] at hgrid hone ⊢
      have hsub := h.abs.sub hfloor hone
      rwa [hgrid] at hsub
    rw [halfAway_eq]
    apply holds_withSignOf h
    · have hiff := hfract.lt_iff holds_half
      split_ifs with hcmp
      · rw [← natCast_floor_eq_round_of_lt h0 (hiff.mp hcmp)]
        exact hfloor
      · rw [← natCast_floor_add_one_eq_round h0 (not_lt.mp (mt hiff.mpr hcmp))]
        apply holds_floor_add_one hfloor
        rw [Nat.floor_lt h0]
        exact_mod_cast hx
    · rintro rfl
      simp
  · have hx := not_lt.mp (mt (h.abs.lt_iff holds_wholeFrom).mpr hlt)
    obtain ⟨k, rfl⟩ := exists_int_of_onGrid h.onGrid hx
    rw [halfAway_intCast]
    exact h

end Identicon.Binary64
