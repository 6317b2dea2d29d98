import Identicon.Proofs.Binary64.Rounding

/-!
# Arithmetic on doubles

Sum, difference, product and quotient of finite doubles are the exact results, rounded to the
nearest double. `Holds z x` says that a double is finite and stands for the number `x`, so that a
computation is followed by composing `Holds.add`, `Holds.sub`, `Holds.mul` and `Holds.div`; each
asks only that the rounded result stays below `2 ^ 1024`.

Signs are treated apart, since the number does not tell the two zeros apart: `floatNeg_mul`,
`floatMul_neg` and `floatNeg_div` take a sign out of an operation bit for bit, for infinities and
NaN as well.
-/

namespace Identicon.Binary64

open Float.Model (UnpackedFloat Format totalExponent)
open Float.Model.UnpackedFloat (Sign Accuracy ExtendedMantissa decreaseExponent divCore
  accuracyOfFraction roundWithAccuracy)

variable {s s' : Sign} {q x y : ℚ} {u v : UnpackedFloat} {m m' : ℕ} {e e' t : ℤ} {a b z : Float}

/-! ## Outcomes of an operation -/

/-- A number with a sign put in front. -/
def signed (s : Sign) (q : ℚ) : ℚ :=
  match s with
  | .negative => -q
  | .positive => q

/-- An unpacked double to which `q` is rounded, before its exponent is checked against the largest
there is. -/
def Rounds (q : ℚ) (u : UnpackedFloat) : Prop :=
  ∃ s p, IsRounding s p u ∧ signed s p = q

theorem rational_finite (hm : 0 < m) : rational (.finite s m e hm) = signed s (m * 2 ^ e) := by
  cases s
  · exact rational_negative hm
  · exact rational_positive hm

theorem nearest_signed (s : Sign) (q : ℚ) : nearest (signed s q) = signed s (nearest q) := by
  cases s
  · exact nearest_neg q
  · rfl

theorem abs_signed (s : Sign) (q : ℚ) : |signed s q| = |q| := by
  cases s
  · exact abs_neg q
  · rfl

theorem signed_mul (s s' : Sign) (x y : ℚ) :
    signed (s * s') (x * y) = signed s x * signed s' y := by
  cases s <;> cases s'
  · exact (neg_mul_neg x y).symm
  · exact (neg_mul x y).symm
  · exact (mul_neg x y).symm
  · rfl

theorem signed_div (s s' : Sign) (x y : ℚ) :
    signed (s / s') (x / y) = signed s x / signed s' y := by
  cases s <;> cases s'
  · exact (neg_div_neg_eq x y).symm
  · exact (neg_div y x).symm
  · exact (div_neg x).symm
  · rfl

/-- The grid has the canonical magnitudes. -/
theorem onGrid_of_canonical (h : Canonical u) : OnGrid (rational u) := by
  cases u with
  | finite s m e hm =>
    have hgrid : OnGrid ((m : ℚ) * 2 ^ e) :=
      ⟨m, e, by rw [Nat.abs_cast]; exact_mod_cast h.1.le, h.2.1, by push_cast; rfl⟩
    rw [rational_finite]
    cases s
    · exact hgrid.neg
    · exact hgrid
  | _ => exact onGrid_zero

theorem rational_of_isRounding (h : IsRounding s q u) : rational u = signed s (nearest q) := by
  cases u with
  | zero s' =>
    rw [h.2]
    cases s <;> simp [signed]
  | finite s' m e hm =>
    obtain ⟨rfl, -, -, -, hval⟩ := h
    rw [rational_finite, hval]
  | notANumber | infinity => exact h.elim

theorem isFinite_of_isRounding (h : IsRounding s q u) : u.isFinite = true := by
  cases u with
  | zero | finite => rfl
  | notANumber | infinity => exact h.elim

theorem canonical_of_isRounding (h : IsRounding s q u) (hq : nearest q < 2 ^ 1024) :
    Canonical u := by
  cases u with
  | finite s' m e hm =>
    obtain ⟨-, hhi, he, hlo, hval⟩ := h
    refine ⟨hhi, he, ?_, hlo⟩
    by_contra! hlarge
    have hm' : (2 : ℚ) ^ (52 : ℤ) ≤ m := by exact_mod_cast hlo.resolve_right (by omega)
    have : (2 : ℚ) ^ (1024 : ℤ) ≤ m * 2 ^ e :=
      calc (2 : ℚ) ^ (1024 : ℤ) ≤ 2 ^ (52 + e) := two_zpow_le (by omega)
        _ = 2 ^ (52 : ℤ) * 2 ^ e := two_zpow_add 52 e
        _ ≤ m * 2 ^ e := mul_le_mul_of_nonneg_right hm' (two_zpow_pos e).le
    rw [hval] at this
    exact absurd hq (not_lt.mpr (by exact_mod_cast this))
  | _ => trivial

/-- A canonical double is what its number is rounded to. -/
theorem rounds_rational (h : Canonical u) (hfin : u.isFinite = true) : Rounds (rational u) u := by
  cases u with
  | zero s => exact ⟨s, 0, ⟨rfl, nearest_zero⟩, by cases s <;> simp [signed]⟩
  | finite s m e hm =>
    refine ⟨s, m * 2 ^ e, ⟨rfl, h.1, h.2.1, h.2.2.2, ?_⟩, (rational_finite hm).symm⟩
    have hgrid : OnGrid (rational (.finite .positive m e hm)) := onGrid_of_canonical h
    rw [rational_positive] at hgrid
    exact (nearest_of_onGrid hgrid).symm
  | notANumber | infinity => simp [UnpackedFloat.isFinite] at hfin

/-! ## The operations on unpacked doubles -/

theorem rounds_normalize (k e : ℤ) (s : Sign) :
    Rounds (k * 2 ^ e) (UnpackedFloat.normalize .binary64 k e s) := by
  rw [UnpackedFloat.normalize]
  rcases lt_trichotomy k 0 with hk | rfl | hk
  · rw [Int.compare_eq_lt.mpr hk]
    refine ⟨.negative, _, isRounding_round .negative (by omega) e, ?_⟩
    have hcast : (((-k).toNat : ℤ) : ℚ) = -k := by
      rw [Int.toNat_of_nonneg (by omega), Int.cast_neg]
    rw [← Int.cast_natCast, hcast]
    simp [signed]
  · exact ⟨s, 0, ⟨rfl, nearest_zero⟩, by cases s <;> simp [signed]⟩
  · rw [Int.compare_eq_gt.mpr hk]
    refine ⟨.positive, _, isRounding_round .positive (by omega) e, ?_⟩
    have hcast : ((k.toNat : ℤ) : ℚ) = k := by rw [Int.toNat_of_nonneg hk.le]
    rw [← Int.cast_natCast, hcast]
    rfl

/-- Bringing an exponent down keeps the number. -/
theorem decreaseExponent_mul (s : Sign) (m : ℕ) (h : t ≤ e) :
    (s.apply (decreaseExponent m e t).1 : ℚ) * 2 ^ t = signed s (m * 2 ^ e) := by
  obtain ⟨n, rfl⟩ : ∃ n : ℕ, e = t + n := ⟨(e - t).toNat, by omega⟩
  have hn : (t + n - t).toNat = n := by omega
  have hmag : ((m <<< n : ℕ) : ℚ) * 2 ^ t = m * 2 ^ (t + n : ℤ) := by
    rw [Nat.shiftLeft_eq, two_zpow_add, zpow_natCast]
    push_cast
    ring
  simp only [decreaseExponent, hn]
  cases s with
  | negative =>
    rw [Sign.apply, Int.cast_neg, Int.cast_natCast, neg_mul, hmag]
    rfl
  | positive =>
    rw [Sign.apply, Int.cast_natCast, hmag]
    rfl

theorem rounds_add (hu : Canonical u) (hv : Canonical v) (fu : u.isFinite = true)
    (fv : v.isFinite = true) :
    Rounds (rational u + rational v) (UnpackedFloat.add .binary64 u v) := by
  cases u with
  | notANumber | infinity => simp [UnpackedFloat.isFinite] at fu
  | zero s =>
    cases v with
    | notANumber | infinity => simp [UnpackedFloat.isFinite] at fv
    | zero s' =>
      rw [rational_zero, rational_zero, add_zero, UnpackedFloat.add]
      split_ifs
      · exact rounds_rational (u := .zero s) trivial rfl
      · exact rounds_rational (u := .zero .positive) trivial rfl
    | finite s' m' e' hm' =>
      rw [rational_zero, zero_add]
      exact rounds_rational hv rfl
  | finite s m e hm =>
    cases v with
    | notANumber | infinity => simp [UnpackedFloat.isFinite] at fv
    | zero s' =>
      rw [rational_zero, add_zero]
      exact rounds_rational hu rfl
    | finite s' m' e' hm' =>
      have h := rounds_normalize (s.apply (decreaseExponent m e (min e e')).1 +
        s'.apply (decreaseExponent m' e' (min e e')).1) (min e e') .positive
      rw [Int.cast_add, add_mul, decreaseExponent_mul s m (min_le_left e e'),
        decreaseExponent_mul s' m' (min_le_right e e'), ← rational_finite hm,
        ← rational_finite hm'] at h
      exact h

/-- Subtracting is adding with the sign turned. -/
theorem unpackedSub_eq_add_neg (u v : UnpackedFloat) :
    UnpackedFloat.sub .binary64 u v = UnpackedFloat.add .binary64 u v.neg := by
  have happly : ∀ (s : Sign) (k l : ℤ), k - s.apply l = k + (-s).apply l := by
    intro s k l
    cases s
    · exact sub_neg_eq_add k l
    · exact Int.sub_eq_add_neg
  cases u <;> cases v <;> simp only [UnpackedFloat.sub, UnpackedFloat.add, UnpackedFloat.neg, happly]

/-- The product of two mantissas is at a scale fine enough for rounding: a mantissa that is not full
has the least exponent there is. -/
theorem add_le_ulpExponent_mul (hm : 0 < m) (hm' : 0 < m') (h : 2 ^ 52 ≤ m ∨ e = -1074)
    (h' : 2 ^ 52 ≤ m' ∨ e' = -1074) : e + e' ≤ ulpExponent ((m * m' : ℕ) * 2 ^ (e + e')) := by
  by_cases hfull : 2 ^ 52 ≤ m * m'
  · apply le_ulpExponent
    rw [add_comm, two_zpow_add]
    exact mul_le_mul_of_nonneg_right (by exact_mod_cast hfull) (two_zpow_pos _).le
  · have hm52 : ¬ 2 ^ 52 ≤ m := fun hle => hfull (hle.trans (Nat.le_mul_of_pos_right m hm'))
    have hm52' : ¬ 2 ^ 52 ≤ m' := fun hle => hfull (hle.trans (Nat.le_mul_of_pos_left m' hm))
    have := h.resolve_left hm52
    have := h'.resolve_left hm52'
    exact le_trans (by omega) (neg_1074_le_ulpExponent _)

theorem rounds_mul (hu : Canonical u) (hv : Canonical v) (fu : u.isFinite = true)
    (fv : v.isFinite = true) :
    Rounds (rational u * rational v) (UnpackedFloat.mul .binary64 u v) := by
  cases u with
  | notANumber | infinity => simp [UnpackedFloat.isFinite] at fu
  | zero s =>
    cases v with
    | notANumber | infinity => simp [UnpackedFloat.isFinite] at fv
    | zero s' | finite s' =>
      rw [rational_zero, zero_mul]
      exact rounds_rational (u := .zero (s * s')) trivial rfl
  | finite s m e hm =>
    cases v with
    | notANumber | infinity => simp [UnpackedFloat.isFinite] at fv
    | zero s' =>
      rw [rational_zero, mul_zero]
      exact rounds_rational (u := .zero (s * s')) trivial rfl
    | finite s' m' e' hm' =>
      have hpos : (0 : ℚ) < (m * m' : ℕ) * 2 ^ (e + e') :=
        natCast_mul_two_zpow_pos (Nat.mul_pos hm hm')
      refine ⟨s * s', (m * m' : ℕ) * 2 ^ (e + e'), ?_, ?_⟩
      · apply isRounding_roundWithAccuracy (s * s') hpos
          (add_le_ulpExponent_mul hm hm' hu.2.2.2 hv.2.2.2)
        rw [mul_div_cancel_right₀ _ (two_zpow_pos _).ne']
        exact represents_exact (m * m')
      · rw [rational_finite, rational_finite, ← signed_mul, two_zpow_add]
        push_cast
        congr 1
        ring

/-- The note that division leaves on what the quotient misses is right. -/
theorem represents_div (k : ℕ) (hm' : 0 < m') :
    Represents (.ofMantissaAndAccuracy (k / m') (accuracyOfFraction (k % m') m')) (k / m' : ℚ) := by
  have hpos : (0 : ℚ) < m' := Nat.cast_pos.mpr hm'
  have hfloor : ⌊(k : ℚ) / m'⌋ = (k / m' : ℕ) := Rat.floor_natCast_div_natCast k m'
  have hfract : Int.fract ((k : ℚ) / m') = ((k % m' : ℕ) : ℚ) / m' := by
    have hk : (k : ℚ) = m' * (k / m' : ℕ) + (k % m' : ℕ) := by
      exact_mod_cast (Nat.div_add_mod k m').symm
    rw [Int.fract, hfloor, Int.cast_natCast, sub_eq_iff_eq_add, div_eq_iff hpos.ne', add_mul,
      div_mul_cancel₀ _ hpos.ne']
    linarith
  have hhalf : ∀ r : ℕ, (1 / 2 : ℚ) ≤ (r : ℚ) / m' ↔ m' ≤ 2 * r := by
    intro r
    rw [le_div_iff₀ hpos, ← Nat.cast_le (α := ℚ)]
    push_cast
    constructor <;> intro h <;> linarith
  have htie : ∀ r : ℕ, (r : ℚ) / m' = 1 / 2 ↔ 2 * r = m' := by
    intro r
    rw [div_eq_iff hpos.ne', ← Nat.cast_inj (R := ℚ)]
    push_cast
    constructor <;> intro h <;> linarith
  rw [accuracyOfFraction]
  split_ifs with h0
  · refine ⟨hfloor, ?_, ?_⟩ <;> rw [hfract, h0] <;> simp [ExtendedMantissa.ofMantissaAndAccuracy]
  · have hne : ((k % m' : ℕ) : ℚ) / m' ≠ 0 := div_ne_zero (Nat.cast_ne_zero.mpr h0) hpos.ne'
    rcases lt_trichotomy (2 * (k % m')) m' with hlt | heq | hgt
    · rw [compare_lt_iff_lt.mpr hlt]
      refine ⟨hfloor, ?_, ?_⟩ <;> rw [hfract]
      · exact iff_of_false Bool.false_ne_true (by rw [hhalf]; omega)
      · exact iff_of_true rfl ⟨hne, by rw [Ne, htie]; omega⟩
    · rw [compare_eq_iff_eq.mpr heq]
      refine ⟨hfloor, ?_, ?_⟩ <;> rw [hfract]
      · exact iff_of_true rfl (by rw [hhalf]; omega)
      · exact iff_of_false Bool.false_ne_true (by rw [Ne, Ne, htie]; omega)
    · rw [compare_gt_iff_gt.mpr hgt]
      refine ⟨hfloor, ?_, ?_⟩ <;> rw [hfract]
      · exact iff_of_true rfl (by rw [hhalf]; omega)
      · exact iff_of_true rfl ⟨hne, by rw [Ne, htie]; omega⟩

/-- The scale at which the quotient of two mantissas is taken is fine enough for rounding. -/
theorem targetExponent_le_ulpExponent_div (hm : 0 < m) (hm' : 0 < m') (e e' : ℤ) :
    Format.binary64.targetExponent (totalExponent m e - totalExponent m' e') ≤
      ulpExponent ((m : ℚ) * 2 ^ e / (m' * 2 ^ e')) := by
  have htarget : Format.binary64.targetExponent (totalExponent m e - totalExponent m' e') =
      max ((m.log2 : ℤ) + e - (m'.log2 + e' + 1) - 52) (-1074) := by
    show max ((m.log2 : ℤ) + 1 + e - (m'.log2 + 1 + e') - (53 : ℕ)) (3 - 2 ^ 10 - (53 : ℕ)) = _
    congr 1
    omega
  rw [htarget]
  refine max_le (le_ulpExponent ?_) (neg_1074_le_ulpExponent _)
  have hlo : (2 : ℚ) ^ (m.log2 : ℤ) ≤ m := by exact_mod_cast Nat.log2_self_le hm.ne'
  have hhi : (m' : ℚ) ≤ 2 ^ (m'.log2 + 1 : ℤ) := by
    exact_mod_cast (Nat.lt_log2_self : m' < _).le
  rw [le_div_iff₀ (natCast_mul_two_zpow_pos hm')]
  calc (2 : ℚ) ^ ((m.log2 : ℤ) + e - (m'.log2 + e' + 1) - 52 + 52) * (m' * 2 ^ e')
      ≤ 2 ^ ((m.log2 : ℤ) + e - (m'.log2 + e' + 1) - 52 + 52) *
          (2 ^ (m'.log2 + 1 : ℤ) * 2 ^ e') :=
        mul_le_mul_of_nonneg_left (mul_le_mul_of_nonneg_right hhi (two_zpow_pos _).le)
          (two_zpow_pos _).le
    _ = 2 ^ (m.log2 : ℤ) * 2 ^ e := by
        rw [← two_zpow_add, ← two_zpow_add, ← two_zpow_add]
        congr 1
        ring
    _ ≤ m * 2 ^ e := mul_le_mul_of_nonneg_right hlo (two_zpow_pos e).le

/-- A quotient is rounded with the sign that the operands give it. -/
theorem isRounding_div (s s' : Sign) (hm : 0 < m) (hm' : 0 < m') (e e' : ℤ) :
    IsRounding (s / s') (m * 2 ^ e / (m' * 2 ^ e'))
      (UnpackedFloat.div .binary64 (.finite s m e hm) (.finite s' m' e' hm')) := by
  have hpos : (0 : ℚ) < m * 2 ^ e / (m' * 2 ^ e') :=
    div_pos (natCast_mul_two_zpow_pos hm) (natCast_mul_two_zpow_pos hm')
  -- `n` zeros are appended to the dividend, which takes the quotient to the exponent `t`
  simp only [UnpackedFloat.div, divCore]
  generalize ht : min (e - e')
    (Format.binary64.targetExponent (totalExponent m e - totalExponent m' e')) = t
  generalize hn : (e - e' - t).toNat = n
  have hle : t ≤ ulpExponent ((m : ℚ) * 2 ^ e / (m' * 2 ^ e')) := by
    rw [← ht]
    exact (min_le_right _ _).trans (targetExponent_le_ulpExponent_div hm hm' e e')
  apply isRounding_roundWithAccuracy (s / s') hpos hle
  have hscale : (m : ℚ) * 2 ^ e / (m' * 2 ^ e') / 2 ^ t = (m <<< n : ℕ) / m' := by
    have he : e = t + e' + n := by omega
    have := two_zpow_pos e'
    have := two_zpow_pos t
    rw [Nat.shiftLeft_eq, he, two_zpow_add, two_zpow_add, zpow_natCast]
    push_cast
    field_simp
  rw [hscale]
  exact represents_div (m <<< n) hm'

theorem rounds_div (fu : u.isFinite = true) (fv : v.isFinite = true) (h0 : rational v ≠ 0) :
    Rounds (rational u / rational v) (UnpackedFloat.div .binary64 u v) := by
  cases v with
  | notANumber | infinity => simp [UnpackedFloat.isFinite] at fv
  | zero s' => exact absurd (rational_zero s') h0
  | finite s' m' e' hm' =>
    cases u with
    | notANumber | infinity => simp [UnpackedFloat.isFinite] at fu
    | zero s =>
      rw [rational_zero, zero_div]
      exact rounds_rational (u := .zero (s / s')) trivial rfl
    | finite s m e hm =>
      refine ⟨s / s', m * 2 ^ e / (m' * 2 ^ e'), isRounding_div s s' hm hm' e e', ?_⟩
      rw [rational_finite, rational_finite, ← signed_div]

/-! ## The operations on doubles -/

/-- The double is finite and stands for this number. -/
structure Holds (z : Float) (x : ℚ) : Prop where
  isFinite : z.isFinite = true
  toRat_eq : toRat z = x

theorem holds_toRat (h : z.isFinite = true) : Holds z (toRat z) := ⟨h, rfl⟩

/-- A double that holds a number is determined by its sign. -/
theorem Holds.eq (ha : Holds a x) (hb : Holds b x) (hsign : isSigned a = isSigned b) : a = b :=
  eq_of_toRat_eq ha.isFinite hb.isFinite (ha.toRat_eq.trans hb.toRat_eq.symm) hsign

theorem Holds.lt_iff (ha : Holds a x) (hb : Holds b y) : a < b ↔ x < y := by
  rw [lt_iff_toRat_lt ha.isFinite hb.isFinite, ha.toRat_eq, hb.toRat_eq]

theorem Holds.le_iff (ha : Holds a x) (hb : Holds b y) : a ≤ b ↔ x ≤ y := by
  rw [le_iff_toRat_le ha.isFinite hb.isFinite, ha.toRat_eq, hb.toRat_eq]

theorem Holds.beq_iff (ha : Holds a x) (hb : Holds b y) : (a == b) = true ↔ x = y := by
  rw [beq_iff_toRat_eq ha.isFinite hb.isFinite, ha.toRat_eq, hb.toRat_eq]

theorem Holds.isSigned_eq (h : Holds z x) (h0 : x ≠ 0) : isSigned z = decide (x < 0) := by
  obtain ⟨hfin, rfl⟩ := h
  exact isSigned_eq_lt_zero hfin h0

theorem Holds.onGrid (h : Holds z x) : OnGrid x :=
  h.toRat_eq ▸ onGrid_of_canonical (canonical_toModel z)

theorem Holds.neg (h : Holds z x) : Holds (-z) (-x) :=
  ⟨(isFinite_neg z).trans h.isFinite, by rw [toRat_neg, h.toRat_eq]⟩

theorem Holds.abs (h : Holds z x) : Holds z.abs |x| :=
  ⟨(isFinite_abs z).trans h.isFinite, by rw [toRat_abs, h.toRat_eq]⟩

/-- No finite double is greater than the one with 53 digits 1 and the greatest exponent. -/
theorem Holds.abs_le_greatest {z : Float} {x : ℚ} (h : Holds z x) :
    |x| ≤ (2 ^ 53 - 1) * 2 ^ (971 : ℤ) := by
  obtain ⟨hfin, rfl⟩ := h
  replace hfin : z.toModel.unpack.isFinite = true := hfin
  have hcanonical := canonical_toModel z
  unfold toRat
  cases hz : z.toModel.unpack with
  | notANumber | infinity => simp [hz, UnpackedFloat.isFinite] at hfin
  | zero s =>
    rw [rational_zero, abs_zero]
    exact mul_nonneg (by norm_num) (two_zpow_pos 971).le
  | finite s m e hm =>
    rw [hz] at hcanonical
    obtain ⟨hhi, -, he, -⟩ := hcanonical
    have hm' : (m : ℚ) ≤ 2 ^ 53 - 1 := by
      rw [le_sub_iff_add_le]
      exact_mod_cast hhi
    rw [rational_finite, abs_signed, abs_of_pos (natCast_mul_two_zpow_pos hm)]
    exact mul_le_mul hm' (two_zpow_le he) (two_zpow_pos e).le (by norm_num)

theorem two_pow_1024_eq : (2 : ℚ) ^ 1024 = 2 ^ 53 * 2 ^ (971 : ℤ) := by
  rw [← zpow_natCast, ← zpow_natCast, ← two_zpow_add]
  rfl

/-- A finite double lies within the range. -/
theorem Holds.abs_lt {z : Float} {x : ℚ} (h : Holds z x) : |x| < 2 ^ 1024 := by
  rw [two_pow_1024_eq]
  exact h.abs_le_greatest.trans_lt (mul_lt_mul_of_pos_right (by norm_num) (two_zpow_pos 971))

/-- What an operation packs. -/
theorem unpack_ofModel_pack (h : IsRounding s q u) (hq : nearest q < 2 ^ 1024) :
    (Float.ofModel (.pack u)).toModel.unpack = u :=
  unpack_pack (canonical_of_isRounding h hq)

theorem holds_of_rounds (h : Rounds q u) (hq : |nearest q| < 2 ^ 1024) :
    Holds (Float.ofModel (.pack u)) (nearest q) := by
  obtain ⟨s, p, hround, rfl⟩ := h
  have hp : nearest p < 2 ^ 1024 := by
    rw [nearest_signed, abs_signed] at hq
    exact (le_abs_self _).trans_lt hq
  have hunpack := unpack_ofModel_pack hround hp
  refine ⟨?_, ?_⟩
  · show (Float.ofModel (.pack u)).toModel.unpack.isFinite = true
    rw [hunpack]
    exact isFinite_of_isRounding hround
  · rw [toRat, hunpack, rational_of_isRounding hround, nearest_signed]

/-- A bound on the exact result that leaves room for rounding. -/
theorem abs_nearest_lt (h : |q| ≤ 2 ^ 100) : |nearest q| < 2 ^ 1024 := by
  have hgrid : OnGrid (2 ^ 100) := onGrid_two_zpow (e := 100) (by norm_num)
  exact (abs_nearest_le hgrid h).trans_lt (pow_lt_pow_right₀ one_lt_two (by norm_num))

/-- What is small next to the greatest double does not lead past it, as the sum is rounded to
something no farther away than the double itself. -/
theorem Holds.abs_nearest_add_lt (ha : Holds a x) (hy : |y| ≤ 2 ^ 100) :
    |nearest (x + y)| < 2 ^ 1024 := by
  have hclose : |nearest (x + y) - (x + y)| ≤ |y| := by
    have hdist := abs_sub_nearest_le (x + y) ha.onGrid
    rwa [add_sub_cancel_left, abs_sub_comm] at hdist
  have hsmall : (2 : ℚ) ^ 101 < 2 ^ (971 : ℤ) := by
    rw [← zpow_natCast]
    exact zpow_lt_zpow_right₀ one_lt_two (by norm_num)
  have hx := ha.abs_le_greatest
  rw [two_pow_1024_eq]
  generalize (2 : ℚ) ^ (971 : ℤ) = unit at hx hsmall
  calc |nearest (x + y)| ≤ |x + y| + |nearest (x + y) - (x + y)| := by
        linarith [abs_sub_abs_le_abs_sub (nearest (x + y)) (x + y)]
    _ ≤ |x| + |y| + |y| := add_le_add (abs_add_le x y) hclose
    _ < 2 ^ 53 * unit := by linarith

theorem Holds.add (ha : Holds a x) (hb : Holds b y) (h : |nearest (x + y)| < 2 ^ 1024) :
    Holds (a + b) (nearest (x + y)) := by
  have hround := rounds_add (canonical_toModel a) (canonical_toModel b) ha.isFinite hb.isFinite
  rw [← ha.toRat_eq, ← hb.toRat_eq] at h ⊢
  exact holds_of_rounds hround h

theorem Holds.mul (ha : Holds a x) (hb : Holds b y) (h : |nearest (x * y)| < 2 ^ 1024) :
    Holds (a * b) (nearest (x * y)) := by
  have hround := rounds_mul (canonical_toModel a) (canonical_toModel b) ha.isFinite hb.isFinite
  rw [← ha.toRat_eq, ← hb.toRat_eq] at h ⊢
  exact holds_of_rounds hround h

theorem Holds.div (ha : Holds a x) (hb : Holds b y) (hy : y ≠ 0)
    (h : |nearest (x / y)| < 2 ^ 1024) : Holds (a / b) (nearest (x / y)) := by
  rw [← ha.toRat_eq, ← hb.toRat_eq] at h ⊢
  rw [← hb.toRat_eq] at hy
  exact holds_of_rounds (rounds_div ha.isFinite hb.isFinite hy) h

theorem floatSub_eq_add_neg (a b : Float) : a - b = a + -b := by
  show Float.ofModel (.pack (UnpackedFloat.sub .binary64 a.toModel.unpack b.toModel.unpack)) =
    Float.ofModel (.pack (UnpackedFloat.add .binary64 a.toModel.unpack (-b).toModel.unpack))
  rw [unpack_neg, unpackedSub_eq_add_neg]

theorem Holds.sub (ha : Holds a x) (hb : Holds b y) (h : |nearest (x - y)| < 2 ^ 1024) :
    Holds (a - b) (nearest (x - y)) := by
  rw [floatSub_eq_add_neg]
  rw [sub_eq_add_neg] at h ⊢
  exact ha.add hb.neg h

/-! ## Signs -/

theorem roundWithAccuracy_neg (s : Sign) (m : ℕ) (e : ℤ) (acc : Accuracy) :
    roundWithAccuracy .binary64 (-s) m e acc = (roundWithAccuracy .binary64 s m e acc).neg := by
  simp only [roundWithAccuracy]
  split_ifs <;> rfl

theorem unpackedNeg_mul (u v : UnpackedFloat) :
    UnpackedFloat.mul .binary64 u.neg v = (UnpackedFloat.mul .binary64 u v).neg := by
  have hsign : ∀ s s' : Sign, -s * s' = -(s * s') := by
    intro s s'
    cases s <;> cases s' <;> rfl
  cases u <;> cases v <;>
    simp only [UnpackedFloat.mul, UnpackedFloat.neg, hsign, roundWithAccuracy_neg]

theorem unpackedMul_comm (u v : UnpackedFloat) :
    UnpackedFloat.mul .binary64 u v = UnpackedFloat.mul .binary64 v u := by
  have hsign : ∀ s s' : Sign, s * s' = s' * s := by
    intro s s'
    cases s <;> cases s' <;> rfl
  cases u <;> cases v <;> simp only [UnpackedFloat.mul] <;> first
    | rw [hsign, Nat.mul_comm, Int.add_comm]
    | rw [hsign]

theorem unpackedNeg_div (u v : UnpackedFloat) :
    UnpackedFloat.div .binary64 u.neg v = (UnpackedFloat.div .binary64 u v).neg := by
  have hsign : ∀ s s' : Sign, -s / s' = -(s / s') := by
    intro s s'
    cases s <;> cases s' <;> rfl
  cases u <;> cases v <;>
    simp only [UnpackedFloat.div, UnpackedFloat.neg, hsign, roundWithAccuracy_neg]

theorem floatNeg_neg (z : Float) : - -z = z := by
  apply eq_of_unpack_eq
  rw [unpack_neg, unpack_neg]
  cases z.toModel.unpack with
  | notANumber => rfl
  | infinity s | zero s | finite s => cases s <;> rfl

/-- A sign can be taken out of the left factor. -/
theorem floatNeg_mul (a b : Float) : -a * b = -(a * b) := by
  apply eq_of_unpack_eq
  rw [unpack_neg]
  show UnpackedFloat.unpack .binary64 (UnpackedFloat.pack .binary64
    (UnpackedFloat.mul .binary64 (-a).toModel.unpack b.toModel.unpack)) = _
  rw [unpack_neg, unpackedNeg_mul, unpack_pack_neg]
  rfl

theorem floatMul_comm (a b : Float) : a * b = b * a := by
  show Float.ofModel (.pack (UnpackedFloat.mul .binary64 a.toModel.unpack b.toModel.unpack)) = _
  rw [unpackedMul_comm]
  rfl

/-- A sign can be taken out of the right factor. -/
theorem floatMul_neg (a b : Float) : a * -b = -(a * b) := by
  rw [floatMul_comm, floatNeg_mul, floatMul_comm]

/-- A sign can be taken out of the dividend. -/
theorem floatNeg_div (a b : Float) : -a / b = -(a / b) := by
  apply eq_of_unpack_eq
  rw [unpack_neg]
  show UnpackedFloat.unpack .binary64 (UnpackedFloat.pack .binary64
    (UnpackedFloat.div .binary64 (-a).toModel.unpack b.toModel.unpack)) = _
  rw [unpack_neg, unpackedNeg_div, unpack_pack_neg]
  rfl

/-- A double other than zero is determined by its number. -/
theorem Holds.eq_of_ne_zero (ha : Holds a x) (hb : Holds b x) (hx : x ≠ 0) : a = b := by
  apply ha.eq hb
  rw [isSigned_eq_lt_zero ha.isFinite (by rwa [ha.toRat_eq]),
    isSigned_eq_lt_zero hb.isFinite (by rwa [hb.toRat_eq]), ha.toRat_eq, hb.toRat_eq]

/-- The unpacked form of a positive double. -/
theorem Holds.exists_unpack_eq (h : Holds z x) (hx : 0 < x) :
    ∃ m e, ∃ hm : 0 < m, z.toModel.unpack = .finite .positive m e hm ∧ (m : ℚ) * 2 ^ e = x := by
  have hfin : z.toModel.unpack.isFinite = true := h.isFinite
  have hval : rational z.toModel.unpack = x := h.toRat_eq
  cases hu : z.toModel.unpack with
  | notANumber | infinity => simp [hu, UnpackedFloat.isFinite] at hfin
  | zero s =>
    rw [hu, rational_zero] at hval
    exact absurd hval hx.ne
  | finite s m e hm =>
    rw [hu] at hval
    cases s with
    | positive => exact ⟨m, e, hm, rfl, (rational_positive hm).symm.trans hval⟩
    | negative =>
      rw [rational_negative] at hval
      have hpos : (0 : ℚ) < m * 2 ^ e := natCast_mul_two_zpow_pos hm
      linarith

/-- A quotient of positive doubles has no sign, even where it is rounded to zero. -/
theorem Holds.isSigned_div (ha : Holds a x) (hb : Holds b y) (hx : 0 < x) (hy : 0 < y)
    (h : nearest (x / y) < 2 ^ 1024) : isSigned (a / b) = false := by
  obtain ⟨m, e, hm, hu, rfl⟩ := ha.exists_unpack_eq hx
  obtain ⟨m', e', hm', hv, rfl⟩ := hb.exists_unpack_eq hy
  have hround : IsRounding .positive (m * 2 ^ e / (m' * 2 ^ e'))
      (UnpackedFloat.div .binary64 a.toModel.unpack b.toModel.unpack) := by
    rw [hu, hv]
    exact isRounding_div .positive .positive hm hm' e e'
  have hunpack : (a / b).toModel.unpack =
      UnpackedFloat.div .binary64 a.toModel.unpack b.toModel.unpack :=
    unpack_ofModel_pack hround h
  rw [isSigned_eq_hasMinus, hunpack]
  generalize UnpackedFloat.div .binary64 a.toModel.unpack b.toModel.unpack = u at hround
  cases u with
  | notANumber | infinity => exact hround.elim
  | zero s =>
    rw [hround.1]
    rfl
  | finite s m e hm =>
    rw [hround.1]
    rfl

/-! ## Zeros -/

/-- What is left of a finite double when it is taken from itself has the positive sign. -/
theorem floatSub_self (h : z.isFinite = true) : z - z = 0 := by
  replace h : z.toModel.unpack.isFinite = true := h
  have hsub : UnpackedFloat.sub .binary64 z.toModel.unpack z.toModel.unpack = .zero .positive := by
    cases hz : z.toModel.unpack with
    | notANumber | infinity => simp [hz, UnpackedFloat.isFinite] at h
    | zero s => cases s <;> rfl
    | finite s m e hm => simp [UnpackedFloat.sub, UnpackedFloat.normalize]
  show Float.ofModel (.pack (UnpackedFloat.sub .binary64 z.toModel.unpack z.toModel.unpack)) = 0
  rw [hsub]
  rfl

/-- A positive divisor leaves a zero alone. -/
theorem floatZero_div (hz : Holds z x) (hx : 0 < x) : 0 / z = 0 := by
  obtain ⟨m, e, hm, hu, -⟩ := hz.exists_unpack_eq hx
  have hdiv : UnpackedFloat.div .binary64 (.zero .positive) z.toModel.unpack =
      .zero .positive := by
    rw [hu]
    rfl
  show Float.ofModel (.pack (UnpackedFloat.div .binary64 (.zero .positive) z.toModel.unpack)) = 0
  rw [hdiv]
  rfl

end Identicon.Binary64
