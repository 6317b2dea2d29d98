import Identicon.Proofs.Binary64.Whole

/-!
# Infinities and overflow

Beside the finite doubles there are a NaN and two infinities. A result that is rounded to `2 ^ 1024`
or more has no room and becomes the infinity of its sign. Infinities compare with finite doubles as
results that large do, so that a product compares with a finite double as its rounded value does,
whether it overflows or not (`Holds.mul_lt_iff`).

A fraction can be dropped from any double, as NaN and the infinities have none and stay what they
are: dropping it does not change the integer that the double is converted to, nor whether it lies
below a positive whole number.
-/

namespace Identicon.Binary64

open Float.Model (UnpackedFloat)
open Float.Model.UnpackedFloat (Sign)

variable {q r x y : ℚ} {u : UnpackedFloat} {a b c z : Float}

/-! ## Kinds of doubles -/

theorem eq_nan_or_infinite_or_isFinite (z : Float) :
    z = Float.nan ∨ z = Float.inf ∨ z = -Float.inf ∨ z.isFinite = true := by
  cases hz : z.toModel.unpack with
  | notANumber => exact .inl (eq_of_unpack_eq hz)
  | infinity s =>
    cases s with
    | positive => exact .inr (.inl (eq_of_unpack_eq hz))
    | negative => exact .inr (.inr (.inl (eq_of_unpack_eq hz)))
  | zero | finite =>
    right; right; right
    show z.toModel.unpack.isFinite = true
    rw [hz]
    rfl

/-- A factor of one keeps every double, the sign of a zero included. -/
theorem floatOne_mul (z : Float) : 1 * z = z := by
  rcases eq_nan_or_infinite_or_isFinite z with rfl | rfl | rfl | hz
  · rfl
  · rfl
  · rfl
  · have h := holds_toRat hz
    by_cases h0 : toRat z = 0
    · -- the sign is all that is left to know
      rw [h0] at h
      cases hsign : isSigned z with
      | false =>
        rw [h.eq holds_zero hsign]
        rfl
      | true =>
        have hneg : Holds (-0) 0 := by simpa using holds_zero.neg
        rw [h.eq hneg hsign]
        rfl
    · have hround : nearest (1 * toRat z) = toRat z := by
        rw [one_mul, nearest_of_onGrid h.onGrid]
      have hmul := holds_one.mul h (by rw [hround]; exact h.abs_lt)
      rw [hround] at hmul
      exact hmul.eq_of_ne_zero h h0

theorem unpack_inf : Float.inf.toModel.unpack = .infinity .positive := rfl

theorem unpack_neg_inf : (-Float.inf).toModel.unpack = .infinity .negative := rfl

/-- An infinity lies beyond all finite doubles. -/
theorem compare_infinity (h : c.isFinite = true) (s : Sign) :
    (UnpackedFloat.infinity s).compare c.toModel.unpack = some (compare (s.apply 1) 0) := by
  have hfin : c.toModel.unpack.isFinite = true := h
  cases hc : c.toModel.unpack with
  | notANumber | infinity => simp [hc, UnpackedFloat.isFinite] at hfin
  | zero | finite => cases s <;> rfl

theorem not_nan_lt (c : Float) : ¬ Float.nan < c := by
  rw [lt_eq_compare]
  exact nofun

theorem not_nan_le (c : Float) : ¬ Float.nan ≤ c := by
  rw [le_eq_compare]
  exact nofun

theorem not_le_nan (c : Float) : ¬ c ≤ Float.nan := by
  rw [le_eq_compare]
  show ¬ (c.toModel.unpack.compare .notANumber = some .lt ∨
    c.toModel.unpack.compare .notANumber = some .eq)
  cases c.toModel.unpack <;> exact nofun

theorem not_inf_lt (h : c.isFinite = true) : ¬ Float.inf < c := by
  rw [lt_eq_compare, unpack_inf, compare_infinity h]
  decide

theorem not_inf_le (h : c.isFinite = true) : ¬ Float.inf ≤ c := by
  rw [le_eq_compare, unpack_inf, compare_infinity h]
  decide

theorem neg_inf_lt (h : c.isFinite = true) : -Float.inf < c := by
  rw [lt_eq_compare, unpack_neg_inf, compare_infinity h]
  rfl

/-- What is at least a finite double is not less than it. It can be infinity. -/
theorem not_lt_of_finite_le (hc : c.isFinite = true) (h : c ≤ z) : ¬ z < c := by
  rcases eq_nan_or_infinite_or_isFinite z with rfl | rfl | rfl | hz
  · exact not_nan_lt c
  · exact not_inf_lt hc
  · have hfin : c.toModel.unpack.isFinite = true := hc
    rw [le_eq_compare, unpack_neg_inf] at h
    cases hc' : c.toModel.unpack <;> simp_all [UnpackedFloat.compare, UnpackedFloat.isFinite]
  · rw [le_iff_toRat_le hc hz] at h
    rw [lt_iff_toRat_lt hz hc]
    exact not_lt.mpr h

theorem not_le_neg_inf (h : c.isFinite = true) : ¬ c ≤ -Float.inf :=
  fun hle => not_lt_of_finite_le h hle (neg_inf_lt h)

/-- Of two doubles in order each is a number, unless it is the infinity on its own side. -/
theorem infinite_or_isFinite_of_le (h : a ≤ b) :
    a = -Float.inf ∨ b = Float.inf ∨ a.isFinite = true ∧ b.isFinite = true := by
  rcases eq_nan_or_infinite_or_isFinite a with rfl | rfl | rfl | ha
  · exact absurd h (not_nan_le b)
  · rcases eq_nan_or_infinite_or_isFinite b with rfl | rfl | rfl | hb
    · exact absurd h (not_le_nan _)
    · exact .inr (.inl rfl)
    · exact absurd h (by decide)
    · exact absurd h (not_inf_le hb)
  · exact .inl rfl
  · rcases eq_nan_or_infinite_or_isFinite b with rfl | rfl | rfl | hb
    · exact absurd h (not_le_nan a)
    · exact .inr (.inl rfl)
    · exact absurd h (not_le_neg_inf ha)
    · exact .inr (.inr ⟨ha, hb⟩)

/-! ## Overflow -/

/-- Without room for its exponent, a rounded result becomes an infinity. -/
theorem ofModel_pack_eq_inf (h : Rounds q u) (hq : 2 ^ 1024 ≤ nearest q) :
    Float.ofModel (.pack u) = Float.inf := by
  obtain ⟨s, p, hround, rfl⟩ := h
  have hpos : 0 < signed s (nearest p) := by
    rw [← nearest_signed]
    exact (pow_pos two_pos 1024).trans_le hq
  cases u with
  | zero s' =>
    obtain ⟨rfl, hzero⟩ := hround
    rw [hzero] at hpos
    cases s' <;> simp [signed] at hpos
  | finite s' m e hm =>
    obtain ⟨rfl, hhi, -, -, hval⟩ := hround
    rw [← hval] at hpos
    have hmag := natCast_mul_two_zpow_pos (e := e) hm
    cases s' with
    | negative => exact absurd hpos (by rw [signed]; linarith)
    | positive =>
      -- 53 digits with an exponent of at most 971 stay below the end of the range
      have hlarge : 971 < e := by
        by_contra! he
        have hm' : (m : ℚ) < 2 ^ (53 : ℤ) := by exact_mod_cast hhi
        have hlt : (m : ℚ) * 2 ^ e < 2 ^ 1024 :=
          calc (m : ℚ) * 2 ^ e < 2 ^ (53 : ℤ) * 2 ^ e :=
                mul_lt_mul_of_pos_right hm' (two_zpow_pos e)
            _ = 2 ^ (53 + e) := (two_zpow_add 53 e).symm
            _ ≤ 2 ^ (1024 : ℤ) := two_zpow_le (by omega)
            _ = 2 ^ 1024 := zpow_ofNat 2 1024
        rw [nearest_signed, ← hval] at hq
        exact absurd hq (not_le.mpr hlt)
      apply eq_of_unpack_eq
      exact unpack_pack_large .positive hlarge hm
  | notANumber | infinity => exact hround.elim

theorem Holds.mul_eq_inf (ha : Holds a x) (hb : Holds b y) (h : 2 ^ 1024 ≤ nearest (x * y)) :
    a * b = Float.inf := by
  have hround := rounds_mul (canonical_toModel a) (canonical_toModel b) ha.isFinite hb.isFinite
  rw [← ha.toRat_eq, ← hb.toRat_eq] at h
  exact ofModel_pack_eq_inf hround h

theorem Holds.mul_eq_neg_inf (ha : Holds a x) (hb : Holds b y)
    (h : nearest (x * y) ≤ -2 ^ 1024) : a * b = -Float.inf := by
  have hneg : -a * b = Float.inf := by
    apply ha.neg.mul_eq_inf hb
    rw [neg_mul, nearest_neg]
    exact le_neg_of_le_neg h
  rw [floatNeg_mul] at hneg
  rw [← hneg, floatNeg_neg]

/-- A product compares with a finite double as its rounded value does. -/
theorem Holds.mul_lt_iff (ha : Holds a x) (hb : Holds b y) (hc : Holds c r) :
    a * b < c ↔ nearest (x * y) < r := by
  have hlo := neg_lt_of_abs_lt hc.abs_lt
  have hhi := lt_of_abs_lt hc.abs_lt
  -- without overflow the product holds its rounded value, and with it an infinity takes its place
  rcases lt_or_ge |nearest (x * y)| (2 ^ 1024) with hlt | hge
  · exact (ha.mul hb hlt).lt_iff hc
  · rcases le_abs.mp hge with hpos | hneg
    · rw [ha.mul_eq_inf hb hpos]
      exact iff_of_false (not_inf_lt hc.isFinite) (not_lt.mpr (hhi.le.trans hpos))
    · have hle := le_neg_of_le_neg hneg
      rw [ha.mul_eq_neg_inf hb hle]
      exact iff_of_true (neg_inf_lt hc.isFinite) (hle.trans_lt hlo)

/-! ## Conversions -/

/-- Only a finite double is rounded to a finite one. -/
theorem isFinite_of_isFinite_roundHalfAway (h : (roundHalfAway z).isFinite = true) :
    z.isFinite = true := by
  rcases eq_nan_or_infinite_or_isFinite z with rfl | rfl | rfl | hz
  · exact absurd h (by decide)
  · exact absurd h (by decide)
  · exact absurd h (by decide)
  · exact hz

/-- A dropped fraction is not missed when the whole part is asked for. -/
theorem toInt_trunc (z : Float) : toInt (trunc z) = toInt z := by
  rcases eq_nan_or_infinite_or_isFinite z with rfl | rfl | rfl | hz
  · decide
  · decide
  · decide
  · rw [(holds_toRat hz).trunc.toInt_eq, (holds_toRat hz).toInt_eq, truncate_intCast]

theorem isSigned_toFloat_uint64 (n : UInt64) : isSigned n.toFloat = false := by
  have h := holds_toFloat_nearest n
  by_cases h0 : n.toNat = 0
  · rw [UInt64.toNat_inj.mp (h0.trans UInt64.toNat_zero.symm)]
    rfl
  · have hpos : 0 < nearest n.toNat := by
      have hone : (1 : ℚ) ≤ n.toNat := by exact_mod_cast Nat.one_le_iff_ne_zero.mpr h0
      exact zero_lt_one.trans_le (le_nearest holds_one.onGrid hone)
    rw [h.isSigned_eq hpos.ne', decide_eq_false hpos.not_gt]

theorem isSigned_withSignOf (ha : a.isFinite = true) (hsign : isSigned a = false) (z : Float) :
    isSigned (withSignOf z a) = isSigned z := by
  rw [withSignOf]
  split_ifs with h
  · rw [isSigned_neg ha, hsign, h]
    rfl
  · rw [hsign, Bool.eq_false_iff.mpr h]

theorem isSigned_trunc (z : Float) : isSigned (trunc z) = isSigned z := by
  rw [trunc]
  split_ifs
  · exact isSigned_withSignOf (holds_toFloat_nearest _).isFinite (isSigned_toFloat_uint64 _) z
  · rfl

/-- There is no fraction to be dropped for a second time. -/
theorem trunc_trunc (z : Float) : trunc (trunc z) = trunc z := by
  rcases eq_nan_or_infinite_or_isFinite z with rfl | rfl | rfl | hz
  · rfl
  · rfl
  · rfl
  · have htrunc := (holds_toRat hz).trunc
    have htwice := htrunc.trunc
    rw [truncate_intCast] at htwice
    exact htwice.eq htrunc (isSigned_trunc _)

theorem truncate_lt_iff {k : ℤ} (hk : 0 < k) (x : ℚ) : truncate x < k ↔ x < k := by
  rw [truncate]
  split_ifs with h0
  · exact Int.floor_lt
  · have hfloor : 0 ≤ ⌊-x⌋ := Int.floor_nonneg.mpr (by linarith)
    have hkq : (0 : ℚ) < k := by exact_mod_cast hk
    exact iff_of_true (by omega) (by linarith)

/-- Dropping a fraction does not lead past a positive whole number. -/
theorem trunc_lt_iff {k : ℤ} (hc : Holds c k) (hk : 0 < k) (z : Float) : trunc z < c ↔ z < c := by
  rcases eq_nan_or_infinite_or_isFinite z with rfl | rfl | rfl | hz
  · rfl
  · rfl
  · rfl
  · rw [(holds_toRat hz).trunc.lt_iff hc, (holds_toRat hz).lt_iff hc, Int.cast_lt]
    exact truncate_lt_iff hk _

end Identicon.Binary64
