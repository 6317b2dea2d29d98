import Identicon.Binary64
import Identicon.Proofs.Binary64.Nearest
import Identicon.Proofs.Binary64.Unpacked

/-!
# The value of a double

A finite double is a rational number and a sign; the sign tells the two zeros apart and otherwise
follows from the number. `toRat` and `isSigned` read the two off, and `eq_of_toRat_eq` says that
nothing else is in a double. The comparisons are comparisons of `toRat`, and turning the sign turns
the number.
-/

namespace Identicon.Binary64

open Float.Model (UnpackedFloat)
open Float.Model.UnpackedFloat (Sign)

/-! ## Unpacked doubles -/

/-- The number that an unpacked double stands for. Infinities and NaN stand for none and get 0. -/
def rational : UnpackedFloat → ℚ
  | .finite s m e _ => (s.apply m : ℤ) * 2 ^ e
  | _ => 0

/-- Whether an unpacked double has the negative sign. -/
def hasMinus : UnpackedFloat → Bool
  | .infinity .negative | .zero .negative | .finite .negative .. => true
  | _ => false

variable {m m' : ℕ} {e e' : ℤ}

@[simp]
theorem rational_positive (hm : 0 < m) : rational (.finite .positive m e hm) = m * 2 ^ e := by
  simp [rational, Sign.apply]

@[simp]
theorem rational_negative (hm : 0 < m) : rational (.finite .negative m e hm) = -(m * 2 ^ e) := by
  simp [rational, Sign.apply]

@[simp]
theorem rational_zero (s : Sign) : rational (.zero s) = 0 := rfl

theorem natCast_mul_two_zpow_pos (hm : 0 < m) : (0 : ℚ) < m * 2 ^ e :=
  mul_pos (Nat.cast_pos.mpr hm) (two_zpow_pos e)

theorem rational_neg (u : UnpackedFloat) : rational u.neg = -rational u := by
  cases u with
  | finite s m e hm =>
    cases s with
    | negative => exact (rational_positive hm).trans (by rw [rational_negative, neg_neg])
    | positive => exact (rational_negative hm).trans (by rw [rational_positive])
  | _ => exact neg_zero.symm

theorem rational_abs (u : UnpackedFloat) : rational u.abs = |rational u| := by
  cases u with
  | finite s m e hm =>
    have hpos : (0 : ℚ) < m * 2 ^ e := natCast_mul_two_zpow_pos hm
    cases s <;> simp [UnpackedFloat.abs, abs_of_pos hpos]
  | _ => exact abs_zero.symm

/-- A larger exponent makes up for any mantissa. -/
theorem mul_two_zpow_lt_of_lt (hm : m < 2 ^ 53) (hm' : 2 ^ 52 ≤ m') (he : e < e') :
    (m : ℚ) * 2 ^ e < m' * 2 ^ e' := by
  have hlt : (m : ℚ) < 2 ^ 53 := by exact_mod_cast hm
  have hle : (2 : ℚ) ^ 52 ≤ m' := by exact_mod_cast hm'
  calc (m : ℚ) * 2 ^ e < 2 ^ 53 * 2 ^ e := mul_lt_mul_of_pos_right hlt (two_zpow_pos e)
    _ = 2 ^ 52 * 2 ^ (e + 1) := by rw [two_zpow_add]; ring
    _ ≤ 2 ^ 52 * 2 ^ e' := mul_le_mul_of_nonneg_left (two_zpow_le he) (by norm_num)
    _ ≤ m' * 2 ^ e' := mul_le_mul_of_nonneg_right hle (two_zpow_pos e').le

/-- The order of canonical magnitudes is the order of the exponents and, between equal exponents, of
the mantissas. -/
theorem compare_mul_two_zpow
    (h : m < 2 ^ 53 ∧ -1074 ≤ e ∧ e ≤ 971 ∧ (2 ^ 52 ≤ m ∨ e = -1074))
    (h' : m' < 2 ^ 53 ∧ -1074 ≤ e' ∧ e' ≤ 971 ∧ (2 ^ 52 ≤ m' ∨ e' = -1074)) :
    compare ((m : ℚ) * 2 ^ e) (m' * 2 ^ e') = (compare e e').then (compare m m') := by
  rcases lt_trichotomy e e' with hlt | rfl | hgt
  · rw [compare_lt_iff_lt.mpr hlt]
    exact compare_lt_iff_lt.mpr (mul_two_zpow_lt_of_lt h.1 (h'.2.2.2.resolve_right (by omega)) hlt)
  · have hp := two_zpow_pos e
    rw [compare_eq_iff_eq.mpr (rfl : e = e)]
    rcases lt_trichotomy m m' with hlt | rfl | hgt
    · rw [compare_lt_iff_lt.mpr hlt]
      exact compare_lt_iff_lt.mpr (mul_lt_mul_of_pos_right (by exact_mod_cast hlt) hp)
    · rw [compare_eq_iff_eq.mpr (rfl : m = m)]
      exact compare_eq_iff_eq.mpr rfl
    · rw [compare_gt_iff_gt.mpr hgt]
      exact compare_gt_iff_gt.mpr (mul_lt_mul_of_pos_right (by exact_mod_cast hgt) hp)
  · rw [compare_gt_iff_gt.mpr hgt]
    exact compare_gt_iff_gt.mpr (mul_two_zpow_lt_of_lt h'.1 (h.2.2.2.resolve_right (by omega)) hgt)

/-- Canonical forms of the same number with the same sign are the same. -/
theorem eq_of_rational_eq {u v : UnpackedFloat} (hu : Canonical u) (hv : Canonical v)
    (fu : u.isFinite = true) (fv : v.isFinite = true) (hval : rational u = rational v)
    (hsign : hasMinus u = hasMinus v) : u = v := by
  cases u with
  | notANumber | infinity => simp [UnpackedFloat.isFinite] at fu
  | zero s =>
    cases v with
    | notANumber | infinity => simp [UnpackedFloat.isFinite] at fv
    | zero s' => cases s <;> cases s' <;> simp_all [hasMinus]
    | finite s' m' e' hm' =>
      have hpos : (0 : ℚ) < m' * 2 ^ e' := natCast_mul_two_zpow_pos hm'
      cases s' <;> simp only [rational_zero, rational_positive, rational_negative] at hval <;>
        linarith
  | finite s m e hm =>
    have hpos : (0 : ℚ) < m * 2 ^ e := natCast_mul_two_zpow_pos hm
    cases v with
    | notANumber | infinity => simp [UnpackedFloat.isFinite] at fv
    | zero s' =>
      cases s <;> simp only [rational_zero, rational_positive, rational_negative] at hval <;>
        linarith
    | finite s' m' e' hm' =>
      obtain rfl : s = s' := by cases s <;> cases s' <;> simp_all [hasMinus]
      have hmag : (m : ℚ) * 2 ^ e = m' * 2 ^ e' := by
        cases s <;> simpa only [rational_positive, rational_negative, neg_inj] using hval
      have hcmp := compare_mul_two_zpow hu hv
      rw [compare_eq_iff_eq.mpr hmag, eq_comm, Ordering.then_eq_eq, compare_eq_iff_eq,
        compare_eq_iff_eq] at hcmp
      obtain ⟨rfl, rfl⟩ := hcmp
      rfl

private theorem compare_neg_neg (a b : ℚ) : compare (-a) (-b) = (compare a b).swap := by
  rcases lt_trichotomy a b with h | rfl | h
  · rw [compare_lt_iff_lt.mpr h]
    exact compare_gt_iff_gt.mpr (neg_lt_neg h)
  · rw [compare_eq_iff_eq.mpr (rfl : a = a)]
    exact compare_eq_iff_eq.mpr rfl
  · rw [compare_gt_iff_gt.mpr h]
    exact compare_lt_iff_lt.mpr (neg_lt_neg h)

/-- Comparing finite doubles compares their numbers. -/
theorem compare_eq_compare_rational {u v : UnpackedFloat} (hu : Canonical u) (hv : Canonical v)
    (fu : u.isFinite = true) (fv : v.isFinite = true) :
    u.compare v = some (compare (rational u) (rational v)) := by
  cases u with
  | notANumber | infinity => simp [UnpackedFloat.isFinite] at fu
  | zero s =>
    cases v with
    | notANumber | infinity => simp [UnpackedFloat.isFinite] at fv
    | zero s' => exact congrArg some (compare_eq_iff_eq.mpr rfl).symm
    | finite s' m' e' hm' =>
      have hpos : (0 : ℚ) < m' * 2 ^ e' := natCast_mul_two_zpow_pos hm'
      cases s' with
      | negative =>
        rw [rational_zero, rational_negative, compare_gt_iff_gt.mpr (neg_lt_zero.mpr hpos)]
        rfl
      | positive =>
        rw [rational_zero, rational_positive, compare_lt_iff_lt.mpr hpos]
        rfl
  | finite s m e hm =>
    have hpos : (0 : ℚ) < m * 2 ^ e := natCast_mul_two_zpow_pos hm
    cases v with
    | notANumber | infinity => simp [UnpackedFloat.isFinite] at fv
    | zero s' =>
      cases s with
      | negative =>
        rw [rational_zero, rational_negative, compare_lt_iff_lt.mpr (neg_lt_zero.mpr hpos)]
        rfl
      | positive =>
        rw [rational_zero, rational_positive, compare_gt_iff_gt.mpr hpos]
        rfl
    | finite s' m' e' hm' =>
      have hpos' : (0 : ℚ) < m' * 2 ^ e' := natCast_mul_two_zpow_pos hm'
      have hcmp := compare_mul_two_zpow hu hv
      cases s <;> cases s'
      · rw [rational_negative, rational_negative, compare_neg_neg, hcmp]
        rfl
      · rw [rational_negative, rational_positive,
          compare_lt_iff_lt.mpr ((neg_lt_zero.mpr hpos).trans hpos')]
        rfl
      · rw [rational_negative, rational_positive,
          compare_gt_iff_gt.mpr ((neg_lt_zero.mpr hpos').trans hpos)]
        rfl
      · rw [rational_positive, rational_positive, hcmp]
        rfl

/-! ## Doubles -/

/-- The number of a finite double. Infinities and NaN get 0. -/
def toRat (z : Float) : ℚ :=
  rational z.toModel.unpack

variable {a b z : Float}

theorem canonical_toModel (z : Float) : Canonical z.toModel.unpack := canonical_unpack _

/-- A double holds what its unpacked form holds. -/
theorem pack_unpack_toModel (z : Float) : Float.ofModel (.pack z.toModel.unpack) = z := by
  have h : UnpackedFloat.pack .binary64 z.toModel.unpack = z.toModel.toBits.toBitVec :=
    pack_unpack z.toModel.valid
  simp only [Float.Model.pack, h]

theorem eq_of_unpack_eq (h : a.toModel.unpack = b.toModel.unpack) : a = b := by
  rw [← pack_unpack_toModel a, h, pack_unpack_toModel]

/-- The sign bit of a double is the sign of its unpacked form. -/
theorem isSigned_eq_hasMinus (z : Float) : isSigned z = hasMinus z.toModel.unpack := by
  have hbit : isSigned z = decide (2 ^ 63 ≤ z.toModel.toBits.toBitVec.toNat) := by
    rw [isSigned, Bool.eq_iff_iff, beq_iff_eq, decide_eq_true_iff, ← UInt64.toNat_inj,
      UInt64.toNat_shiftRight]
    have hlt := z.toBits.toNat_lt
    show z.toBits.toNat >>> 63 = 1 ↔ 2 ^ 63 ≤ z.toBits.toNat
    omega
  obtain ⟨s, E, M, hE, hM, hword⟩ := exists_eq_wordOf z.toModel.toBits.toBitVec
  have hvalid := z.toModel.valid
  rw [hbit, Float.Model.unpack, hword, toNat_wordOf s hE hM, unpack_wordOf s hE hM]
  rw [hword] at hvalid
  cases s with
  | positive =>
    split_ifs <;> simp [hasMinus, Sign.toBitVec] <;> omega
  | negative =>
    split_ifs with h1 h2 h3 h4
    · simp [hasMinus, Sign.toBitVec]; omega
    · -- the word would be NaN, and NaN has the positive sign
      subst h1
      have hsign := unpackSign_wordOf .negative hE hM
      rw [wordOf_eq_packedNaN hvalid hM h2,
        show UnpackedFloat.packedNaN .binary64 = wordOf .positive 2047 (2 ^ 51) from rfl,
        unpackSign_wordOf .positive (by norm_num) (by norm_num)] at hsign
      cases hsign
    · simp [hasMinus, Sign.toBitVec]; omega
    · simp [hasMinus, Sign.toBitVec]; omega
    · simp [hasMinus, Sign.toBitVec]; omega

/-- Except for the zeros, the sign of a finite double follows from its number. -/
theorem isSigned_eq_lt_zero (hfin : z.isFinite = true) (h0 : toRat z ≠ 0) :
    isSigned z = decide (toRat z < 0) := by
  rw [isSigned_eq_hasMinus, toRat] at *
  replace hfin : z.toModel.unpack.isFinite = true := hfin
  cases hz : z.toModel.unpack with
  | notANumber | infinity => simp [hz, UnpackedFloat.isFinite] at hfin
  | zero s => simp [hz] at h0
  | finite s m e hm =>
    have hpos : (0 : ℚ) < m * 2 ^ e := natCast_mul_two_zpow_pos hm
    cases s with
    | negative => rw [rational_negative, decide_eq_true (neg_lt_zero.mpr hpos)]; rfl
    | positive => rw [rational_positive, decide_eq_false (not_lt.mpr hpos.le)]; rfl

/-- **A finite double is a number and a sign.** -/
theorem eq_of_toRat_eq (ha : a.isFinite = true) (hb : b.isFinite = true)
    (hval : toRat a = toRat b) (hsign : isSigned a = isSigned b) : a = b := by
  rw [isSigned_eq_hasMinus, isSigned_eq_hasMinus] at hsign
  exact eq_of_unpack_eq
    (eq_of_rational_eq (canonical_toModel a) (canonical_toModel b) ha hb hval hsign)

theorem unpack_neg (z : Float) : (-z).toModel.unpack = z.toModel.unpack.neg := by
  show UnpackedFloat.unpack .binary64 (UnpackedFloat.pack .binary64 z.toModel.unpack.neg) = _
  rw [unpack_pack_neg, unpack_pack (canonical_toModel z)]

@[simp]
theorem toRat_neg (z : Float) : toRat (-z) = -toRat z := by
  rw [toRat, unpack_neg, rational_neg, toRat]

@[simp]
theorem isFinite_neg (z : Float) : (-z).isFinite = z.isFinite := by
  show (-z).toModel.unpack.isFinite = z.toModel.unpack.isFinite
  rw [unpack_neg]
  cases z.toModel.unpack <;> rfl

theorem isNaN_eq_false (h : z.isFinite = true) : z.isNaN = false := by
  replace h : z.toModel.unpack.isFinite = true := h
  show z.toModel.unpack.isNaN = false
  cases hz : z.toModel.unpack with
  | notANumber => simp [hz, UnpackedFloat.isFinite] at h
  | infinity | zero | finite => rfl

theorem isInf_eq_false (h : z.isFinite = true) : z.isInf = false := by
  replace h : z.toModel.unpack.isFinite = true := h
  show z.toModel.unpack.isInf = false
  cases hz : z.toModel.unpack with
  | notANumber | infinity => simp [hz, UnpackedFloat.isFinite] at h
  | zero | finite => rfl

theorem isSigned_neg (h : z.isFinite = true) : isSigned (-z) = !isSigned z := by
  replace h : z.toModel.unpack.isFinite = true := h
  rw [isSigned_eq_hasMinus, isSigned_eq_hasMinus, unpack_neg]
  cases hz : z.toModel.unpack with
  | notANumber | infinity => simp [hz, UnpackedFloat.isFinite] at h
  | zero s | finite s => cases s <;> rfl

/-- The negative of a finite double differs from it in the sign bit and in no other. -/
theorem toBits_neg (h : z.isFinite = true) : (-z).toBits = z.toBits ^^^ signBit := by
  have hnan : z.toModel.unpack ≠ .notANumber := by
    intro hz
    have hfin : z.toModel.unpack.isFinite = true := h
    rw [hz] at hfin
    cases hfin
  have hword : UnpackedFloat.pack .binary64 z.toModel.unpack = z.toModel.toBits.toBitVec :=
    pack_unpack z.toModel.valid
  apply UInt64.toBitVec_inj.mp
  show UnpackedFloat.pack .binary64 z.toModel.unpack.neg = z.toModel.toBits.toBitVec ^^^ _
  rw [pack_neg hnan, hword]

theorem unpack_abs (z : Float) : z.abs.toModel.unpack = z.toModel.unpack.abs := by
  show UnpackedFloat.unpack .binary64 (UnpackedFloat.pack .binary64 z.toModel.unpack.abs) = _
  apply unpack_pack
  have h := canonical_toModel z
  cases hu : z.toModel.unpack <;> simp_all [UnpackedFloat.abs, Canonical]

theorem floatAbs_neg (z : Float) : (-z).abs = z.abs := by
  apply eq_of_unpack_eq
  rw [unpack_abs, unpack_abs, unpack_neg]
  cases z.toModel.unpack <;> rfl

@[simp]
theorem toRat_abs (z : Float) : toRat z.abs = |toRat z| := by
  rw [toRat, unpack_abs, rational_abs, toRat]

@[simp]
theorem isFinite_abs (z : Float) : z.abs.isFinite = z.isFinite := by
  show z.abs.toModel.unpack.isFinite = z.toModel.unpack.isFinite
  rw [unpack_abs]
  cases z.toModel.unpack <;> rfl

/-- A double is its magnitude with its sign. -/
theorem withSignOf_abs (z : Float) : withSignOf z z.abs = z := by
  have hunpacked : ∀ u : UnpackedFloat, (if hasMinus u then u.abs.neg else u.abs) = u := by
    intro u
    cases u with
    | notANumber => rfl
    | infinity s | zero s | finite s => cases s <;> rfl
  have h := hunpacked z.toModel.unpack
  apply eq_of_unpack_eq
  rw [withSignOf, isSigned_eq_hasMinus]
  split_ifs at h ⊢
  · rw [unpack_neg, unpack_abs, h]
  · rw [unpack_abs, h]

theorem abs_toRat_withSignOf (z w : Float) : |toRat (withSignOf z w)| = |toRat w| := by
  rw [withSignOf]
  split_ifs
  · rw [toRat_neg, abs_neg]
  · rfl

theorem isSigned_abs (z : Float) : isSigned z.abs = false := by
  rw [isSigned_eq_hasMinus, unpack_abs]
  cases z.toModel.unpack <;> rfl

/-! ## Comparisons -/

theorem lt_eq_compare (a b : Float) :
    a < b ↔ a.toModel.unpack.compare b.toModel.unpack = some .lt := by
  show decide ((a.toModel.unpack.compare b.toModel.unpack == some .lt) = true) = true ↔ _
  rw [decide_eq_true_iff, beq_iff_eq]

theorem le_eq_compare (a b : Float) :
    a ≤ b ↔ a.toModel.unpack.compare b.toModel.unpack = some .lt ∨
      a.toModel.unpack.compare b.toModel.unpack = some .eq := by
  show decide ((a.toModel.unpack.compare b.toModel.unpack).any (·.isLE) = true) = true ↔ _
  rw [decide_eq_true_iff]
  rcases a.toModel.unpack.compare b.toModel.unpack with - | - | - | - <;> simp

theorem lt_iff_toRat_lt (ha : a.isFinite = true) (hb : b.isFinite = true) :
    a < b ↔ toRat a < toRat b := by
  rw [lt_eq_compare, compare_eq_compare_rational (canonical_toModel a) (canonical_toModel b) ha hb,
    Option.some_inj, compare_lt_iff_lt, toRat, toRat]

theorem le_iff_toRat_le (ha : a.isFinite = true) (hb : b.isFinite = true) :
    a ≤ b ↔ toRat a ≤ toRat b := by
  rw [le_eq_compare, compare_eq_compare_rational (canonical_toModel a) (canonical_toModel b) ha hb,
    Option.some_inj, Option.some_inj, compare_lt_iff_lt, compare_eq_iff_eq, ← le_iff_lt_or_eq,
    toRat, toRat]

/-- What lies between two finite doubles is finite, so no NaN either. -/
theorem isFinite_of_le_of_le (ha : a.isFinite = true) (hb : b.isFinite = true) (haz : a ≤ z)
    (hzb : z ≤ b) : z.isFinite = true := by
  rw [le_eq_compare] at haz hzb
  show z.toModel.unpack.isFinite = true
  replace ha : a.toModel.unpack.isFinite = true := ha
  replace hb : b.toModel.unpack.isFinite = true := hb
  cases hz : z.toModel.unpack with
  | zero | finite => rfl
  | notANumber =>
    rw [hz] at hzb
    simp [UnpackedFloat.compare] at hzb
  | infinity s =>
    rw [hz] at haz hzb
    cases s <;> cases ha' : a.toModel.unpack <;> cases hb' : b.toModel.unpack <;>
      simp_all [UnpackedFloat.compare, UnpackedFloat.isFinite]

/-- What lies below a finite double lies below every greater one; it can be minus infinity. -/
theorem lt_of_lt_of_lt (ha : a.isFinite = true) (hb : b.isFinite = true) (hza : z < a)
    (hab : a < b) : z < b := by
  by_cases hz : z.isFinite = true
  · rw [lt_iff_toRat_lt hz ha] at hza
    rw [lt_iff_toRat_lt ha hb] at hab
    rw [lt_iff_toRat_lt hz hb]
    exact hza.trans hab
  · rw [lt_eq_compare] at hza ⊢
    replace ha : a.toModel.unpack.isFinite = true := ha
    replace hb : b.toModel.unpack.isFinite = true := hb
    replace hz : ¬ z.toModel.unpack.isFinite = true := hz
    cases hz' : z.toModel.unpack with
    | zero | finite => simp [hz', UnpackedFloat.isFinite] at hz
    | notANumber => simp [hz', UnpackedFloat.compare] at hza
    | infinity s =>
      rw [hz'] at hza
      cases s <;> cases ha' : a.toModel.unpack <;> cases hb' : b.toModel.unpack <;>
        simp_all [UnpackedFloat.compare, UnpackedFloat.isFinite]

/-- Equality of doubles is equality of their numbers; it does not tell the zeros apart. -/
theorem beq_iff_toRat_eq (ha : a.isFinite = true) (hb : b.isFinite = true) :
    (a == b) = true ↔ toRat a = toRat b := by
  show (a.toModel.unpack.compare b.toModel.unpack == some .eq) = true ↔ _
  rw [compare_eq_compare_rational (canonical_toModel a) (canonical_toModel b) ha hb, beq_iff_eq,
    Option.some_inj, compare_eq_iff_eq, toRat, toRat]

/-- Both zeros are equal to zero. -/
theorem beq_zero_iff (hfin : z.isFinite = true) : (z == 0) = true ↔ toRat z = 0 :=
  beq_iff_toRat_eq hfin rfl

end Identicon.Binary64
