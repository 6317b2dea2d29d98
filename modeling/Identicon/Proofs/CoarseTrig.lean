import Identicon.Proofs.Parity

/-!
# A sine and a cosine to compute with

What is assumed of the sine and cosine of a machine holds of a pair of functions that can be
evaluated: they are rounded correctly at arguments so small that the sine is the argument itself and
the cosine 1, at the circle constant and at half of it. On a canvas of half size 1, where the
coordinates are `-1`, 0 and 1, no other arguments occur.
-/

namespace Identicon

open Binary64

/-- Below `2 ^ -27` a sine differs from its argument by less than half a unit in the last place, and
a cosine from 1. -/
def Binary64.linearBelow : Float := Float.ofBits 0x3E40000000000000

/-- Half of `pi`. -/
def Binary64.halfPi : Float := Float.ofBits 0x3FF921FB54442D18

/-- The sine of `pi`, rounded. -/
def Binary64.sinPi : Float := Float.ofBits 0x3CA1A62633145C07

/-- The cosine of `halfPi`, rounded. -/
def Binary64.cosHalfPi : Float := Float.ofBits 0x3C91A62633145C07

/-- A sine and a cosine that are right at small arguments, at `pi` and at `halfPi`, and 0 at all
other arguments. -/
def Trig.coarse : Trig where
  sin t :=
    if t.abs < linearBelow then t
    else withSignOf t (if t.abs = pi then sinPi else if t.abs = halfPi then 1 else 0)
  cos t :=
    if t.abs < linearBelow then 1
    else if t.abs = pi then -1 else if t.abs = halfPi then cosHalfPi else 0

namespace Binary64

variable {z w : Float}

theorem holds_linearBelow : Holds linearBelow (2 ^ (-27 : ℤ)) :=
  holds_of_unpack (m := 0x10000000000000) (e := -79) (by norm_num) rfl (by norm_num)

theorem holds_sinPi : Holds sinPi (0x11A62633145C07 * 2 ^ (-105 : ℤ)) :=
  holds_of_unpack (m := 0x11A62633145C07) (e := -105) (by norm_num) rfl (by norm_num)

theorem holds_cosHalfPi : Holds cosHalfPi (0x11A62633145C07 * 2 ^ (-106 : ℤ)) :=
  holds_of_unpack (m := 0x11A62633145C07) (e := -106) (by norm_num) rfl (by norm_num)

theorem inUnit_of_abs_lt_linearBelow (hz : z.isFinite = true) (h : z.abs < linearBelow) :
    InUnit z := by
  have hz' := holds_toRat hz
  rw [hz'.abs.lt_iff holds_linearBelow] at h
  exact hz'.inUnit (h.le.trans (by norm_num))

theorem inUnit_sinPi : InUnit sinPi := holds_sinPi.inUnit (by norm_num)

theorem inUnit_cosHalfPi : InUnit cosHalfPi := holds_cosHalfPi.inUnit (by norm_num)

theorem inUnit_zero : InUnit 0 := holds_zero.inUnit (by norm_num)

theorem inUnit_one : InUnit 1 := holds_one.inUnit (by norm_num)

theorem InUnit.withSignOf (hw : InUnit w) (z : Float) : InUnit (withSignOf z w) := by
  rw [Binary64.withSignOf]
  split
  · exact hw.neg
  · exact hw

theorem withSignOf_neg (hz : z.isFinite = true) (w : Float) :
    withSignOf (-z) w = -withSignOf z w := by
  rw [withSignOf, withSignOf, isSigned_neg hz]
  cases isSigned z with
  | true => exact (floatNeg_neg w).symm
  | false => rfl

end Binary64

namespace Trig

theorem coarse_bounded : coarse.Bounded := by
  have hsin : ∀ t : Float, t.isFinite = true → InUnit (coarse.sin t) := by
    intro t ht
    unfold coarse
    dsimp only
    split_ifs with hsmall
    · exact inUnit_of_abs_lt_linearBelow ht hsmall
    · exact inUnit_sinPi.withSignOf t
    · exact inUnit_one.withSignOf t
    · exact inUnit_zero.withSignOf t
  have hcos : ∀ t : Float, InUnit (coarse.cos t) := by
    intro t
    unfold coarse
    dsimp only
    split_ifs
    · exact inUnit_one
    · exact inUnit_one.neg
    · exact inUnit_cosHalfPi
    · exact inUnit_zero
  exact ⟨fun t ht => ⟨(hsin t ht).neg_one_le, (hsin t ht).le_one⟩,
    fun t _ => ⟨(hcos t).neg_one_le, (hcos t).le_one⟩⟩

theorem coarse_oddEven : coarse.OddEven := by
  constructor
  · intro t ht
    unfold coarse
    dsimp only
    rw [floatAbs_neg, withSignOf_neg ht]
    split <;> rfl
  · intro t _
    unfold coarse
    dsimp only
    rw [floatAbs_neg]

end Trig

end Identicon
