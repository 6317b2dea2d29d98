import Identicon.Canvas
import Identicon.Proofs.Range

/-!
# The points of the pixels

A canvas lays its pixels over `[-1, 1] × [-1, 1]`. The distance of a column or row from the middle
is a whole number and computed without rounding; the division by the half size is the one operation
that rounds. A column or row reflected in the middle one is at the opposite distance, so that its
coordinate is the negative of the other bit for bit.

Neighbouring columns are much further apart than rounding moves their coordinates. The order of
columns is therefore the order of their coordinates (`coordinate_strictMonoOn`), and whatever there
is to say about a coordinate being below, at or above another one, or `-1`, `0` or `1`, is a matter of
whole numbers (`LiesAt`).
-/

namespace Identicon.Canvas

open Binary64

variable {c : Canvas} {p p' px px' py py' : UInt32} {z w : Float} {j k : ℤ}

/-- A canvas with a half size that `ofHalfSize` accepts. -/
def Valid (c : Canvas) : Prop :=
  c.halfSize ≠ 0 ∧ c.halfSize ≤ Error.greatestHalfSize

theorem ofHalfSize_eq_ok_iff {halfSize : UInt32} :
    ofHalfSize halfSize = .ok c ↔ c.halfSize = halfSize ∧ c.Valid := by
  obtain ⟨h⟩ := c
  unfold ofHalfSize Valid
  split_ifs with h0 hlarge
  · grind
  · grind
  · grind

/-- A side is twice the half size, as long as the product, which is taken modulo `2 ^ 32`, does not
wrap around. -/
theorem toNat_side (hfit : c.halfSize.toNat < 2 ^ 31) : c.side.toNat = 2 * c.halfSize.toNat := by
  rw [side, UInt32.toNat_mul]
  show c.halfSize.toNat * 2 % 2 ^ 32 = _
  omega

/-- Within the accepted range nothing wraps around. -/
theorem Valid.toNat_side (h : c.Valid) : c.side.toNat = 2 * c.halfSize.toNat := by
  have hle : c.halfSize.toNat ≤ 4096 := h.2
  exact Canvas.toNat_side (by omega)

theorem toNat_halfSize_pos (h0 : c.halfSize ≠ 0) : 0 < c.halfSize.toNat :=
  Nat.pos_of_ne_zero fun h => h0 (UInt32.toNat_inj.mp h)

theorem cast_halfSize_pos (h0 : c.halfSize ≠ 0) : (0 : ℚ) < c.halfSize.toNat :=
  Nat.cast_pos.mpr (toNat_halfSize_pos h0)

/-- A column and its reflection add up to a side. -/
theorem toNat_add_toNat_side_sub (hfit : c.halfSize.toNat < 2 ^ 31) (hp : p < c.side) :
    p.toNat + (c.side - p).toNat = 2 * c.halfSize.toNat := by
  have hle : p.toNat ≤ c.side.toNat := (UInt32.lt_iff_toNat_lt.mp hp).le
  rw [UInt32.toNat_sub_of_le _ _ (UInt32.le_iff_toNat_le.mpr hle), Nat.add_sub_cancel' hle,
    toNat_side hfit]

theorem Valid.side_ne_zero (h : c.Valid) : c.side.toNat ≠ 0 := by
  have hpos := toNat_halfSize_pos h.1
  rw [h.toNat_side]
  omega

/-! ## Distances -/

/-- The distance of a column or row from the middle. -/
def offset (c : Canvas) (p : UInt32) : ℤ :=
  p.toNat - c.halfSize.toNat

theorem offset_eq_zero_iff : c.offset p = 0 ↔ p = c.halfSize := by
  rw [offset, ← UInt32.toNat_inj]
  omega

theorem offset_eq_neg_halfSize_iff : c.offset p = -c.halfSize.toNat ↔ p = 0 := by
  rw [offset, ← UInt32.toNat_inj, UInt32.toNat_zero]
  omega

theorem offset_lt_offset_iff : c.offset p < c.offset p' ↔ p < p' := by
  rw [offset, offset, UInt32.lt_iff_toNat_lt]
  omega

/-- Up to the column or row behind the last one, none is further from the middle than the first. -/
theorem offset_mem (hp : p.toNat ≤ 2 * c.halfSize.toNat) :
    c.offset p ∈ Set.Icc (-c.halfSize.toNat : ℤ) c.halfSize.toNat := by
  rw [offset, Set.mem_Icc]
  omega

theorem holds_toFloat_intCast (p : UInt32) : Holds p.toFloat (p.toNat : ℤ) := by
  rw [Int.cast_natCast]
  exact holds_toFloat_uint32 p

/-- The distance from the middle is computed without rounding. -/
theorem holds_sub_halfSize (c : Canvas) (p : UInt32) :
    Holds (p.toFloat - c.halfSize.toFloat) (c.offset p) := by
  apply (holds_toFloat_intCast p).sub_intCast (holds_toFloat_intCast c.halfSize)
  have hp := p.toNat_lt
  have hh := c.halfSize.toNat_lt
  rw [abs_le]
  omega

/-! ## Coordinates -/

/-- The coordinate at a distance from the middle: the quotient by the half size, rounded. -/
def coordinate (c : Canvas) (k : ℤ) : ℚ :=
  nearest (k / c.halfSize.toNat)

/-- The double is the coordinate at a distance that the canvas has or that follows its last one. -/
structure LiesAt (c : Canvas) (z : Float) (k : ℤ) : Prop where
  mem : k ∈ Set.Icc (-c.halfSize.toNat : ℤ) c.halfSize.toNat
  holds : Holds z (c.coordinate k)

theorem abs_div_halfSize_le_one (h0 : c.halfSize ≠ 0)
    (hk : k ∈ Set.Icc (-c.halfSize.toNat : ℤ) c.halfSize.toNat) :
    |(k : ℚ) / c.halfSize.toNat| ≤ 1 := by
  have hpos := cast_halfSize_pos h0
  rw [abs_div, abs_of_pos hpos, div_le_one hpos, ← Int.cast_abs]
  exact_mod_cast abs_le.mpr hk

/-- The division by the half size is rounded once. -/
theorem liesAt_div_halfSize (hz : Holds z k) (h0 : c.halfSize ≠ 0)
    (hk : k ∈ Set.Icc (-c.halfSize.toNat : ℤ) c.halfSize.toNat) :
    c.LiesAt (z / c.halfSize.toFloat) k := by
  have hpos := cast_halfSize_pos h0
  have hr := abs_nearest_le_one (abs_div_halfSize_le_one h0 hk)
  exact ⟨hk, hz.div (holds_toFloat_uint32 c.halfSize) hpos.ne' (hr.trans_lt one_lt_two_pow_1024)⟩

theorem liesAt_toUnit_fst (h0 : c.halfSize ≠ 0) (hp : px.toNat ≤ 2 * c.halfSize.toNat) :
    c.LiesAt (c.toUnit px py).1 (c.offset px) :=
  liesAt_div_halfSize (c.holds_sub_halfSize px) h0 (offset_mem hp)

/-- Rows go against the direction of `y`. -/
theorem liesAt_toUnit_snd (h0 : c.halfSize ≠ 0) (hp : py.toNat ≤ 2 * c.halfSize.toNat) :
    c.LiesAt (c.toUnit px py).2 (-c.offset py) := by
  have hneg : Holds (-(py.toFloat - c.halfSize.toFloat)) (-c.offset py : ℤ) := by
    rw [Int.cast_neg]
    exact (c.holds_sub_halfSize py).neg
  obtain ⟨hlo, hhi⟩ := Set.mem_Icc.mp (offset_mem hp)
  exact liesAt_div_halfSize hneg h0 (Set.mem_Icc.mpr ⟨neg_le_neg hhi, neg_le.mp hlo⟩)

theorem LiesAt.inUnit (h : c.LiesAt z k) (h0 : c.halfSize ≠ 0) : InUnit z :=
  h.holds.inUnit (abs_nearest_le_one (abs_div_halfSize_le_one h0 h.mem))

/-- The points of the pixels lie in the square. -/
theorem inUnit_toUnit_fst (h0 : c.halfSize ≠ 0) (hp : px.toNat ≤ 2 * c.halfSize.toNat) :
    InUnit (c.toUnit px py).1 :=
  (liesAt_toUnit_fst h0 hp).inUnit h0

theorem inUnit_toUnit_snd (h0 : c.halfSize ≠ 0) (hp : py.toNat ≤ 2 * c.halfSize.toNat) :
    InUnit (c.toUnit px py).2 :=
  (liesAt_toUnit_snd h0 hp).inUnit h0

/-! ## Order -/

/-- **Different distances have different coordinates, in the same order.** The quotients are at
least `2 ^ (-32)` apart, and rounding moves a number in the square by no more than `2 ^ (-53)`. -/
theorem coordinate_strictMonoOn (h0 : c.halfSize ≠ 0) :
    StrictMonoOn c.coordinate (Set.Icc (-c.halfSize.toNat : ℤ) c.halfSize.toNat) := by
  intro j hj k hk hjk
  have hpos := cast_halfSize_pos h0
  have hone : (1 : ℚ) < 2 ^ (-52 + 53 : ℤ) := by norm_num
  apply nearest_lt_nearest (by norm_num) ((abs_div_halfSize_le_one h0 hj).trans_lt hone)
    ((abs_div_halfSize_le_one h0 hk).trans_lt hone)
  have hstep : (1 : ℚ) ≤ k - j := by exact_mod_cast Int.sub_pos_of_lt hjk
  have hlt : (c.halfSize.toNat : ℚ) < 2 ^ 32 := by exact_mod_cast c.halfSize.toNat_lt
  rw [← sub_div, lt_div_iff₀ hpos]
  calc (2 : ℚ) ^ (-52 : ℤ) * c.halfSize.toNat < 2 ^ (-52 : ℤ) * 2 ^ 32 :=
        mul_lt_mul_of_pos_left hlt (two_zpow_pos _)
    _ ≤ 1 := by norm_num
    _ ≤ k - j := hstep

theorem liesAt_zero (c : Canvas) : c.LiesAt 0 0 := by
  refine ⟨Set.mem_Icc.mpr (by omega), ?_⟩
  rw [coordinate, Int.cast_zero, zero_div, nearest_zero]
  exact holds_zero

theorem liesAt_one (h0 : c.halfSize ≠ 0) : c.LiesAt 1 c.halfSize.toNat := by
  have hone : nearest 1 = 1 := by exact_mod_cast nearest_intCast (k := 1) (by norm_num)
  refine ⟨Set.mem_Icc.mpr (by omega), ?_⟩
  rw [coordinate, Int.cast_natCast, div_self (cast_halfSize_pos h0).ne', hone]
  exact holds_one

namespace LiesAt

theorem neg (h : c.LiesAt z k) : c.LiesAt (-z) (-k) := by
  obtain ⟨hlo, hhi⟩ := Set.mem_Icc.mp h.mem
  refine ⟨Set.mem_Icc.mpr ⟨neg_le_neg hhi, neg_le.mp hlo⟩, ?_⟩
  rw [coordinate, Int.cast_neg, neg_div, nearest_neg]
  exact h.holds.neg

/-- Coordinates compare like the distances. -/
theorem lt_iff (hz : c.LiesAt z j) (hw : c.LiesAt w k) (h0 : c.halfSize ≠ 0) : z < w ↔ j < k := by
  rw [hz.holds.lt_iff hw.holds]
  exact (coordinate_strictMonoOn h0).lt_iff_lt hz.mem hw.mem

theorem beq_iff (hz : c.LiesAt z j) (hw : c.LiesAt w k) (h0 : c.halfSize ≠ 0) :
    (z == w) = true ↔ j = k := by
  rw [hz.holds.beq_iff hw.holds]
  exact (coordinate_strictMonoOn h0).injOn.eq_iff hz.mem hw.mem

end LiesAt

/-- The middle column is at the positive zero. -/
theorem sub_div_halfSize_self (h0 : c.halfSize ≠ 0) :
    (c.halfSize.toFloat - c.halfSize.toFloat) / c.halfSize.toFloat = 0 := by
  have hden := holds_toFloat_uint32 c.halfSize
  rw [floatSub_self hden.isFinite, floatZero_div hden (cast_halfSize_pos h0)]

/-- In the middle row the zero is the negative one, as its sign is turned before the division. -/
theorem toUnit_middle (h0 : c.halfSize ≠ 0) : c.toUnit c.halfSize c.halfSize = (0, -0) := by
  apply Prod.ext
  · exact sub_div_halfSize_self h0
  · show -(_ - _) / _ = -0
    rw [floatNeg_div, sub_div_halfSize_self h0]

/-! ## Reflection -/

/-- The opposite column or row is at the opposite distance, unless it is the middle one, whose
distance is a zero with the same sign on both sides. -/
theorem sub_halfSize_reflect (hsum : p.toNat + p'.toNat = 2 * c.halfSize.toNat)
    (hmid : p ≠ c.halfSize) :
    p'.toFloat - c.halfSize.toFloat = -(p.toFloat - c.halfSize.toFloat) := by
  have hne : c.offset p ≠ 0 := mt offset_eq_zero_iff.mp hmid
  have hopp : c.offset p' = -c.offset p := by
    rw [offset, offset]
    omega
  have hneg : Holds (p'.toFloat - c.halfSize.toFloat) (-c.offset p : ℚ) := by
    rw [← Int.cast_neg, ← hopp]
    exact c.holds_sub_halfSize p'
  exact hneg.eq_of_ne_zero (c.holds_sub_halfSize p).neg (neg_ne_zero.mpr (by exact_mod_cast hne))

/-- Reflecting a column negates `x` exactly. -/
theorem toUnit_fst_reflect (hsum : px.toNat + px'.toNat = 2 * c.halfSize.toNat)
    (hmid : px ≠ c.halfSize) : (c.toUnit px' py).1 = -(c.toUnit px py).1 := by
  show (px'.toFloat - _) / _ = -((px.toFloat - _) / _)
  rw [sub_halfSize_reflect hsum hmid, floatNeg_div]

/-- Reflecting a row negates `y` exactly. -/
theorem toUnit_snd_reflect (hsum : py.toNat + py'.toNat = 2 * c.halfSize.toNat)
    (hmid : py ≠ c.halfSize) : (c.toUnit px py').2 = -(c.toUnit px py).2 := by
  -- the sign of `y` is turned before the division, on both sides
  show -(py'.toFloat - _) / _ = -(-(py.toFloat - _) / _)
  rw [sub_halfSize_reflect hsum hmid, floatNeg_div (-(py.toFloat - _))]

/-! ## Scaling -/

/-- Apart from the middle, a coordinate is neither too small nor too large to be rounded to a double
other than zero. -/
theorem abs_offset_div_mem (h0 : c.halfSize ≠ 0) (hmid : p ≠ c.halfSize) :
    (2 : ℚ) ^ (-32 : ℤ) ≤ |(c.offset p : ℚ) / c.halfSize.toNat| ∧
      |(c.offset p : ℚ) / c.halfSize.toNat| ≤ 2 ^ 100 := by
  have hone : (1 : ℚ) ≤ c.halfSize.toNat := by exact_mod_cast toNat_halfSize_pos h0
  have hpos : (0 : ℚ) < c.halfSize.toNat := zero_lt_one.trans_le hone
  have hlt : (c.halfSize.toNat : ℚ) ≤ 2 ^ (32 : ℤ) := by exact_mod_cast c.halfSize.toNat_lt.le
  have hlo : (1 : ℚ) ≤ |(c.offset p : ℚ)| := by
    have hne : c.offset p ≠ 0 := mt offset_eq_zero_iff.mp hmid
    exact_mod_cast Int.one_le_abs hne
  have hhi : |(c.offset p : ℚ)| ≤ 2 ^ 32 := by
    have hp := p.toNat_lt
    have hh := c.halfSize.toNat_lt
    have hle : |c.offset p| ≤ 2 ^ 32 := by
      rw [offset, abs_le]
      omega
    exact_mod_cast hle
  rw [abs_div, abs_of_pos hpos, le_div_iff₀ hpos, div_le_iff₀ hpos]
  constructor
  · calc (2 : ℚ) ^ (-32 : ℤ) * c.halfSize.toNat ≤ 2 ^ (-32 : ℤ) * 2 ^ (32 : ℤ) :=
          mul_le_mul_of_nonneg_left hlt (two_zpow_pos _).le
      _ = 1 := by norm_num
      _ ≤ |(c.offset p : ℚ)| := hlo
  · calc |(c.offset p : ℚ)| ≤ 2 ^ 100 * 1 := hhi.trans (by norm_num)
      _ ≤ 2 ^ 100 * c.halfSize.toNat := mul_le_mul_of_nonneg_left hone (by norm_num)

section Scaling

variable {c' : Canvas} {k : ℕ}

/-- A column or row of a canvas and the one in the same place of a canvas with `k` times as many
pixels per unit: the two quotients are the same number, which is rounded once. -/
theorem sub_div_halfSize_scale (hk : 0 < k) (h0 : c.halfSize ≠ 0)
    (hh : c'.halfSize.toNat = k * c.halfSize.toNat) (hp : p'.toNat = k * p.toNat) :
    (p'.toFloat - c'.halfSize.toFloat) / c'.halfSize.toFloat =
      (p.toFloat - c.halfSize.toFloat) / c.halfSize.toFloat := by
  have hpos := cast_halfSize_pos h0
  have hkpos : (0 : ℚ) < k := by exact_mod_cast hk
  have h0' : c'.halfSize ≠ 0 := by
    intro h
    rw [h] at hh
    exact (Nat.mul_pos hk (toNat_halfSize_pos h0)).ne hh
  have hpos' := cast_halfSize_pos h0'
  by_cases hmid : p = c.halfSize
  · -- the middle one: a zero with the positive sign on both canvases
    have hmid' : p' = c'.halfSize := by
      apply UInt32.toNat_inj.mp
      rw [hp, hh, hmid]
    rw [hmid, hmid', sub_div_halfSize_self h0, sub_div_halfSize_self h0']
  · have hquot : (c'.offset p' : ℚ) / c'.halfSize.toNat = c.offset p / c.halfSize.toNat := by
      have hoffset : c'.offset p' = k * c.offset p := by
        rw [offset, offset, hp, hh, Nat.cast_mul, Nat.cast_mul, mul_sub]
      rw [hoffset, hh, Nat.cast_mul, Int.cast_mul, Int.cast_natCast]
      exact mul_div_mul_left _ _ hkpos.ne'
    obtain ⟨hlarge, hsmall⟩ := abs_offset_div_mem h0 hmid
    have hval := (c.holds_sub_halfSize p).div (holds_toFloat_uint32 _) hpos.ne'
      (abs_nearest_lt hsmall)
    have hval' := (c'.holds_sub_halfSize p').div (holds_toFloat_uint32 _) hpos'.ne'
      (abs_nearest_lt (by rw [hquot]; exact hsmall))
    rw [hquot] at hval'
    exact hval'.eq_of_ne_zero hval (nearest_ne_zero (by norm_num) hlarge)

/-- The pixel in the same place of a finer canvas has the same point, bit for bit. -/
theorem toUnit_scale (hk : 0 < k) (h0 : c.halfSize ≠ 0)
    (hh : c'.halfSize.toNat = k * c.halfSize.toNat) (hpx : px'.toNat = k * px.toNat)
    (hpy : py'.toNat = k * py.toNat) : c'.toUnit px' py' = c.toUnit px py := by
  apply Prod.ext
  · exact sub_div_halfSize_scale hk h0 hh hpx
  · -- the sign that is turned before the division can be turned after it
    show -(py'.toFloat - _) / _ = -(py.toFloat - _) / _
    rw [floatNeg_div, floatNeg_div, sub_div_halfSize_scale hk h0 hh hpy]

end Scaling

/-! ## The points of a canvas -/

/-- **The geometry of the points.** Columns go up from `-1` and stop short of `1`, rows go down from
`1` and stop short of `-1`, both without two of them sharing a coordinate. The first column and row
are the ones at the edge, and the one in the middle is the one at zero, where `x` is `0.0` and `y` is
`-0.0`. Any other column or row and its reflection differ in the sign bit and in no other. -/
theorem toUnit_geometry (h0 : c.halfSize ≠ 0) (hfit : c.halfSize.toNat < 2 ^ 31)
    (hpx : px < c.side) (hpy : py < c.side) (hpx' : px' < c.side) (hpy' : py' < c.side) :
    (-1 ≤ (c.toUnit px py).1 ∧ (c.toUnit px py).1 < 1) ∧
    (-1 < (c.toUnit px py).2 ∧ (c.toUnit px py).2 ≤ 1) ∧
    ((c.toUnit px py).1 < (c.toUnit px' py').1 ↔ px < px') ∧
    ((c.toUnit px' py').2 < (c.toUnit px py).2 ↔ py < py') ∧
    ((c.toUnit px py).1 == -1 ↔ px = 0) ∧ ((c.toUnit px py).2 == 1 ↔ py = 0) ∧
    ((c.toUnit px py).1 == 0 ↔ px = c.halfSize) ∧ ((c.toUnit px py).2 == 0 ↔ py = c.halfSize) ∧
    c.toUnit c.halfSize c.halfSize = (0, -0) ∧
    (px ≠ c.halfSize → (c.toUnit (c.side - px) (c.side - py)).1.toBits =
      (c.toUnit px py).1.toBits ^^^ signBit) ∧
    (py ≠ c.halfSize → (c.toUnit (c.side - px) (c.side - py)).2.toBits =
      (c.toUnit px py).2.toBits ^^^ signBit) := by
  have hreflectx := toNat_add_toNat_side_sub hfit hpx
  have hreflecty := toNat_add_toNat_side_sub hfit hpy
  rw [UInt32.lt_iff_toNat_lt, toNat_side hfit] at hpx hpy hpx' hpy'
  have hx : c.LiesAt (c.toUnit px py).1 (c.offset px) := liesAt_toUnit_fst h0 hpx.le
  have hy : c.LiesAt (c.toUnit px py).2 (-c.offset py) := liesAt_toUnit_snd h0 hpy.le
  have hx' : c.LiesAt (c.toUnit px' py').1 (c.offset px') := liesAt_toUnit_fst h0 hpx'.le
  have hy' : c.LiesAt (c.toUnit px' py').2 (-c.offset py') := liesAt_toUnit_snd h0 hpy'.le
  have hzero := liesAt_zero c
  have hone := liesAt_one h0
  refine ⟨⟨(hx.inUnit h0).neg_one_le, ?_⟩, ⟨?_, (hy.inUnit h0).le_one⟩, ?_, ?_, ?_, ?_, ?_, ?_,
    toUnit_middle h0, ?_, ?_⟩
  · rw [hx.lt_iff hone h0, offset]
    omega
  · rw [hone.neg.lt_iff hy h0, offset]
    omega
  · rw [hx.lt_iff hx' h0, offset_lt_offset_iff]
  · rw [hy'.lt_iff hy h0, neg_lt_neg_iff, offset_lt_offset_iff]
  · rw [hx.beq_iff hone.neg h0, offset_eq_neg_halfSize_iff]
  · rw [hy.beq_iff hone h0, neg_eq_iff_eq_neg, offset_eq_neg_halfSize_iff]
  · rw [hx.beq_iff hzero h0, offset_eq_zero_iff]
  · rw [hy.beq_iff hzero h0, neg_eq_zero, offset_eq_zero_iff]
  · intro hmid
    rw [toUnit_fst_reflect hreflectx hmid]
    exact toBits_neg hx.holds.isFinite
  · intro hmid
    rw [toUnit_snd_reflect hreflecty hmid]
    exact toBits_neg hy.holds.isFinite

/-- The law at the last columns and the first rows of the largest canvas with a side that does not
wrap around. -/
theorem toUnit_geometry_greatest :
    let c : Canvas := ⟨2147483647⟩
    (c.halfSize ≠ 0 ∧ c.halfSize.toNat < 2 ^ 31 ∧ 4294967292 < c.side ∧ 0 < c.side ∧
      4294967293 < c.side ∧ 1 < c.side) ∧
    (c.toUnit 4294967292 0).1 < (c.toUnit 4294967293 1).1 ∧
    (c.toUnit 4294967293 1).2 < (c.toUnit 4294967292 0).2 ∧
    (c.toUnit 4294967292 0).1 < 1 ∧ (c.toUnit 4294967292 0).2 == 1 ∧
    (c.toUnit (c.side - 4294967292) (c.side - 0)).1.toBits =
      (c.toUnit 4294967292 0).1.toBits ^^^ signBit := by
  intro c
  have hin : c.halfSize ≠ 0 ∧ c.halfSize.toNat < 2 ^ 31 ∧ 4294967292 < c.side ∧ 0 < c.side ∧
      4294967293 < c.side ∧ 1 < c.side := by decide
  obtain ⟨h0, hfit, hpx, hpy, hpx', hpy'⟩ := hin
  obtain ⟨⟨-, hlast⟩, -, hcolumns, hrows, -, htop, -, -, -, hreflect, -⟩ :=
    toUnit_geometry h0 hfit hpx hpy hpx' hpy'
  exact ⟨⟨h0, hfit, hpx, hpy, hpx', hpy'⟩, hcolumns.mpr (by decide), hrows.mpr (by decide), hlast,
    htop.mpr rfl, hreflect (by decide)⟩

end Identicon.Canvas
