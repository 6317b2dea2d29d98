import Identicon.Proofs.Avatar
import Identicon.Proofs.WholePart

/-!
# Bright channels

A seed below 40 makes a square. The two factors of the product at the root are grown from the same
value, so that they are one expression twice, and the value of the product is the square of a value,
rounded. Rounding keeps it from becoming negative, and a value that is not negative has a byte in
the upper half of the range, as scaling takes 0 to 127.5 and rounding ties away from zero takes this
to 128.

Such a seed comes from a third whose mean weight is greater than 10. A mean of fewer than `2 ^ 32`
whole numbers that is greater than a whole number is greater by `2 ^ -32` at least, which neither
the division nor the subtraction from 50 rounds away.

## Main definitions

* `Plane.Bright`, `Image.BrightIn`: no byte of the plane, or of one channel of the image, is below
  128.
-/

namespace Identicon

open Binary64

/-- No byte of the plane is below the middle of the range. -/
def Plane.Bright (plane : Plane) : Prop :=
  ∀ b ∈ plane.bytes, 128 ≤ b

/-- Each pixel of the image has a byte in the channel, and none of these is below the middle of the
range. -/
def Image.BrightIn (image : Image) (channel : Channel) : Prop :=
  ∀ px < image.width, ∀ py < image.height, ∃ b : UInt8,
    image.bytes[3 * (py * image.width + px) + channel.index]? = some b ∧ 128 ≤ b

variable {trig : Trig} {w z : Float} {seed : Float} {c : Canvas}

/-! ## Squares -/

/-- A rounded square is not negative. -/
theorem Binary64.InUnit.zero_le_toRat_mul_self (hw : InUnit w) : 0 ≤ toRat (w * w) := by
  rw [(hw.holds_mul hw).toRat_eq]
  exact le_nearest onGrid_zero (mul_self_nonneg _)

theorem Expr.zero_le_toRat_evaluate_grow (ht : trig.Bounded) (h : seed < Rule.productBelow)
    {x y : Float} (hx : InUnit x) (hy : InUnit y) :
    0 ≤ toRat ((grow seed).evaluate trig x y) := by
  rw [grow_of_lt h]
  exact (inUnit_evaluate ht hx hy _).zero_le_toRat_mul_self

/-! ## Bytes -/

theorem halfAway_scaled_zero : halfAway (scaled 0) = 128 := by
  rw [scaled_zero]
  decide +kernel

/-- Scaling and rounding do not take a value that is not negative below 128. -/
theorem le_byte_of_nonneg (hz : InUnit z) (h0 : 0 ≤ toRat z) :
    128 ≤ (roundedIntensity z).toUInt8 := by
  have hbyte := toNat_roundedIntensity hz
  rw [(holds_scaled_of_inUnit hz).toRat_eq] at hbyte
  have hround := halfAway_mono (scaled_mono h0)
  rw [halfAway_scaled_zero, ← hbyte] at hround
  rw [UInt8.le_iff_toNat_le]
  exact_mod_cast hround

/-- The plane of a seed below the bound for products has no dark pixel. -/
theorem Canvas.bright_planeOf (hc : c.Valid) (ht : trig.Bounded) (h : seed < Rule.productBelow) :
    (c.planeOf trig (Expr.grow seed)).Bright := by
  intro b hb
  obtain ⟨px, hpx, py, hpy, rfl⟩ := exists_of_mem_squareOf hb
  obtain ⟨hx, hy⟩ := inUnit_toUnit hc hpx hpy
  exact le_byte_of_nonneg (inUnit_valueAt hc ht hpx hpy)
    (Expr.zero_le_toRat_evaluate_grow ht h hx hy)

/-- An image is as bright in a channel as the plane it is merged from. -/
theorem Mergeable.brightIn {planes : Channels Plane} {width height : ℕ}
    (h : Mergeable planes width height) {channel : Channel} (hplane : (planes.get channel).Bright) :
    (⟨width, height, mergedBytes planes⟩ : Image).BrightIn channel := by
  intro px hpx py hpy
  have hplace := h.place_lt hpx hpy channel
  exact ⟨_, h.getElem?_mergedBytes_of_eq_some (Array.getElem?_eq_getElem hplace),
    hplane _ (Array.getElem_mem hplace)⟩

/-! ## Means -/

variable {part : List Char} {k : ℤ}

/-- A mean is a fraction, and two fractions with small denominators are not close. -/
theorem add_le_exactMean (hpart : part ≠ []) (hlen : part.length < 2 ^ 32)
    (h : k < exactMean part) : k + 2 ^ (-32 : ℤ) ≤ exactMean part := by
  have hpos : (0 : ℚ) < part.length := by
    exact_mod_cast List.length_pos_iff.mpr hpart
  have hlenq : (part.length : ℚ) ≤ 2 ^ 32 := by exact_mod_cast hlen.le
  rw [exactMean] at h ⊢
  generalize (part.map charWeight).sum = sum at h ⊢
  rw [lt_div_iff₀ hpos] at h
  have hsum : k * part.length + 1 ≤ sum := by
    have hlt : k * part.length < sum := by exact_mod_cast h
    omega
  rw [le_div_iff₀ hpos]
  calc ((k : ℚ) + 2 ^ (-32 : ℤ)) * part.length ≤ k * part.length + 1 := by
        norm_num
        linarith
    _ ≤ sum := by exact_mod_cast hsum

/-- A whole number and `2 ^ -32` more are a double together. -/
theorem onGrid_add_two_zpow (hk : |k| ≤ 2 ^ 20) : OnGrid (k + 2 ^ (-32 : ℤ)) := by
  obtain ⟨hlo, hhi⟩ := abs_le.mp hk
  refine ⟨k * 2 ^ 32 + 1, -32, abs_le.mpr (by omega), by norm_num, ?_⟩
  push_cast
  norm_num
  ring

/-- Rounding takes no mean across a whole number, nor down to one. -/
theorem lt_meanWeight_iff {t : Float} (ht : Holds t k) (hpart : part ≠ [])
    (hlen : part.length < 2 ^ 32) (hk : |k| ≤ 2 ^ 20) :
    t < meanWeight part ↔ k < exactMean part := by
  rw [ht.lt_iff (holds_meanWeight_nearest hpart hlen)]
  constructor
  · intro h
    by_contra hnot
    have hle := nearest_le (onGrid_intCast (hk.trans (by norm_num))) (not_lt.mp hnot)
    exact absurd h (not_lt.mpr hle)
  · intro h
    have hge := le_nearest (onGrid_add_two_zpow hk) (add_le_exactMean hpart hlen h)
    linarith [two_zpow_pos (-32)]

theorem holds_ten : Holds 10 (10 : ℤ) := by
  have h : Holds 10 10 :=
    holds_of_unpack (m := 0x14000000000000) (e := -49) (by norm_num) rfl (by norm_num)
  exact_mod_cast h

/-- A part with a mean weight greater than 10 has a seed below 40. -/
theorem seed_lt_productBelow (hpart : part ≠ []) (hlen : part.length < 2 ^ 32)
    (h : 10 < exactMean part) : Seeds.ceiling - meanWeight part < Rule.productBelow := by
  have hstep : OnGrid ((10 : ℤ) + 2 ^ (-32 : ℤ)) := onGrid_add_two_zpow (by norm_num)
  have hrest : OnGrid (-((-40 : ℤ) + 2 ^ (-32 : ℤ))) := (onGrid_add_two_zpow (by norm_num)).neg
  have hmean := le_nearest hstep (add_le_exactMean hpart hlen (by exact_mod_cast h))
  have hseed : nearest (50 - nearest (exactMean part)) ≤ -((-40 : ℤ) + 2 ^ (-32 : ℤ)) := by
    apply nearest_le hrest
    push_cast at hmean ⊢
    linarith
  rw [(holds_seed_nearest hpart hlen).lt_iff Expr.holds_productBelow]
  push_cast at hseed
  linarith [two_zpow_pos (-32)]

/-! ## Channels -/

namespace Avatar

/-- **Seeds below 40 give no dark pixel.** On an accepted canvas, the plane of such a seed has no
byte below 128, under every policy and in every order of work. In the avatar of an accepted
identifier this is so for every channel whose third has a mean weight greater than 10, whether the
mean is compared before or after rounding. -/
theorem channels_bright (trig : Trig) (ht : trig.Bounded) :
    (∀ seed : Float, seed < 40 → ∀ (halfSize : UInt32) (c : Canvas),
      Canvas.ofHalfSize halfSize = .ok c → ∀ (policy : Policy) (execution : Execution),
        ∃ plane : Plane, rasterizeOn trig (Expr.grow seed) c policy execution = .ok plane ∧
          plane.bytes.size = 2 * halfSize.toNat * (2 * halfSize.toNat) ∧ plane.Bright) ∧
    ∀ (interleaving : Interleaving) (identifier : String) (o : Options), o.Accepted →
      3 ≤ (lowercaseOf identifier).length → (lowercaseOf identifier).length < 2 ^ 32 →
      ∃ a : Avatar, renderUnder interleaving trig identifier o = .ok a ∧
        ∀ (channel : Channel) (third : List Char),
          (thirds (lowercaseOf identifier)).get channel = third →
          (10 < meanWeight third ↔ 10 < exactMean third) ∧
          (10 < exactMean third →
            (a.planes.get channel).Bright ∧ a.image.BrightIn channel) := by
  constructor
  · intro seed hseed halfSize c hc policy execution
    obtain ⟨rfl, hvalid⟩ := Canvas.ofHalfSize_eq_ok_iff.mp hc
    have hsize : (c.planeOf trig (Expr.grow seed)).bytes.size =
        2 * c.halfSize.toNat * (2 * c.halfSize.toNat) := by
      rw [Canvas.planeOf, size_squareOf, hvalid.toNat_side]
    exact ⟨_, rasterizeOn_eq hvalid ht _ policy execution, hsize,
      Canvas.bright_planeOf hvalid ht hseed⟩
  · intro interleaving identifier o ho hlong hlen
    refine ⟨_, renderUnder_of_accepted ht ho hlong, ?_⟩
    rintro channel third rfl
    have hpart := thirds_ne_nil hlong channel
    have hpartLen := (length_thirds_le _ channel).trans_lt hlen
    refine ⟨lt_meanWeight_iff holds_ten hpart hpartLen (by norm_num), ?_⟩
    intro hmean
    set seeds := Seeds.ofParts (thirds (lowercaseOf identifier)) with hseeds
    have hseed : seeds.get channel < Rule.productBelow := by
      rw [hseeds, Seeds.get_ofParts]
      exact seed_lt_productBelow hpart hpartLen hmean
    have hplane : ((planesOf trig seeds o.canvas).get channel).Bright := by
      rw [planesOf, Channels.get_map]
      exact Canvas.bright_planeOf ho.valid ht hseed
    exact ⟨hplane, (mergeable_planesOf trig seeds o.canvas).brightIn hplane⟩

/-- Two of the three letters weigh enough, and the seed of a product is far below 40. -/
theorem channels_bright_azz :
    (∃ plane : Plane, rasterizeOn .coarse (Expr.grow (-1)) ⟨1⟩ .strict .sequential = .ok plane ∧
      plane.bytes.size = 4 ∧ plane.Bright) ∧
    ∃ a : Avatar, renderUnder (.ofWorkers 2) .coarse "Azz" ⟨1, .wrap, true, none⟩ = .ok a ∧
      a.image.BrightIn .green ∧ a.image.BrightIn .blue := by
  obtain ⟨hplane, havatar⟩ := channels_bright .coarse Trig.coarse_bounded
  have hlower : lowercaseOf "Azz" = "azz".toList := by decide +kernel
  have hmean : 10 < exactMean ['z'] := by decide +kernel
  obtain ⟨a, ha, hbright⟩ := havatar (.ofWorkers 2) "Azz" ⟨1, .wrap, true, none⟩
    ⟨by decide, by decide⟩ (by rw [hlower]; decide) (by rw [hlower]; decide)
  rw [hlower] at hbright
  exact ⟨hplane (-1) (by decide +kernel) 1 ⟨1⟩ rfl .strict .sequential, a, ha,
    ((hbright .green ['z'] rfl).2 hmean).2, ((hbright .blue ['z'] rfl).2 hmean).2⟩

end Avatar

end Identicon
