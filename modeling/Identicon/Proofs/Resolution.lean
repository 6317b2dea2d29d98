import Identicon.Proofs.Avatar

/-!
# Resolution

A canvas with `k` times as many pixels per unit has a pixel in the place of every pixel of the
coarser one, in every `k`th column and row. The two have the same point bit for bit
(`Canvas.toUnit_scale`), and the byte of a pixel depends on its point alone. Planes and images are
therefore the same in these places, for all functions in the place of sine and cosine.

## Main definitions

* `Plane.Refines`, `Image.Refines`: every `k`th pixel is the pixel of a coarser plane or image.
* `Avatar.channelsUnder`, `Avatar.imageUnder`: the channels and the image of three seeds under a
  policy that has a byte for every pixel. Sine and cosine need no bounds then.
-/

namespace Identicon

variable {trig : Trig} {e : Expr} {policy : Policy} {c c' : Canvas} {k px py : ℕ}

/-- Of the pixels of the fine plane, every `k`th across and down is a pixel of the coarse one. -/
structure Plane.Refines (fine coarse : Plane) (k : ℕ) : Prop where
  width_eq : fine.width = k * coarse.width
  height_eq : fine.height = k * coarse.height
  pixel : ∀ px < coarse.width, ∀ py < coarse.height, ∃ b : UInt8,
    coarse.bytes[py * coarse.width + px]? = some b ∧
    fine.bytes[k * py * fine.width + k * px]? = some b

/-- Of the pixels of the fine image, every `k`th across and down is a pixel of the coarse one. -/
structure Image.Refines (fine coarse : Image) (k : ℕ) : Prop where
  width_eq : fine.width = k * coarse.width
  height_eq : fine.height = k * coarse.height
  pixel : ∀ channel : Channel, ∀ px < coarse.width, ∀ py < coarse.height, ∃ b : UInt8,
    coarse.bytes[3 * (py * coarse.width + px) + channel.index]? = some b ∧
    fine.bytes[3 * (k * py * fine.width + k * px) + channel.index]? = some b

namespace Canvas

/-- The pixels in the same place of two canvases have the same value. -/
theorem valueAt_scale (hc : c.Valid) (hk : 0 < k)
    (hh : c'.halfSize.toNat = k * c.halfSize.toNat) (hpx : px < c.side.toNat)
    (hpy : py < c.side.toNat) (hpx' : k * px < c'.side.toNat) (hpy' : k * py < c'.side.toNat) :
    c'.valueAt trig e (k * px) (k * py) = c.valueAt trig e px py := by
  have hpoint : c'.toUnit (k * px).toUInt32 (k * py).toUInt32 =
      c.toUnit px.toUInt32 py.toUInt32 := by
    apply toUnit_scale hk hc.1 hh
    · rw [toNat_toUInt32 hpx', toNat_toUInt32 hpx]
    · rw [toNat_toUInt32 hpy', toNat_toUInt32 hpy]
  rw [valueAt, valueAt, hpoint]

theorem toNat_side_scale (hc : c.Valid) (hc' : c'.Valid)
    (hh : c'.halfSize.toNat = k * c.halfSize.toNat) : c'.side.toNat = k * c.side.toNat := by
  rw [hc'.toNat_side, hc.toNat_side, hh, Nat.mul_left_comm]

theorem planeUnder_refines (hc : c.Valid) (hc' : c'.Valid) (hk : 0 < k)
    (hh : c'.halfSize.toNat = k * c.halfSize.toNat) :
    (c'.planeUnder trig e policy).Refines (c.planeUnder trig e policy) k := by
  have hside := toNat_side_scale hc hc' hh
  refine ⟨hside, hside, ?_⟩
  intro px hpx py hpy
  have hpx' : k * px < c'.side.toNat := by
    rw [hside]
    exact Nat.mul_lt_mul_of_pos_left hpx hk
  have hpy' : k * py < c'.side.toNat := by
    rw [hside]
    exact Nat.mul_lt_mul_of_pos_left hpy hk
  refine ⟨_, getElem?_squareOf hpy hpx, ?_⟩
  rw [← valueAt_scale hc hk hh hpx hpy hpx' hpy']
  exact getElem?_squareOf hpy' hpx'

end Canvas

/-- The image of finer planes is finer. -/
theorem Mergeable.refines {fine coarse : Channels Plane} {width height : ℕ}
    (hfine : Mergeable fine (k * width) (k * height)) (hcoarse : Mergeable coarse width height)
    (h : ∀ channel, (fine.get channel).Refines (coarse.get channel) k) :
    (⟨k * width, k * height, mergedBytes fine⟩ : Image).Refines
      ⟨width, height, mergedBytes coarse⟩ k := by
  refine ⟨rfl, rfl, ?_⟩
  intro channel px hpx py hpy
  have hpixel := (h channel).pixel
  rw [hcoarse.width_eq, hcoarse.height_eq, hfine.width_eq] at hpixel
  obtain ⟨b, hb, hb'⟩ := hpixel px hpx py hpy
  exact ⟨b, hcoarse.getElem?_mergedBytes_of_eq_some hb, hfine.getElem?_mergedBytes_of_eq_some hb'⟩

/-! ## Planes and images of a half size -/

variable {h : ℕ}

theorem toNat_toUInt32_of_le (hle : h ≤ 4096) : h.toUInt32.toNat = h :=
  UInt32.toNat_ofNat_of_lt' (hle.trans_lt (by decide))

theorem Canvas.valid_of_le (h1 : 1 ≤ h) (hle : h ≤ 4096) :
    (⟨h.toUInt32⟩ : Canvas).Valid := by
  constructor
  · intro h0
    have hzero : h.toUInt32.toNat = 0 := congrArg UInt32.toNat h0
    rw [toNat_toUInt32_of_le hle] at hzero
    omega
  · rw [UInt32.le_iff_toNat_le, toNat_toUInt32_of_le hle]
    exact hle

theorem Canvas.toNat_side_of_le (h1 : 1 ≤ h) (hle : h ≤ 4096) :
    (⟨h.toUInt32⟩ : Canvas).side.toNat = 2 * h := by
  rw [(valid_of_le h1 hle).toNat_side, toNat_toUInt32_of_le hle]

theorem rasterize_eq_planeUnder (h1 : 1 ≤ h) (hle : h ≤ 4096) :
    rasterize trig e h.toUInt32 = .ok ((⟨h.toUInt32⟩ : Canvas).planeUnder trig e .clamp) := by
  have hc := Canvas.valid_of_le h1 hle
  rw [rasterize, Canvas.ofHalfSize_eq_ok_iff.mpr ⟨rfl, hc⟩, liftM_ok_bind]
  exact rasterizeOn_eq_planeUnder hc (by nofun) .sequential

namespace Avatar

variable {identifier : String} {seeds : Seeds}

/-- What the channels of an avatar are made of, under a policy that has a byte for every pixel. -/
def channelsUnder (trig : Trig) (seeds : Seeds) (c : Canvas) (policy : Policy) :
    Channels (String × Plane) :=
  seeds.map fun seed => ((Expr.grow seed).display, c.planeUnder trig (Expr.grow seed) policy)

/-- The image of these channels. -/
def imageUnder (trig : Trig) (seeds : Seeds) (c : Canvas) (policy : Policy) : Image :=
  ⟨c.side.toNat, c.side.toNat, mergedBytes ((channelsUnder trig seeds c policy).map (·.2))⟩

theorem get_planes_channelsUnder (trig : Trig) (seeds : Seeds) (c : Canvas) (policy : Policy)
    (channel : Channel) :
    ((channelsUnder trig seeds c policy).map (·.2)).get channel =
      c.planeUnder trig (Expr.grow (seeds.get channel)) policy := by
  rw [Channels.get_map, channelsUnder, Channels.get_map]

theorem renderChannel_channelsUnder (hc : c.Valid) (ht : policy = .strict → trig.Bounded)
    (seeds : Seeds) (channel : Channel) (execution : Execution) :
    renderChannel trig (seeds.get channel) c policy execution =
      .ok ((channelsUnder trig seeds c policy).get channel) := by
  rw [channelsUnder, Channels.get_map]
  exact renderChannel_eq_ok (rasterizeOn_eq_planeUnder hc ht execution)

theorem mergeable_channelsUnder (trig : Trig) (seeds : Seeds) (c : Canvas) (policy : Policy) :
    Mergeable ((channelsUnder trig seeds c policy).map (·.2)) c.side.toNat c.side.toNat :=
  mergeable_of_squareOf (get_planes_channelsUnder trig seeds c policy)

/-- A half size in range and seeds are enough for an image, whatever the sine and cosine do. -/
theorem imageOfSize_eq_imageUnder (h1 : 1 ≤ h) (hle : h ≤ 4096)
    (hseeds : Seeds.derive identifier = .ok seeds) :
    imageOfSize trig identifier h.toUInt32 =
      .ok (imageUnder trig seeds ⟨h.toUInt32⟩ .clamp) := by
  have hc := Canvas.valid_of_le h1 hle
  have ho : Options.Accepted { halfSize := h.toUInt32 } := by
    refine ⟨⟨?_, hc.2⟩, nofun⟩
    rw [UInt32.le_iff_toNat_le, toNat_toUInt32_of_le hle]
    exact h1
  rw [imageOfSize, render, renderUnder_eq_assemble ho hseeds
    (renderChannel_channelsUnder hc (by nofun) seeds), assemble,
    (mergeable_channelsUnder trig seeds ⟨h.toUInt32⟩ .clamp).mergePlanes_eq]
  rfl

theorem imageUnder_refines (hc : c.Valid) (hc' : c'.Valid) (hk : 0 < k)
    (hh : c'.halfSize.toNat = k * c.halfSize.toNat) :
    (imageUnder trig seeds c' policy).Refines (imageUnder trig seeds c policy) k := by
  have hside := Canvas.toNat_side_scale hc hc' hh
  have hfine := mergeable_channelsUnder trig seeds c' policy
  rw [imageUnder, imageUnder, hside]
  rw [hside] at hfine
  apply hfine.refines (mergeable_channelsUnder trig seeds c policy)
  intro channel
  rw [get_planes_channelsUnder, get_planes_channelsUnder]
  exact Canvas.planeUnder_refines hc hc' hk hh

/-- **The images of an identifier agree where they have pixels in the same place**: every `k`th
pixel across and down is the pixel of the image with a `k`th of the half size. So it is for the
planes of all expressions. -/
theorem imageOfSize_refines (trig : Trig) (h k : ℕ) (hh : 1 ≤ h) (hk : 1 ≤ k)
    (hle : k * h ≤ 4096) :
    (∀ (identifier : String) (seeds : Seeds), Seeds.derive identifier = .ok seeds →
      ∃ coarse fine : Image,
        imageOfSize trig identifier h.toUInt32 = .ok coarse ∧
        imageOfSize trig identifier (k * h).toUInt32 = .ok fine ∧
        coarse.width = 2 * h ∧ coarse.height = 2 * h ∧ fine.Refines coarse k) ∧
    ∀ e : Expr, ∃ coarse fine : Plane,
      rasterize trig e h.toUInt32 = .ok coarse ∧
      rasterize trig e (k * h).toUInt32 = .ok fine ∧
      coarse.width = 2 * h ∧ coarse.height = 2 * h ∧ fine.Refines coarse k := by
  have hle' : h ≤ 4096 := (Nat.le_mul_of_pos_left h hk).trans hle
  have h1 : 1 ≤ k * h := Nat.mul_pos hk hh
  have hc := Canvas.valid_of_le hh hle'
  have hc' := Canvas.valid_of_le h1 hle
  have hside := Canvas.toNat_side_of_le hh hle'
  have hscale : (k * h).toUInt32.toNat = k * h.toUInt32.toNat := by
    rw [toNat_toUInt32_of_le hle, toNat_toUInt32_of_le hle']
  constructor
  · intro identifier seeds hseeds
    exact ⟨_, _, imageOfSize_eq_imageUnder hh hle' hseeds, imageOfSize_eq_imageUnder h1 hle hseeds,
      hside, hside, imageUnder_refines hc hc' hk hscale⟩
  · intro e
    exact ⟨_, _, rasterize_eq_planeUnder hh hle', rasterize_eq_planeUnder h1 hle, hside, hside,
      Canvas.planeUnder_refines hc hc' hk hscale⟩

/-- The smallest image of an identifier in one twice as large. -/
theorem imageOfSize_refines_abc :
    ∃ coarse fine : Image,
      imageOfSize .coarse "abc" 1 = .ok coarse ∧ imageOfSize .coarse "abc" 2 = .ok fine ∧
      coarse.width = 2 ∧ coarse.height = 2 ∧ fine.Refines coarse 2 := by
  have hlong : 3 ≤ (lowercaseOf "abc").length := by decide +kernel
  exact (imageOfSize_refines .coarse 1 2 (by decide) (by decide) (by decide)).1 "abc" _
    (Seeds.derive_of_long hlong)

end Avatar

end Identicon
