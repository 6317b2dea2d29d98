import Identicon.Proofs.Resolution
import Identicon.Proofs.Thirds

/-!
# Channels apart

A channel of an avatar is made from one third of the identifier: from the mean weight of its
characters comes the seed, from the seed the expression, and from the expression the plane. The
order of the characters is lost in the mean, and what the other two thirds hold, or how long they
are, is not looked at on the way. The image keeps the channels apart as well, since each has a byte
of its own in every pixel.

## Main definitions

* `Avatar.AgreeOn`: two avatars are the same as far as one channel can show.
-/

namespace Identicon

variable {part part' : List Char} {parts parts' : Channels (List Char)}

/-! ## Seeds -/

/-- The mean weight of a part does not depend on the order of its characters. -/
theorem meanWeight_perm (h : part.Perm part') : meanWeight part = meanWeight part' := by
  rw [meanWeight, meanWeight, ← List.sum_eq_foldl, ← List.sum_eq_foldl, h.length_eq,
    (h.map charWeight).sum_eq]

/-- The seed of a channel is made from its third alone. -/
theorem Seeds.get_eq_of_perm {identifier identifier' : String} {seeds seeds' : Seeds}
    (h : derive identifier = .ok seeds) (h' : derive identifier' = .ok seeds')
    (hparts : InThirds (lowercaseOf identifier) parts)
    (hparts' : InThirds (lowercaseOf identifier') parts') {channel : Channel}
    (hperm : (parts.get channel).Perm (parts'.get channel)) :
    seeds.get channel = seeds'.get channel := by
  rw [(derive_eq_ok_iff.mp h).2, (derive_eq_ok_iff.mp h').2, get_ofParts, get_ofParts,
    ← hparts.eq_thirds, ← hparts'.eq_thirds, meanWeight_perm hperm]

/-! ## Images -/

/-- Images whose planes agree on a channel have the same byte of it in each pixel. -/
theorem Mergeable.exists_byte_of_get_eq {planes planes' : Channels Plane} {width height : ℕ}
    (h : Mergeable planes width height) (h' : Mergeable planes' width height) {channel : Channel}
    (hplane : planes.get channel = planes'.get channel) {px py : ℕ} (hpx : px < width)
    (hpy : py < height) :
    ∃ byte : UInt8,
      (mergedBytes planes)[3 * (py * width + px) + channel.index]? = some byte ∧
      (mergedBytes planes')[3 * (py * width + px) + channel.index]? = some byte := by
  have hbyte := Array.getElem?_eq_getElem (h.place_lt hpx hpy channel)
  refine ⟨_, h.getElem?_mergedBytes_of_eq_some hbyte, ?_⟩
  exact h'.getElem?_mergedBytes_of_eq_some (hplane ▸ hbyte)

namespace Avatar

variable {trig : Trig} {seeds seeds' : Seeds} {c : Canvas} {policy : Policy} {channel : Channel}

/-! ## Avatars -/

/-- The avatar of three seeds under a policy that has a byte for every pixel. -/
def ofSeedsUnder (trig : Trig) (seeds : Seeds) (c : Canvas) (policy : Policy) : Avatar where
  seeds := seeds
  expressions := (channelsUnder trig seeds c policy).map (·.1)
  planes := (channelsUnder trig seeds c policy).map (·.2)
  image := imageUnder trig seeds c policy

/-- Accepted options and an accepted identifier are enough for an avatar. The sine and cosine matter
to the strict policy only. -/
theorem renderUnder_eq_ofSeedsUnder {identifier : String} {o : Options}
    (interleaving : Interleaving) (ho : o.Accepted) (ht : o.policy = .strict → trig.Bounded)
    (hseeds : Seeds.derive identifier = .ok seeds) :
    renderUnder interleaving trig identifier o =
      .ok (ofSeedsUnder trig seeds o.canvas o.policy) := by
  rw [renderUnder_eq_assemble ho hseeds (renderChannel_channelsUnder ho.valid ht seeds), assemble,
    (mergeable_channelsUnder trig seeds o.canvas o.policy).mergePlanes_eq]
  rfl

/-- Nothing that a channel shows is different: its seed, its expression, its plane, and its byte of
each pixel of the image. -/
structure AgreeOn (a b : Avatar) (channel : Channel) : Prop where
  seed_eq : a.seeds.get channel = b.seeds.get channel
  expression_eq : a.expressions.get channel = b.expressions.get channel
  plane_eq : a.planes.get channel = b.planes.get channel
  width_eq : a.image.width = b.image.width
  height_eq : a.image.height = b.image.height
  byte : ∀ px < a.image.width, ∀ py < a.image.height, ∃ byte : UInt8,
    a.image.bytes[3 * (py * a.image.width + px) + channel.index]? = some byte ∧
    b.image.bytes[3 * (py * b.image.width + px) + channel.index]? = some byte

theorem width_ofSeedsUnder (trig : Trig) (seeds : Seeds) (c : Canvas) (policy : Policy) :
    (ofSeedsUnder trig seeds c policy).image.width = c.side.toNat := rfl

theorem height_ofSeedsUnder (trig : Trig) (seeds : Seeds) (c : Canvas) (policy : Policy) :
    (ofSeedsUnder trig seeds c policy).image.height = c.side.toNat := rfl

/-- What is made of a seed is the same whatever the other seeds are. -/
theorem agreeOn_ofSeedsUnder (h : seeds.get channel = seeds'.get channel) :
    (ofSeedsUnder trig seeds c policy).AgreeOn (ofSeedsUnder trig seeds' c policy) channel := by
  have hchannel : (channelsUnder trig seeds c policy).get channel =
      (channelsUnder trig seeds' c policy).get channel := by
    rw [channelsUnder, channelsUnder, Channels.get_map, Channels.get_map, h]
  have hplane : ((channelsUnder trig seeds c policy).map (·.2)).get channel =
      ((channelsUnder trig seeds' c policy).map (·.2)).get channel := by
    rw [Channels.get_map, Channels.get_map, hchannel]
  refine ⟨h, ?_, hplane, ?_, ?_, ?_⟩
  · show ((channelsUnder trig seeds c policy).map (·.1)).get channel =
      ((channelsUnder trig seeds' c policy).map (·.1)).get channel
    rw [Channels.get_map, Channels.get_map, hchannel]
  · rw [width_ofSeedsUnder, width_ofSeedsUnder]
  · rw [height_ofSeedsUnder, height_ofSeedsUnder]
  · rw [width_ofSeedsUnder, width_ofSeedsUnder, height_ofSeedsUnder]
    intro px hpx py hpy
    exact (mergeable_channelsUnder trig seeds c policy).exists_byte_of_get_eq
      (mergeable_channelsUnder trig seeds' c policy) hplane hpx hpy

/-- **A channel sees the characters of its own third and not their order.** If a third of one
identifier has the characters of the same third of another, then their avatars agree on the channel
of that third, whatever the other thirds are and however long they are. Sine and cosine have to be
bounded for the strict policy only. -/
theorem agreeOn_of_perm (trig : Trig) (interleaving interleaving' : Interleaving)
    (identifier identifier' : String) (o : Options) (ho : o.Accepted)
    (ht : o.policy = .strict → trig.Bounded) (seeds seeds' : Seeds)
    (hseeds : Seeds.derive identifier = .ok seeds) (hseeds' : Seeds.derive identifier' = .ok seeds')
    (parts parts' : Channels (List Char)) (hparts : InThirds (lowercaseOf identifier) parts)
    (hparts' : InThirds (lowercaseOf identifier') parts') (channel : Channel)
    (hperm : (parts.get channel).Perm (parts'.get channel)) :
    ∃ a b : Avatar,
      renderUnder interleaving trig identifier o = .ok a ∧
      renderUnder interleaving' trig identifier' o = .ok b ∧
      a.AgreeOn b channel := by
  have hseed := Seeds.get_eq_of_perm hseeds hseeds' hparts hparts' hperm
  exact ⟨_, _, renderUnder_eq_ofSeedsUnder interleaving ho ht hseeds,
    renderUnder_eq_ofSeedsUnder interleaving' ho ht hseeds', agreeOn_ofSeedsUnder hseed⟩

/-- The middle third of two identifiers of different lengths. -/
theorem agreeOn_of_perm_abba :
    ∃ a b : Avatar,
      renderUnder (.ofWorkers 2) .coarse "xyabzw" ⟨1, .strict, true, none⟩ = .ok a ∧
      renderUnder (.ofWorkers 3) .coarse "00BA1111" ⟨1, .strict, true, none⟩ = .ok b ∧
      a.AgreeOn b .green := by
  have hlower : lowercaseOf "xyabzw" = "xyabzw".toList := by decide +kernel
  have hlower' : lowercaseOf "00BA1111" = "00ba1111".toList := by decide +kernel
  refine agreeOn_of_perm .coarse (.ofWorkers 2) (.ofWorkers 3) "xyabzw" "00BA1111"
    ⟨1, .strict, true, none⟩ ⟨by decide, by decide⟩ (fun _ => Trig.coarse_bounded) _ _
    (Seeds.derive_of_long (by rw [hlower]; decide)) (Seeds.derive_of_long (by rw [hlower']; decide))
    ⟨"xy".toList, "ab".toList, "zw".toList⟩ ⟨"00".toList, "ba".toList, "1111".toList⟩ ?_ ?_
    .green ?_
  · rw [hlower]
    exact ⟨rfl, rfl, rfl⟩
  · rw [hlower']
    exact ⟨rfl, rfl, rfl⟩
  · decide

end Avatar

end Identicon
