import Identicon.Avatar
import Identicon.Proofs.Channels
import Identicon.Proofs.Merging
import Identicon.Proofs.Raster
import Identicon.Proofs.Seeds

/-!
# Avatars of identifiers

From end to end: options are checked first and identifiers second, and when both are accepted
nothing that follows can fail. The seeds then grow expressions, whose planes are known pixel by
pixel, and the image has the bytes of the planes. None of this depends on the order in which rows
and channels are worked on.

## Main definitions

* `Options.Accepted`: the options that pass their check.
* `Avatar.ofSeeds`: the avatar of three seeds, which an accepted identifier gets by
  `Avatar.renderUnder_of_accepted`.
* `Avatar.IsDrawnFrom`: what an avatar has to be, byte by byte.
-/

namespace Identicon

open Binary64

/-- The options that are accepted. -/
def Options.Accepted (o : Options) : Prop :=
  (1 ≤ o.halfSize ∧ o.halfSize ≤ 4096) ∧ o.threads ≠ some 0

/-- The canvas that the options ask for. -/
def Options.canvas (o : Options) : Canvas :=
  ⟨o.halfSize⟩

theorem Options.Accepted.valid {o : Options} (h : o.Accepted) : o.canvas.Valid := by
  refine ⟨?_, h.1.2⟩
  intro h0
  have h1 := h.1.1
  simp only [Options.canvas] at h0
  rw [h0] at h1
  exact absurd h1 (by decide)

theorem Options.validate_of_accepted {o : Options} (h : o.Accepted) : o.validate = .ok () := by
  have hc : Canvas.ofHalfSize o.halfSize = .ok o.canvas :=
    Canvas.ofHalfSize_eq_ok_iff.mpr ⟨rfl, h.valid⟩
  rw [Options.validate, hc]
  exact if_neg h.2

/-- Options that are not accepted are told as such. -/
theorem Options.validate_of_not_accepted {o : Options} (h : ¬ o.Accepted) :
    ∃ reason : Error, o.validate = .error reason ∧ reason.kind = .validation := by
  rw [Options.validate, Canvas.ofHalfSize]
  by_cases h0 : o.halfSize = 0
  · exact ⟨.zeroHalfSize, by rw [if_pos h0]; rfl, rfl⟩
  rw [if_neg h0]
  by_cases hlarge : Error.greatestHalfSize < o.halfSize
  · exact ⟨.largeHalfSize o.halfSize, by rw [if_pos hlarge]; rfl, rfl⟩
  rw [if_neg hlarge]
  have hthreads : o.threads = some 0 := by
    by_contra hne
    apply h
    refine ⟨⟨?_, ?_⟩, hne⟩
    · rw [UInt32.le_iff_toNat_le]
      exact Canvas.toNat_halfSize_pos (c := o.canvas) h0
    · exact UInt32.not_lt.mp hlarge
  exact ⟨.zeroThreads, by rw [if_pos hthreads]; rfl, rfl⟩

namespace Avatar

variable {trig : Trig} {c : Canvas}

theorem renderChannel_eq_ok {seed : Float} {policy : Policy} {execution : Execution} {plane : Plane}
    (h : rasterizeOn trig (Expr.grow seed) c policy execution = .ok plane) :
    renderChannel trig seed c policy execution = .ok ((Expr.grow seed).display, plane) := by
  rw [renderChannel, h]
  rfl

theorem fst_of_renderChannel_eq_ok {seed : Float} {policy : Policy} {execution : Execution}
    {r : String × Plane} (h : renderChannel trig seed c policy execution = .ok r) :
    r.1 = (Expr.grow seed).display := by
  obtain ⟨plane, -, h⟩ := exists_of_bind_eq_ok h
  cases h
  rfl

/-- What the channels of an avatar are made of. -/
def channelsOf (trig : Trig) (seeds : Seeds) (c : Canvas) : Channels (String × Plane) :=
  seeds.map fun seed => ((Expr.grow seed).display, c.planeOf trig (Expr.grow seed))

theorem renderChannel_channelsOf (hc : c.Valid) (ht : trig.Bounded) (seeds : Seeds)
    (policy : Policy) (channel : Channel) (execution : Execution) :
    renderChannel trig (seeds.get channel) c policy execution =
      .ok ((channelsOf trig seeds c).get channel) := by
  rw [channelsOf, Channels.get_map]
  exact renderChannel_eq_ok (rasterizeOn_eq hc ht _ policy execution)

section Join

variable {seeds : Seeds} {policy : Policy} {channels : Channels (String × Plane)}

/-- If no channel fails, what they become does not depend on how they are worked on: one after the
other, or all at the same time. -/
theorem renderChannels_eq
    (h : ∀ channel execution, renderChannel trig (seeds.get channel) c policy execution =
      .ok (channels.get channel)) :
    renderChannels trig seeds c policy = .ok channels := by
  apply Channels.sequence_eq_ok
  intro channel
  rw [Channels.get_map, h]

theorem renderChannelsUnder_eq
    (h : ∀ channel execution, renderChannel trig (seeds.get channel) c policy execution =
      .ok (channels.get channel)) (interleaving : Interleaving) :
    renderChannelsUnder interleaving trig seeds c policy = .ok channels := by
  rw [renderChannelsUnder, Channel.join_eq]
  apply Channels.sequence_eq_ok
  intro channel
  rw [Channels.get_ofFn, h]

theorem get_of_renderChannels_eq_ok (h : renderChannels trig seeds c policy = .ok channels)
    (channel : Channel) :
    renderChannel trig (seeds.get channel) c policy .sequential = .ok (channels.get channel) := by
  have hget := Channels.get_of_sequence_eq_ok h channel
  rwa [Channels.get_map] at hget

theorem get_of_renderChannelsUnder_eq_ok {interleaving : Interleaving}
    (h : renderChannelsUnder interleaving trig seeds c policy = .ok channels) (channel : Channel) :
    renderChannel trig (seeds.get channel) c policy
      (.parallel (interleaving.rows channel c.side.toNat)) = .ok (channels.get channel) := by
  rw [renderChannelsUnder, Channel.join_eq] at h
  have hget := Channels.get_of_sequence_eq_ok h channel
  rwa [Channels.get_ofFn] at hget

end Join

/-- The planes of an avatar. -/
def planesOf (trig : Trig) (seeds : Seeds) (c : Canvas) : Channels Plane :=
  seeds.map fun seed => c.planeOf trig (Expr.grow seed)

theorem mergeable_planesOf (trig : Trig) (seeds : Seeds) (c : Canvas) :
    Mergeable (planesOf trig seeds c) c.side.toNat c.side.toNat :=
  mergeable_of_squareOf (Channels.get_map _ seeds)

/-- The avatar of three seeds on a canvas. -/
def ofSeeds (trig : Trig) (seeds : Seeds) (c : Canvas) : Avatar where
  seeds := seeds
  expressions := seeds.map fun seed => (Expr.grow seed).display
  planes := planesOf trig seeds c
  image := ⟨c.side.toNat, c.side.toNat, mergedBytes (planesOf trig seeds c)⟩

/-- What is left to do when the channels are there. -/
def assemble (seeds : Seeds) (channels : Channels (String × Plane)) : Except Failure Avatar := do
  let image ← mergePlanes (channels.map (·.2))
  return ⟨seeds, channels.map (·.1), channels.map (·.2), image⟩

/-- The planes of one canvas have the same size, so that they merge. -/
theorem assemble_eq (trig : Trig) (seeds : Seeds) (c : Canvas) :
    assemble seeds (channelsOf trig seeds c) = .ok (ofSeeds trig seeds c) := by
  have hmerge : mergePlanes ((channelsOf trig seeds c).map (·.2)) = _ :=
    (mergeable_planesOf trig seeds c).mergePlanes_eq
  rw [assemble, hmerge]
  rfl

section Render

variable {interleaving : Interleaving} {identifier : String} {o : Options}

theorem renderUnder_of_validate_eq_error {reason : Error} (h : o.validate = .error reason) :
    renderUnder interleaving trig identifier o = .error (.error reason) := by
  rw [renderUnder, h]
  rfl

/-- Options are checked before the identifier is looked at. -/
theorem renderUnder_of_not_accepted (h : ¬ o.Accepted) :
    ∃ reason : Error,
      renderUnder interleaving trig identifier o = .error (.error reason) ∧
        reason.kind = .validation := by
  obtain ⟨reason, hvalidate, hkind⟩ := Options.validate_of_not_accepted h
  exact ⟨reason, renderUnder_of_validate_eq_error hvalidate, hkind⟩

theorem renderUnder_of_short (h : o.Accepted) (hshort : (lowercaseOf identifier).length < 3) :
    renderUnder interleaving trig identifier o =
      .error (.error (.shortIdentifier identifier (lowercaseOf identifier).length)) := by
  have hc : Canvas.ofHalfSize o.halfSize = .ok o.canvas :=
    Canvas.ofHalfSize_eq_ok_iff.mpr ⟨rfl, h.valid⟩
  rw [renderUnder, Options.validate_of_accepted h, hc, Seeds.derive_of_short hshort]
  rfl

/-- Accepted options and seeds leave the channels and what is made of them. -/
theorem renderUnder_eq_assemble {seeds : Seeds} {channels : Channels (String × Plane)}
    (h : o.Accepted) (hseeds : Seeds.derive identifier = .ok seeds)
    (hchannels : ∀ channel execution,
      renderChannel trig (seeds.get channel) o.canvas o.policy execution =
        .ok (channels.get channel)) :
    renderUnder interleaving trig identifier o = assemble seeds channels := by
  have hc : Canvas.ofHalfSize o.halfSize = .ok o.canvas :=
    Canvas.ofHalfSize_eq_ok_iff.mpr ⟨rfl, h.valid⟩
  rw [renderUnder, Options.validate_of_accepted h, hc, hseeds]
  -- both ways to work on the channels end in the same channels
  show (if o.parallel = true then
      renderChannelsUnder interleaving trig seeds o.canvas o.policy >>= assemble seeds
    else renderChannels trig seeds o.canvas o.policy >>= assemble seeds) = _
  rw [renderChannelsUnder_eq hchannels, renderChannels_eq hchannels, ite_self]
  rfl

/-- With accepted options, an identifier that is long enough gets the avatar of its seeds, in
whatever order the work is done. -/
theorem renderUnder_of_accepted (ht : trig.Bounded) (h : o.Accepted)
    (hlong : 3 ≤ (lowercaseOf identifier).length) :
    renderUnder interleaving trig identifier o =
      .ok (ofSeeds trig (.ofParts (thirds (lowercaseOf identifier))) o.canvas) := by
  rw [renderUnder_eq_assemble h (Seeds.derive_of_long hlong)
    (renderChannel_channelsOf h.valid ht _ o.policy)]
  exact assemble_eq trig _ o.canvas

/-- Whatever the sine and cosine do, an avatar that comes out tells the expressions of its seeds. -/
theorem get_expressions_of_renderUnder_eq_ok {a : Avatar}
    (h : renderUnder interleaving trig identifier o = .ok a) (channel : Channel) :
    a.expressions.get channel = (Expr.grow (a.seeds.get channel)).display := by
  obtain ⟨-, -, h⟩ := exists_of_liftM_bind_eq_ok h
  obtain ⟨c, -, h⟩ := exists_of_liftM_bind_eq_ok h
  obtain ⟨seeds, -, h⟩ := exists_of_liftM_bind_eq_ok h
  have hchannels : ∃ channels, assemble seeds channels = .ok a ∧
      (channels.get channel).1 = (Expr.grow (seeds.get channel)).display := by
    dsimp only at h
    split at h
    · obtain ⟨channels, hjoin, h⟩ := exists_of_bind_eq_ok h
      have hget := get_of_renderChannelsUnder_eq_ok hjoin channel
      exact ⟨channels, h, fst_of_renderChannel_eq_ok hget⟩
    · obtain ⟨channels, hjoin, h⟩ := exists_of_bind_eq_ok h
      have hget := get_of_renderChannels_eq_ok hjoin channel
      exact ⟨channels, h, fst_of_renderChannel_eq_ok hget⟩
  obtain ⟨channels, h, hfst⟩ := hchannels
  obtain ⟨image, -, h⟩ := exists_of_liftM_bind_eq_ok h
  cases h
  rw [Channels.get_map]
  exact hfst

/-! ## Every byte -/

/-- What an avatar has to be, given its seeds and half size. The three bytes of a pixel stand next
to each other in the order red, green, blue, and each is the value of an expression at the point of
the pixel, scaled, and rounded with ties away from zero. -/
structure IsDrawnFrom (a : Avatar) (trig : Trig) (seeds : Seeds) (halfSize : UInt32) : Prop where
  seeds_eq : a.seeds = seeds
  image_size : a.image.width = 2 * halfSize.toNat ∧ a.image.height = 2 * halfSize.toNat ∧
    a.image.bytes.size = 3 * (2 * halfSize.toNat * (2 * halfSize.toNat))
  plane_size : ∀ channel, (a.planes.get channel).width = 2 * halfSize.toNat ∧
    (a.planes.get channel).height = 2 * halfSize.toNat ∧
    (a.planes.get channel).bytes.size = 2 * halfSize.toNat * (2 * halfSize.toNat)
  expression_eq : ∀ channel,
    a.expressions.get channel = (Expr.grow (seeds.get channel)).display
  byte : ∀ channel, ∀ px < 2 * halfSize.toNat, ∀ py < 2 * halfSize.toNat, ∃ b : UInt8,
    a.image.bytes[3 * (py * (2 * halfSize.toNat) + px) + channel.index]? = some b ∧
    (a.planes.get channel).bytes[py * (2 * halfSize.toNat) + px]? = some b ∧
    ∀ x y z : Float, (⟨halfSize⟩ : Canvas).toUnit px.toUInt32 py.toUInt32 = (x, y) →
      (Expr.grow (seeds.get channel)).evaluate trig x y = z →
        (z * 127.5 + 127.5).isFinite = true ∧
          (b.toNat : ℤ) = halfAway (toRat (z * 127.5 + 127.5))

/-- The avatar of three seeds is what it has to be. -/
theorem isDrawnFrom_ofSeeds (ht : trig.Bounded) (hc : c.Valid) (seeds : Seeds) :
    (ofSeeds trig seeds c).IsDrawnFrom trig seeds c.halfSize := by
  have hside := hc.toNat_side
  have hmerge := mergeable_planesOf trig seeds c
  refine ⟨rfl, ?_, ?_, ?_, ?_⟩
  · exact ⟨hside, hside, by rw [← hside]; exact hmerge.size_mergedBytes⟩
  · intro channel
    rw [← hside]
    exact ⟨hmerge.width_eq channel, hmerge.height_eq channel, hmerge.size_eq channel⟩
  · intro channel
    exact Channels.get_map _ seeds channel
  · intro channel px hpx py hpy
    rw [← hside] at hpx hpy ⊢
    have hplane : ((planesOf trig seeds c).get channel).bytes[py * c.side.toNat + px]? =
        some (c.byteAt trig (Expr.grow (seeds.get channel)) px py) := by
      rw [planesOf, Channels.get_map]
      exact getElem?_squareOf hpy hpx
    refine ⟨_, (hmerge.getElem?_mergedBytes (row_mul_add_lt hpy hpx) channel).trans hplane, hplane,
      ?_⟩
    -- the byte is that of the value at the point, which is in range
    rintro x y z hpoint rfl
    have hvalue : c.valueAt trig (Expr.grow (seeds.get channel)) px py =
        (Expr.grow (seeds.get channel)).evaluate trig x y := by
      rw [Canvas.valueAt]
      show Expr.evaluate trig ((⟨c.halfSize⟩ : Canvas).toUnit _ _).1
        ((⟨c.halfSize⟩ : Canvas).toUnit _ _).2 _ = _
      rw [hpoint]
    rw [← hvalue]
    exact ⟨(holds_scaled_of_inUnit (Canvas.inUnit_valueAt hc ht hpx hpy)).isFinite,
      Canvas.toNat_byteAt hc ht hpx hpy⟩

/-- Only accepted options and identifiers get an avatar. -/
theorem accepted_of_renderUnder_eq_ok {a : Avatar}
    (h : renderUnder interleaving trig identifier o = .ok a) :
    o.Accepted ∧ 3 ≤ (lowercaseOf identifier).length := by
  by_contra hnot
  by_cases ho : o.Accepted
  · have hshort : (lowercaseOf identifier).length < 3 := by
      by_contra hlong
      exact hnot ⟨ho, not_lt.mp hlong⟩
    rw [renderUnder_of_short ho hshort] at h
    cases h
  · obtain ⟨reason, herror, -⟩ :
        ∃ reason : Error, renderUnder interleaving trig identifier o = .error (.error reason) ∧ _ :=
      renderUnder_of_not_accepted ho
    rw [herror] at h
    cases h

/-- Nothing but the options and the identifier is ever at fault. -/
theorem kind_of_renderUnder_eq_error (ht : trig.Bounded) {reason : Error}
    (h : renderUnder interleaving trig identifier o = .error (.error reason)) :
    reason.kind = .validation ∨ reason.kind = .identifier := by
  by_cases ho : o.Accepted
  · right
    rcases lt_or_ge (lowercaseOf identifier).length 3 with hshort | hlong
    · rw [renderUnder_of_short ho hshort] at h
      cases h
      rfl
    · rw [renderUnder_of_accepted ht ho hlong] at h
      cases h
  · left
    obtain ⟨reason', herror, hkind⟩ := renderUnder_of_not_accepted (o := o) ho
    rw [herror] at h
    cases h
    exact hkind

/-- Success, the kinds of errors, and every byte of the result. -/
theorem renderUnder_pixel_law (trig : Trig) (ht : trig.Bounded) (interleaving : Interleaving)
    (identifier : String) (o : Options) :
    ((∃ a, renderUnder interleaving trig identifier o = .ok a) ↔
      o.Accepted ∧ 3 ≤ (lowercaseOf identifier).length) ∧
    (¬ o.Accepted → ∃ reason : Error,
      renderUnder interleaving trig identifier o = .error (.error reason) ∧
        reason.kind = .validation) ∧
    (o.Accepted → (lowercaseOf identifier).length < 3 → ∃ reason : Error,
      renderUnder interleaving trig identifier o = .error (.error reason) ∧
        reason.kind = .identifier) ∧
    (∀ reason : Error, renderUnder interleaving trig identifier o = .error (.error reason) →
      reason.kind ≠ .overflow ∧ reason.kind ≠ .evaluation) ∧
    ∀ a : Avatar, renderUnder interleaving trig identifier o = .ok a →
      ∃ seeds, Seeds.derive identifier = .ok seeds ∧ a.IsDrawnFrom trig seeds o.halfSize := by
  refine ⟨⟨?_, ?_⟩, renderUnder_of_not_accepted, ?_, ?_, ?_⟩
  · rintro ⟨a, ha⟩
    exact accepted_of_renderUnder_eq_ok ha
  · rintro ⟨ho, hlong⟩
    exact ⟨_, renderUnder_of_accepted ht ho hlong⟩
  · intro ho hshort
    exact ⟨_, renderUnder_of_short ho hshort, rfl⟩
  · intro reason h
    rcases kind_of_renderUnder_eq_error ht h with hkind | hkind
    · rw [hkind]
      decide
    · rw [hkind]
      decide
  · intro a ha
    obtain ⟨ho, hlong⟩ := accepted_of_renderUnder_eq_ok ha
    rw [renderUnder_of_accepted ht ho hlong] at ha
    cases ha
    exact ⟨_, Seeds.derive_of_long hlong, isDrawnFrom_ofSeeds ht ho.valid _⟩

/-- The law at the smallest canvas, for an identifier that is long enough and one that is not. -/
theorem renderUnder_pixel_law_abc :
    (∃ a seeds, renderUnder (.ofWorkers 2) .coarse "abc" ⟨1, .strict, true, some 2⟩ = .ok a ∧
      Seeds.derive "abc" = .ok seeds ∧ a.IsDrawnFrom .coarse seeds 1) ∧
    (∃ reason : Error,
      renderUnder (.ofWorkers 2) .coarse "ab" ⟨1, .strict, true, some 2⟩ =
        .error (.error reason) ∧ reason.kind = .identifier) ∧
    ∃ reason : Error,
      renderUnder (.ofWorkers 2) .coarse "ab" ⟨0, .strict, true, some 2⟩ =
        .error (.error reason) ∧ reason.kind = .validation := by
  have law := renderUnder_pixel_law .coarse Trig.coarse_bounded (.ofWorkers 2)
  have hgood : Options.Accepted ⟨1, .strict, true, some 2⟩ := ⟨by decide, by decide⟩
  have hbad : ¬ Options.Accepted ⟨0, .strict, true, some 2⟩ := fun h => absurd h.1.1 (by decide)
  have habc : 3 ≤ (lowercaseOf "abc").length := by decide +kernel
  have hab : (lowercaseOf "ab").length < 3 := by decide +kernel
  obtain ⟨a, ha⟩ := (law "abc" _).1.mpr ⟨hgood, habc⟩
  obtain ⟨seeds, hseeds, hdrawn⟩ := (law "abc" _).2.2.2.2 a ha
  exact ⟨⟨a, seeds, ha, hseeds, hdrawn⟩, (law "ab" _).2.2.1 hgood hab, (law "ab" _).2.1 hbad⟩

end Render

end Avatar

end Identicon
