import Identicon.Proofs.Avatar
import Identicon.Proofs.Parity

/-!
# Mirror symmetry

Every plane of an avatar is its own mirror image in both directions: a pixel has the byte of the one
reflected in the middle column, or in the middle row. The first column and row have no partner.

The seed of a part is at most 147, so that the expression is even in both coordinates
(`Expr.parity_grow`), and reflecting a pixel turns the sign of one coordinate and leaves the other
alone (`Canvas.toUnit_fst_reflect`, `Canvas.toUnit_snd_reflect`).
-/

namespace Identicon

open Binary64

variable {trig : Trig} {c : Canvas} {e : Expr} {px px' py py' : ℕ}

namespace Canvas

/-- Turning the sign of a coordinate in which the expression is even keeps the value. -/
theorem valueAt_turn (hc : c.Valid) (ht : trig.Bounded) (hp : trig.OddEven) {axis : Axis}
    (heven : e.parity axis = .even) (hpx : px < c.side.toNat) (hpy : py < c.side.toNat)
    (hturn : c.toUnit px'.toUInt32 py'.toUInt32 = axis.turn (c.toUnit px.toUInt32 py.toUInt32)) :
    c.valueAt trig e px' py' = c.valueAt trig e px py := by
  obtain ⟨hx, hy⟩ := inUnit_toUnit hc hpx hpy
  have hvalue := e.evaluate_turn ht hp hx hy axis
  rw [heven, ← hturn] at hvalue
  exact hvalue

/-- A column and its reflection in the middle one have the same values. -/
theorem valueAt_reflect_column (hc : c.Valid) (ht : trig.Bounded) (hp : trig.OddEven)
    (heven : e.parity .x = .even) (hpx : px < c.side.toNat) (hpx' : px' < c.side.toNat)
    (hpy : py < c.side.toNat) (hsum : px + px' = c.side.toNat) :
    c.valueAt trig e px' py = c.valueAt trig e px py := by
  have hside := hc.toNat_side
  by_cases hmid : px.toUInt32 = c.halfSize
  · -- the middle column is its own reflection
    have hself : px = c.halfSize.toNat := by rw [← hmid, toNat_toUInt32 hpx]
    rw [(by omega : px' = px)]
  · apply valueAt_turn hc ht hp heven hpx hpy
    refine Prod.ext (toUnit_fst_reflect ?_ hmid) rfl
    rw [toNat_toUInt32 hpx, toNat_toUInt32 hpx']
    omega

/-- A row and its reflection in the middle one have the same values. -/
theorem valueAt_reflect_row (hc : c.Valid) (ht : trig.Bounded) (hp : trig.OddEven)
    (heven : e.parity .y = .even) (hpx : px < c.side.toNat) (hpy : py < c.side.toNat)
    (hpy' : py' < c.side.toNat) (hsum : py + py' = c.side.toNat) :
    c.valueAt trig e px py' = c.valueAt trig e px py := by
  have hside := hc.toNat_side
  by_cases hmid : py.toUInt32 = c.halfSize
  · -- the middle row is its own reflection
    have hself : py = c.halfSize.toNat := by rw [← hmid, toNat_toUInt32 hpy]
    rw [(by omega : py' = py)]
  · apply valueAt_turn hc ht hp heven hpx hpy
    refine Prod.ext rfl (toUnit_snd_reflect ?_ hmid)
    rw [toNat_toUInt32 hpy, toNat_toUInt32 hpy']
    omega

end Canvas

/-- Seeds of identifiers with fewer than `2 ^ 32` characters grow expressions that are even in both
coordinates. -/
theorem Seeds.parity_grow_ofParts {identifier : String}
    (hlong : 3 ≤ (lowercaseOf identifier).length)
    (hlen : (lowercaseOf identifier).length < 2 ^ 32) (axis : Axis) (channel : Channel) :
    (Expr.grow ((Seeds.ofParts (thirds (lowercaseOf identifier))).get channel)).parity axis =
      .even := by
  obtain ⟨x, hx, hle⟩ := exists_holds_seed_le (thirds_ne_nil hlong channel)
    ((length_thirds_le _ channel).trans_lt hlen)
  rw [Seeds.get_ofParts]
  exact Expr.parity_grow axis hx (by linarith)

/-- Each plane of an avatar has a byte for each pixel of the square, and is mirrored in its middle
column and in its middle row. -/
theorem Avatar.planes_mirrored (trig : Trig) (ht : trig.Bounded) (hp : trig.OddEven)
    (interleaving : Interleaving) (identifier : String) (o : Options) (ho : o.Accepted)
    (hlong : 3 ≤ (lowercaseOf identifier).length)
    (hlen : (lowercaseOf identifier).length < 2 ^ 32) :
    ∃ a : Avatar, Avatar.renderUnder interleaving trig identifier o = .ok a ∧
      ∀ channel : Channel,
        (a.planes.get channel).width = 2 * o.halfSize.toNat ∧
        (a.planes.get channel).height = 2 * o.halfSize.toNat ∧
        (a.planes.get channel).bytes.size = 2 * o.halfSize.toNat * (2 * o.halfSize.toNat) ∧
        (∀ px py : ℕ, 1 ≤ px → px ≤ 2 * o.halfSize.toNat - 1 → py < 2 * o.halfSize.toNat →
          (a.planes.get channel).get px py =
            (a.planes.get channel).get (2 * o.halfSize.toNat - px) py) ∧
        (∀ px py : ℕ, 1 ≤ py → py ≤ 2 * o.halfSize.toNat - 1 → px < 2 * o.halfSize.toNat →
          (a.planes.get channel).get px py =
            (a.planes.get channel).get px (2 * o.halfSize.toNat - py)) := by
  have hc := ho.valid
  have hside : o.canvas.side.toNat = 2 * o.halfSize.toNat := hc.toNat_side
  refine ⟨_, Avatar.renderUnder_of_accepted ht ho hlong, ?_⟩
  intro channel
  have hplane : (Avatar.ofSeeds trig (.ofParts (thirds (lowercaseOf identifier)))
      o.canvas).planes.get channel = o.canvas.planeOf trig
        (Expr.grow ((Seeds.ofParts (thirds (lowercaseOf identifier))).get channel)) :=
    Channels.get_map _ _ channel
  have heven := fun axis => Seeds.parity_grow_ofParts hlong hlen axis channel
  rw [hplane, ← hside]
  generalize Expr.grow ((Seeds.ofParts (thirds (lowercaseOf identifier))).get channel) = e at heven
  refine ⟨rfl, rfl, size_squareOf _ _, ?_, ?_⟩
  · intro px py hpos hlast hpy
    have hpx : px < o.canvas.side.toNat := by omega
    have hpx' : o.canvas.side.toNat - px < o.canvas.side.toNat := by omega
    have hvalue := Canvas.valueAt_reflect_column hc ht hp (heven .x) hpx hpx' hpy (by omega)
    rw [o.canvas.get_planeOf trig e hpx hpy, o.canvas.get_planeOf trig e hpx' hpy, Canvas.byteAt,
      Canvas.byteAt, hvalue]
  · intro px py hpos hlast hpx
    have hpy : py < o.canvas.side.toNat := by omega
    have hpy' : o.canvas.side.toNat - py < o.canvas.side.toNat := by omega
    have hvalue := Canvas.valueAt_reflect_row hc ht hp (heven .y) hpx hpy hpy' (by omega)
    rw [o.canvas.get_planeOf trig e hpx hpy, o.canvas.get_planeOf trig e hpx hpy', Canvas.byteAt,
      Canvas.byteAt, hvalue]

/-- The symmetry where there are pixels on both sides of the middle. -/
theorem Avatar.planes_mirrored_abh :
    ∃ a : Avatar,
      Avatar.renderUnder (.ofWorkers 2) .coarse "abh" ⟨2, .clamp, true, none⟩ = .ok a ∧
      ∀ channel : Channel,
        (a.planes.get channel).width = 4 ∧ (a.planes.get channel).height = 4 ∧
        (a.planes.get channel).bytes.size = 16 ∧
        (∀ px py : ℕ, 1 ≤ px → px ≤ 3 → py < 4 →
          (a.planes.get channel).get px py = (a.planes.get channel).get (4 - px) py) ∧
        (∀ px py : ℕ, 1 ≤ py → py ≤ 3 → px < 4 →
          (a.planes.get channel).get px py = (a.planes.get channel).get px (4 - py)) :=
  Avatar.planes_mirrored .coarse Trig.coarse_bounded Trig.coarse_oddEven (.ofWorkers 2) "abh"
    ⟨2, .clamp, true, none⟩ ⟨by decide, by decide⟩ (by decide +kernel) (by decide +kernel)

end Identicon
