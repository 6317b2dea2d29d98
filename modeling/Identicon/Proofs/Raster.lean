import Identicon.Canvas.Document
import Identicon.Proofs.CoarseTrig
import Identicon.Proofs.Filling
import Identicon.Proofs.Intensity
import Identicon.Proofs.UnitSquare

/-!
# Planes of expressions

On a canvas whose half size is accepted, rasterizing an expression gives a plane for every policy
and every order of work, and always the same one: values in range need no policy, and no step fails.
The type of canvases also has the half size 0. Its rows are of length zero, and rasterizing ends
without a result, error or other.

## Main definitions

* `Canvas.valueAt`, `Canvas.byteAt`: the value and the byte of a pixel.
* `Canvas.planeUnder`: the plane of an expression under a policy that has a byte for every pixel,
  which `rasterizeOn` gives by `rasterizeOn_eq_planeUnder`.
* `Canvas.planeOf`: the plane of an expression, which `rasterizeOn` gives by `rasterizeOn_eq`.
-/

namespace Identicon

open Binary64

variable {trig : Trig} {c : Canvas} {e : Expr} {policy : Policy} {px py : ℕ}

/-- A step that succeeds hands its result on. -/
theorem liftM_ok_bind {α β : Type} (a : α) (f : α → Except Failure β) :
    (liftM (.ok a : Except Error α) >>= f : Except Failure β) = f a := rfl

/-- A step that is followed by success has succeeded. -/
theorem exists_of_liftM_bind_eq_ok {α β : Type} {x : Except Error α} {f : α → Except Failure β}
    {b : β} (h : (liftM x >>= f : Except Failure β) = .ok b) : ∃ a, x = .ok a ∧ f a = .ok b := by
  cases x with
  | error reason => cases h
  | ok a => exact ⟨a, rfl, h⟩

/-- The byte of a value, and 0 where the policy has none. -/
def byteUnder (policy : Policy) (z : Float) : UInt8 :=
  (intensity policy z).toOption.getD 0

/-- Only the strict policy has something to say against a value. -/
theorem intensity_eq_byteUnder {z : Float} (h : policy = .strict → InUnit z) :
    intensity policy z = .ok (byteUnder policy z) := by
  cases policy with
  | strict =>
    rw [byteUnder, intensity_of_inUnit (h rfl)]
    rfl
  | clamp | wrap =>
    rw [byteUnder, intensity]
    split
    · rfl
    · rfl

namespace Canvas

/-- The value of an expression at the point of a pixel. -/
def valueAt (c : Canvas) (trig : Trig) (e : Expr) (px py : ℕ) : Float :=
  e.evaluate trig (c.toUnit px.toUInt32 py.toUInt32).1 (c.toUnit px.toUInt32 py.toUInt32).2

/-- The byte of a pixel whose value is in range. -/
def byteAt (c : Canvas) (trig : Trig) (e : Expr) (px py : ℕ) : UInt8 :=
  (roundedIntensity (c.valueAt trig e px py)).toUInt8

/-- The plane of an expression under a policy that has a byte for every pixel. -/
def planeUnder (c : Canvas) (trig : Trig) (e : Expr) (policy : Policy) : Plane :=
  ⟨c.side.toNat, c.side.toNat,
    squareOf c.side.toNat fun px py => byteUnder policy (c.valueAt trig e px py)⟩

/-- The plane of an expression whose values are in range. -/
def planeOf (c : Canvas) (trig : Trig) (e : Expr) : Plane :=
  ⟨c.side.toNat, c.side.toNat, squareOf c.side.toNat (c.byteAt trig e)⟩

theorem pixel_eq_intensity :
    c.pixel trig e policy px py = intensity policy (c.valueAt trig e px py) := rfl

theorem toNat_toUInt32 (hpx : px < c.side.toNat) : px.toUInt32.toNat = px :=
  UInt32.toNat_ofNat_of_lt' (hpx.trans c.side.toNat_lt)

/-- The point of a pixel lies in the square. -/
theorem inUnit_toUnit (hc : c.Valid) (hpx : px < c.side.toNat) (hpy : py < c.side.toNat) :
    InUnit (c.toUnit px.toUInt32 py.toUInt32).1 ∧ InUnit (c.toUnit px.toUInt32 py.toUInt32).2 := by
  have hside := hc.toNat_side
  constructor
  · apply inUnit_toUnit_fst hc.1
    rw [toNat_toUInt32 hpx]
    omega
  · apply inUnit_toUnit_snd hc.1
    rw [toNat_toUInt32 hpy]
    omega

theorem inUnit_valueAt (hc : c.Valid) (ht : trig.Bounded) (hpx : px < c.side.toNat)
    (hpy : py < c.side.toNat) : InUnit (c.valueAt trig e px py) :=
  e.inUnit_evaluate ht (inUnit_toUnit hc hpx hpy).1 (inUnit_toUnit hc hpx hpy).2

theorem pixel_eq (hc : c.Valid) (ht : trig.Bounded) (hpx : px < c.side.toNat)
    (hpy : py < c.side.toNat) :
    c.pixel trig e policy px py = .ok (c.byteAt trig e px py) :=
  intensity_of_inUnit (inUnit_valueAt hc ht hpx hpy) policy

/-- A pixel of the plane of an expression. -/
theorem get_planeOf (c : Canvas) (trig : Trig) (e : Expr) (hpx : px < c.side.toNat)
    (hpy : py < c.side.toNat) : (c.planeOf trig e).get px py = c.byteAt trig e px py := by
  rw [Plane.get, planeOf, Array.getD_eq_getD_getElem?, getElem?_squareOf hpy hpx, Option.getD_some]

/-- Each byte is the nearest whole number to the scaled value. -/
theorem toNat_byteAt (hc : c.Valid) (ht : trig.Bounded) (hpx : px < c.side.toNat)
    (hpy : py < c.side.toNat) :
    ((c.byteAt trig e px py).toNat : ℤ) =
      halfAway (toRat (c.valueAt trig e px py * 127.5 + 127.5)) :=
  toNat_roundedIntensity (inUnit_valueAt hc ht hpx hpy)

end Canvas

/-! ## Accepted canvases -/

theorem rasterizeOn_of_pixels {side : ℕ} {byte : ℕ → ℕ → UInt8} (hside : c.side.toNat = side)
    (h0 : side ≠ 0)
    (hpixel : ∀ px < side, ∀ py < side, c.pixel trig e policy px py = .ok (byte px py))
    (execution : Execution) :
    rasterizeOn trig e c policy execution = .ok ⟨side, side, squareOf side byte⟩ := by
  have hbytes : Plane.ofBytes? side side (squareOf side byte) =
      some ⟨side, side, squareOf side byte⟩ := if_pos (size_squareOf side byte).ge
  unfold rasterizeOn
  simp only [hside, if_neg h0, Execution.fill_eq hpixel execution, liftM_ok_bind, hbytes]
  rfl

theorem rasterizeOn_eq_planeUnder (hc : c.Valid) (ht : policy = .strict → trig.Bounded)
    (execution : Execution) :
    rasterizeOn trig e c policy execution = .ok (c.planeUnder trig e policy) := by
  refine rasterizeOn_of_pixels rfl hc.side_ne_zero ?_ execution
  intro px hpx py hpy
  rw [Canvas.pixel_eq_intensity]
  exact intensity_eq_byteUnder fun hstrict => Canvas.inUnit_valueAt hc (ht hstrict) hpx hpy

theorem rasterizeOn_eq (hc : c.Valid) (ht : trig.Bounded) (e : Expr) (policy : Policy)
    (execution : Execution) :
    rasterizeOn trig e c policy execution = .ok (c.planeOf trig e) :=
  rasterizeOn_of_pixels rfl hc.side_ne_zero
    (fun _ hpx _ hpy => Canvas.pixel_eq hc ht hpx hpy) execution

/-- No expression leaves `[-1, 1]` on the square, whatever its shape. On an accepted canvas no
intensity therefore overflows, and all policies give the same plane, which has a byte for each
pixel. -/
theorem policies_agree (trig : Trig) (ht : trig.Bounded) (e : Expr) :
    (∀ x y : Float, -1 ≤ x ∧ x ≤ 1 → -1 ≤ y ∧ y ≤ 1 →
      (e.evaluate trig x y).isNaN = false ∧
        -1 ≤ e.evaluate trig x y ∧ e.evaluate trig x y ≤ 1) ∧
    ∀ (halfSize : UInt32) (c : Canvas), Canvas.ofHalfSize halfSize = .ok c →
      (∀ (execution : Execution) (v : Float),
        rasterizeOn trig e c .strict execution ≠ .error (.error (.channelOverflow v))) ∧
      ∃ plane : Plane, plane.width = 2 * halfSize.toNat ∧ plane.height = 2 * halfSize.toNat ∧
        plane.bytes.size = 2 * halfSize.toNat * (2 * halfSize.toNat) ∧
        ∀ (policy : Policy) (execution : Execution),
          rasterizeOn trig e c policy execution = .ok plane := by
  constructor
  · rintro x y ⟨hx, hx'⟩ ⟨hy, hy'⟩
    have hz := e.inUnit_evaluate ht ⟨hx, hx'⟩ ⟨hy, hy'⟩
    exact ⟨hz.isNaN_eq_false, hz.neg_one_le, hz.le_one⟩
  · intro halfSize c hc
    obtain ⟨rfl, hvalid⟩ := Canvas.ofHalfSize_eq_ok_iff.mp hc
    have hplane := rasterizeOn_eq hvalid ht e
    have hside := hvalid.toNat_side
    have hsize : (c.planeOf trig e).bytes.size =
        2 * c.halfSize.toNat * (2 * c.halfSize.toNat) := by
      rw [Canvas.planeOf, size_squareOf, hside]
    refine ⟨?_, c.planeOf trig e, hside, hside, hsize, hplane⟩
    intro execution v
    rw [hplane]
    exact nofun

/-- The theorem at the sine of a coordinate, on the smallest canvas. -/
theorem policies_agree_sine :
    (-1 ≤ (Expr.sine (.leaf .x)).evaluate .coarse 1 (-1) ∧
      (Expr.sine (.leaf .x)).evaluate .coarse 1 (-1) ≤ 1) ∧
    ∃ plane : Plane, plane.width = 2 ∧ plane.height = 2 ∧ plane.bytes.size = 4 ∧
      ∀ (policy : Policy) (execution : Execution),
        rasterizeOn .coarse (.sine (.leaf .x)) ⟨1⟩ policy execution = .ok plane := by
  obtain ⟨hvalue, hplane⟩ := policies_agree .coarse Trig.coarse_bounded (.sine (.leaf .x))
  have h1 := inUnit_one
  have h2 := inUnit_one.neg
  have hval := hvalue 1 (-1) ⟨h1.neg_one_le, h1.le_one⟩ ⟨h2.neg_one_le, h2.le_one⟩
  exact ⟨hval.2, (hplane 1 ⟨1⟩ rfl).2⟩

/-! ## All canvases -/

/-- A canvas with pixels has rows to deal out, whatever becomes of them. -/
theorem rasterizeOn_ne_emptyRows (h0 : c.side.toNat ≠ 0) (execution : Execution) :
    rasterizeOn trig e c policy execution ≠ .error .emptyRows := by
  unfold rasterizeOn
  simp only [if_neg h0]
  cases execution.fill c.side.toNat (c.pixel trig e policy) with
  | error reason => exact nofun
  | ok bytes =>
    rw [liftM_ok_bind]
    cases Plane.ofBytes? c.side.toNat c.side.toNat bytes with
    | some plane => exact nofun
    | none => exact nofun

/-- The plane of a canvas with pixels is a square. -/
theorem exists_rasterizeOn_eq_ok (hle : c.halfSize ≤ Error.greatestHalfSize) (h0 : c.halfSize ≠ 0)
    (hstrict : policy = .strict → trig.Bounded) (execution : Execution) :
    ∃ plane : Plane, rasterizeOn trig e c policy execution = .ok plane ∧
      plane.width = 2 * c.halfSize.toNat ∧ plane.height = 2 * c.halfSize.toNat ∧
      plane.bytes.size = 2 * c.halfSize.toNat * (2 * c.halfSize.toNat) := by
  have hc : c.Valid := ⟨h0, hle⟩
  refine ⟨_, rasterizeOn_eq_planeUnder hc hstrict execution, hc.toNat_side, hc.toNat_side, ?_⟩
  rw [Canvas.planeUnder, size_squareOf, hc.toNat_side]

/-- Up to the greatest accepted half size, rasterizing ends without a result for the half size 0
alone, and gives a square plane for all others. Sine and cosine matter to the strict policy only. -/
theorem rasterizeOn_ends_iff (trig : Trig) (e : Expr) (c : Canvas) (policy : Policy)
    (execution : Execution) (hle : c.halfSize ≤ Error.greatestHalfSize) :
    (rasterizeOn trig e c policy execution = .error .emptyRows ↔ c.halfSize = 0) ∧
    (c.halfSize ≠ 0 → (policy = .strict → trig.Bounded) →
      ∃ plane : Plane, rasterizeOn trig e c policy execution = .ok plane ∧
        plane.width = 2 * c.halfSize.toNat ∧ plane.height = 2 * c.halfSize.toNat ∧
        plane.bytes.size = 2 * c.halfSize.toNat * (2 * c.halfSize.toNat)) := by
  refine ⟨⟨?_, ?_⟩, fun h0 hstrict => exists_rasterizeOn_eq_ok hle h0 hstrict execution⟩
  · intro hends
    by_contra h0
    exact rasterizeOn_ne_emptyRows (Canvas.Valid.side_ne_zero ⟨h0, hle⟩) execution hends
  · intro h0
    obtain ⟨halfSize⟩ := c
    subst h0
    rfl

/-- The theorem at the least half size and a policy that cares. -/
theorem rasterizeOn_ends_iff_one :
    ∃ plane : Plane, rasterizeOn .coarse (.sine (.leaf .x)) ⟨1⟩ .strict .sequential = .ok plane ∧
      plane.width = 2 ∧ plane.height = 2 ∧ plane.bytes.size = 4 :=
  (rasterizeOn_ends_iff .coarse (.sine (.leaf .x)) ⟨1⟩ .strict .sequential (by decide)).2
    (by decide) fun _ => Trig.coarse_bounded

/-- A document can give a canvas the half size 0, as its reader does not ask what `ofHalfSize` asks,
and a plane on that canvas is neither a result nor an error. -/
theorem read_zero_halfSize_ends :
    Canvas.ofHalfSize 0 = .error .zeroHalfSize ∧
    (Canvas.read "\x7b\"half_size\":0\x7d").toOption = some ⟨0⟩ ∧
    ¬ (∃ plane : Plane,
      rasterizeOn .coarse (.leaf .x) ⟨0⟩ .clamp .sequential = .ok plane) ∧
    ¬ (∃ reason : Error,
      rasterizeOn .coarse (.leaf .x) ⟨0⟩ .clamp .sequential = .error (.error reason)) := by
  have hends : rasterizeOn .coarse (.leaf .x) ⟨0⟩ .clamp .sequential = .error .emptyRows := rfl
  rw [hends]
  exact ⟨rfl, by decide +kernel, nofun, nofun⟩

end Identicon
