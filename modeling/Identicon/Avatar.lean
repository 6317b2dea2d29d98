import Identicon.Expr.Grammar
import Identicon.Options
import Identicon.Raster
import Identicon.Seeds

/-!
# Avatars

From an identifier to an image: the identifier gives three seeds, each seed grows an expression,
each expression fills a plane, and the planes are merged.

The options are checked before the identifier. With the `parallel` option, the channels and the rows
of each are in progress at the same time; the interleaving is then a matter of the machine, so that
`Avatar.renderUnder` takes it as an argument. If several channels fail, the first in the order red,
green, blue is told.
-/

namespace Identicon

/-- An avatar and what it was made from. -/
structure Avatar where
  seeds : Seeds
  /-- The written forms of the expressions. -/
  expressions : Channels String
  planes : Channels Plane
  image : Image

namespace Avatar

/-- The number of pixels along a side. -/
def side (a : Avatar) : Nat :=
  a.image.width

/-- The expression of a seed in its written form, and its plane. -/
def renderChannel (trig : Trig) (seed : Float) (c : Canvas) (policy : Policy)
    (execution : Execution) : Except Failure (String × Plane) := do
  let e := Expr.grow seed
  return (e.display, ← rasterizeOn trig e c policy execution)

/-- The three channels, one after the other. -/
def renderChannels (trig : Trig) (seeds : Seeds) (c : Canvas) (policy : Policy) :
    Except Failure (Channels (String × Plane)) :=
  (seeds.map fun seed => renderChannel trig seed c policy .sequential).sequence

/-- The three channels in progress at the same time. -/
def renderChannelsUnder (interleaving : Interleaving) (trig : Trig) (seeds : Seeds) (c : Canvas)
    (policy : Policy) : Except Failure (Channels (String × Plane)) :=
  (Channel.join interleaving.channels fun channel =>
    renderChannel trig (seeds.get channel) c policy
      (.parallel (interleaving.rows channel c.side.toNat))).sequence

/-- The avatar of an identifier. The interleaving matters to the `parallel` option alone. -/
def renderUnder (interleaving : Interleaving) (trig : Trig) (identifier : String) (o : Options) :
    Except Failure Avatar := do
  o.validate
  let c ← Canvas.ofHalfSize o.halfSize
  let seeds ← Seeds.derive identifier
  let channels ←
    if o.parallel then renderChannelsUnder interleaving trig seeds c o.policy
    else renderChannels trig seeds c o.policy
  let planes := channels.map (·.2)
  let image ← mergePlanes planes
  return ⟨seeds, channels.map (·.1), planes, image⟩

/-- The number of workers for options that leave it open. -/
def defaultWorkers : Nat := 4

/-- The avatar of an identifier, with the workers that the options ask for in lockstep. -/
def render (trig : Trig) (identifier : String) (o : Options) : Except Failure Avatar :=
  renderUnder (.ofWorkers ((o.threads.map UInt64.toNat).getD defaultWorkers)) trig identifier o

/-- The image of an identifier with this half size and the other options left alone. -/
def imageOfSize (trig : Trig) (identifier : String) (halfSize : UInt32) : Except Failure Image := do
  return (← render trig identifier { halfSize }).image

/-- The image of an identifier with no option chosen. -/
def imageOf (trig : Trig) (identifier : String) : Except Failure Image :=
  imageOfSize trig identifier Canvas.defaultHalfSize

end Avatar

end Identicon
