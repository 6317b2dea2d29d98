import Identicon.Canvas
import Identicon.Intensity

/-!
# Options

What can be chosen about an avatar apart from the identifier it is made for.
-/

namespace Identicon

/-- The options of an avatar. -/
structure Options where
  halfSize : UInt32 := Canvas.defaultHalfSize
  /-- What happens to intensities that are no byte. -/
  policy : Policy := .clamp
  /-- Whether channels and rows are filled at the same time. -/
  parallel : Bool := false
  /-- How many workers fill them; `none` leaves the number open. -/
  threads : Option UInt64 := none
deriving DecidableEq, Repr, Inhabited

/-- Checks the half size first and the number of workers second. -/
def Options.validate (o : Options) : Except Error Unit := do
  let _ ← Canvas.ofHalfSize o.halfSize
  if o.threads = some 0 then throw .zeroThreads

end Identicon
