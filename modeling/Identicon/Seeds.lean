import Identicon.Binary64
import Identicon.Channels
import Identicon.Error
import Identicon.Text.Lowercase

/-!
# Seeds

Three numbers drawn from an identifier, one for each channel. The identifier is put into lowercase
and cut into thirds, the last of which takes what division by three leaves over. Each character
weighs something, and the seed of a channel is 50 less the mean weight of its third.

## Main definitions

* `charWeight`: the weight of a character.
* `partValue`: the mean weight of a part, if it has characters.
* `thirds`: the three parts of a text.
* `rawValues`, `Seeds.derive`: the mean weights and the seeds of an identifier.
-/

namespace Identicon

/-- A seed for each channel. -/
abbrev Seeds := Channels Float

/-- The weight of an underscore. -/
def underscoreWeight : Int := 35

/-- The weight of a character: the value of a digit, 35 for an underscore, and for any other
character how far it lies from `a` in code points, which is negative before `a`. -/
def charWeight (c : Char) : Int :=
  if c.isDigit then c.toNat - '0'.toNat
  else if c = '_' then underscoreWeight
  else c.toNat - 'a'.toNat

/-- The mean weight of the characters of a part, if there are any. -/
def partValue (part : List Char) : Option Float :=
  if part.isEmpty then none
  else
    let sum := (part.map charWeight).foldl (· + ·) 0
    some (Binary64.ofInt sum / Binary64.ofInt part.length)

/-- The three parts of a text: two of a third of its length, rounded down, and the rest. -/
def thirds (text : List Char) : Channels (List Char) :=
  let third := text.length / 3
  ⟨text.take third, (text.drop third).take third, text.drop (2 * third)⟩

/-- The mean weight of each third of an identifier in lowercase, which must have at least three
characters. -/
def rawValues (identifier : String) : Except Error (Channels Float) :=
  let text := Text.lowercase identifier.toList
  if text.length < 3 then .error (.shortIdentifier identifier text.length)
  else
    ((thirds text).map fun part =>
      match partValue part with
      | some value => .ok value
      | none => .error .emptyPart).sequence

namespace Seeds

/-- The number that mean weights are subtracted from. -/
def ceiling : Float := 50

/-- The seeds of an identifier. -/
def derive (identifier : String) : Except Error Seeds := do
  return (← rawValues identifier).map (ceiling - ·)

end Seeds

end Identicon
