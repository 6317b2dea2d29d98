/-!
# Color channels

The three channels of an image, and a value for each of them.
-/

namespace Identicon

/-- A color channel. -/
inductive Channel where
  | red
  | green
  | blue
deriving DecidableEq, Repr

/-- A value for each channel. -/
structure Channels (α : Type) where
  red : α
  green : α
  blue : α
deriving DecidableEq, Repr

namespace Channels

variable {α β : Type}

/-- The value of a channel. -/
def get (cs : Channels α) : Channel → α
  | .red => cs.red
  | .green => cs.green
  | .blue => cs.blue

/-- Replaces the value of a channel. -/
def set (cs : Channels α) (a : α) : Channel → Channels α
  | .red => ⟨a, cs.green, cs.blue⟩
  | .green => ⟨cs.red, a, cs.blue⟩
  | .blue => ⟨cs.red, cs.green, a⟩

/-- The value of each channel as a function of the channel. -/
def ofFn (f : Channel → α) : Channels α :=
  ⟨f .red, f .green, f .blue⟩

/-- Applies a function to each value. -/
def map (f : α → β) (cs : Channels α) : Channels β :=
  ⟨f cs.red, f cs.green, f cs.blue⟩

/-- The values in the order red, green, blue. -/
def toList (cs : Channels α) : List α :=
  [cs.red, cs.green, cs.blue]

/-- Three results as one, which fails with the first failure in the order red, green, blue. -/
def sequence {ε : Type} (cs : Channels (Except ε α)) : Except ε (Channels α) := do
  return ⟨← cs.red, ← cs.green, ← cs.blue⟩

end Channels

end Identicon
