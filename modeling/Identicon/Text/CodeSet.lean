/-!
# Sets of characters

A set of code points as the ascending list of the places where membership changes, beginning
outside the set: a code point belongs to it when an odd number of changes lie at or below it.
Properties of characters that a standard defines by ranges are tables of this kind.
-/

namespace Identicon.Text

/-- A set of code points, given by the ascending places where membership changes. -/
structure CodeSet where
  changes : List Nat

/-- Membership of a character. -/
def CodeSet.contains (s : CodeSet) (c : Char) : Bool :=
  (s.changes.takeWhile (· ≤ c.toNat)).length % 2 == 1

end Identicon.Text
