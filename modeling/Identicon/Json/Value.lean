/-!
# JSON values

The values a JSON document can hold. Members of an object keep their order, and a key may occur
more than once: what that means is for the reader of the object to say.

A number written without fraction and exponent is an integer as long as it lies between `-2 ^ 63`
and `2 ^ 64 - 1`; every other number is a double.
-/

namespace Identicon.Json

/-- A number: an integer of the 64-bit ranges, or a double. -/
inductive Number where
  | integer (n : Int)
  | real (z : Float)
deriving Inhabited

/-- A JSON value. -/
inductive Value where
  | null
  | boolean (b : Bool)
  | number (n : Number)
  | string (text : List Char)
  | array (items : List Value)
  | object (members : List (List Char × Value))
deriving Inhabited

end Identicon.Json
