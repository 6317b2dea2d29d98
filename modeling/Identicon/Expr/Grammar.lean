import Identicon.Expr.Basic

/-!
# Growing expressions

A seed determines an expression. At each level the value in hand selects a rule, the rule makes a
node, and a smaller value is handed on to its branches. After six levels every branch ends in a
leaf, so that the way from the root to any leaf has the same length.

The root follows a rule of its own: small seeds make a product and all others a sine. A seed that
makes a product at the root is scaled by the circle constant before it is used.

## Main definitions

* `Rule.atRoot`, `Rule.inside`, `Rule.select`: the rule for a value at a depth.
* `Leaf.ofSeed`: the leaf for a value.
* `Expr.growAt`, `Expr.grow`: the expression for a value at a depth, and at the root.
-/

namespace Identicon

/-- The depth at which every branch ends. -/
def Expr.greatestDepth : Nat := 6

/-- What a value makes. -/
inductive Rule where
  | product
  | sine
  | cosine
  | terminal
deriving DecidableEq, Repr

namespace Rule

/-- A value below this makes a product at the root. -/
def productBelow : Float := 40

/-- A value below this would make a cosine at the root, had it not made a product before. -/
def cosineBelow : Float := 30

/-- The rule at the root. As `cosineBelow` lies below `productBelow`, it is never the cosine. -/
def atRoot (value : Float) : Rule :=
  if value < productBelow then .product
  else if value < cosineBelow then .cosine
  else .sine

/-- The rule between the root and the leaves: the whole part of the value makes a sine if it is
divisible by three, a cosine if it is even otherwise, and a product if it is neither. -/
def inside (value : Float) : Rule :=
  let n := Binary64.toInt value
  if n % 3 = 0 then .sine
  else if n % 2 = 0 then .cosine
  else .product

/-- The rule for a value at a depth. -/
def select (value : Float) (depth : Nat) : Rule :=
  if depth = 0 then atRoot value
  else if Expr.greatestDepth ≤ depth then .terminal
  else inside value

end Rule

/-- The leaf for a value: `x` if its whole part is divisible by three, `xy` if it is even otherwise,
and `y` if it is neither. -/
def Leaf.ofSeed (value : Float) : Leaf :=
  let n := Binary64.toInt value
  if n % 3 = 0 then .x
  else if n % 2 = 0 then .xy
  else .y

namespace Expr

/-- A value below this is replaced before a product hands it on. -/
def reseedBelow : Float := 50

/-- The value that replaces it. -/
def reseed : Float := 12

/-- The value that a product at this depth hands on to both factors. -/
def productSeed (value : Float) (depth : Nat) : Float :=
  let value := if depth = 0 then value * Binary64.pi else value
  (if value < reseedBelow then reseed else value) * 0.8

/-- The value that a sine or cosine hands on: nine tenths of the whole part. -/
def trigSeed (value : Float) : Float :=
  Binary64.trunc value * 0.9

/-- The expression for a value with `levels` levels left above the leaves. -/
def growLevels : Nat → Float → Expr
  | 0, value => .leaf (.ofSeed value)
  | levels + 1, value =>
    let depth := greatestDepth - (levels + 1)
    match Rule.select value depth with
    | .terminal => .leaf (.ofSeed value)
    | .product =>
      let factor := growLevels levels (productSeed value depth)
      .product factor factor
    | .sine => .sine (growLevels levels (trigSeed value))
    | .cosine => .cosine (growLevels levels (trigSeed value))

/-- The expression for a value at a depth. -/
def growAt (value : Float) (depth : Nat) : Expr :=
  growLevels (greatestDepth - depth) value

/-- The expression for a seed. -/
def grow (seed : Float) : Expr :=
  growAt seed 0

end Expr

end Identicon
