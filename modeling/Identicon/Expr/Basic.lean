import Identicon.Binary64

/-!
# Expressions

Functions of a point `(x, y)`, built from the coordinates and their product by multiplication and by
sines and cosines of multiples of the circle constant.

Evaluation takes the two trigonometric functions as an argument: what they return is a matter of the
machine, and everything else about an expression does not depend on it.

## Main definitions

* `Leaf`, `Expr`: coordinates and expressions.
* `Trig`: a sine and a cosine.
* `Expr.evaluate`: the value at a point.
* `Expr.formula`: the written form, without parentheses around products.
* `Expr.depth`, `Expr.nodeCount`: the size of the tree.
-/

namespace Identicon

/-- A function at the end of a branch. -/
inductive Leaf where
  | x
  | y
  /-- The product of the coordinates. -/
  | xy
deriving DecidableEq, Repr, Inhabited

/-- An expression. -/
inductive Expr where
  | leaf (l : Leaf)
  | product (lhs rhs : Expr)
  /-- The sine of the circle constant times `arg`. -/
  | sine (arg : Expr)
  /-- The cosine of the circle constant times `arg`. -/
  | cosine (arg : Expr)
deriving DecidableEq, Repr, Inhabited

/-- A sine and a cosine. -/
structure Trig where
  sin : Float → Float
  cos : Float → Float

/-- The sine and the cosine of the machine. -/
def Trig.system : Trig := ⟨Float.sin, Float.cos⟩

namespace Leaf

/-- The value at a point. -/
def evaluate (x y : Float) : Leaf → Float
  | .x => x
  | .y => y
  | .xy => x * y

/-- The written form. -/
def symbol : Leaf → List Char
  | .x => ['x']
  | .y => ['y']
  | .xy => ['x', 'y']

end Leaf

namespace Expr

/-- The value at a point. -/
def evaluate (trig : Trig) (x y : Float) : Expr → Float
  | leaf l => l.evaluate x y
  | product lhs rhs => lhs.evaluate trig x y * rhs.evaluate trig x y
  | sine arg => trig.sin (Binary64.pi * arg.evaluate trig x y)
  | cosine arg => trig.cos (Binary64.pi * arg.evaluate trig x y)

/-- The written form. Products are written without parentheses, so that it does not tell how the
factors of a longer product are grouped. -/
def formula : Expr → List Char
  | leaf l => l.symbol
  | product lhs rhs => lhs.formula ++ '*' :: rhs.formula
  | sine arg => "sin(pi*".toList ++ arg.formula ++ [')']
  | cosine arg => "cos(pi*".toList ++ arg.formula ++ [')']

/-- The written form as a string. -/
def display (e : Expr) : String :=
  String.ofList e.formula

/-- The number of steps on the longest way from the root to a leaf. -/
def depth : Expr → Nat
  | leaf _ => 0
  | product lhs rhs => 1 + max lhs.depth rhs.depth
  | sine arg => 1 + arg.depth
  | cosine arg => 1 + arg.depth

/-- The number of nodes, leaves included. -/
def nodeCount : Expr → Nat
  | leaf _ => 1
  | product lhs rhs => 1 + lhs.nodeCount + rhs.nodeCount
  | sine arg => 1 + arg.nodeCount
  | cosine arg => 1 + arg.nodeCount

end Expr

end Identicon
