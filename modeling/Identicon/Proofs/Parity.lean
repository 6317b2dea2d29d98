import Identicon.Proofs.Range
import Identicon.Proofs.WholePart

/-!
# The parity of expressions

Turning the sign of a coordinate keeps the value of an expression or turns its sign, bit for bit,
and the tree alone tells which: a coordinate is odd in itself and even in the other, a sine keeps
the parity of its argument, a cosine is even, and a product is even if its factors have the same
parity. Rounding does not disturb this, as the magnitude of a product does not depend on the signs
of its factors.

Both factors of a grown product are the same tree, so that a grown expression is even unless all its
levels are sines. No seed up to 147 makes such an expression (`parity_grow`).

## Main definitions

* `Parity`, `Axis`: even or odd, and in which coordinate.
* `Expr.parity`: the parity of an expression.
* `Trig.OddEven`: what the parity rests on.
-/

namespace Identicon

open Binary64

/-- What turning the sign of an argument does to a value. -/
inductive Parity where
  /-- It keeps the value. -/
  | even
  /-- It turns the sign of the value. -/
  | odd
deriving DecidableEq, Repr

namespace Parity

def apply : Parity → Float → Float
  | even, z => z
  | odd, z => -z

/-- The parity of a product. -/
def mul : Parity → Parity → Parity
  | even, p => p
  | odd, even => odd
  | odd, odd => even

theorem mul_self (p : Parity) : p.mul p = even := by
  cases p <;> rfl

theorem apply_mul (p q : Parity) (z w : Float) :
    p.apply z * q.apply w = (p.mul q).apply (z * w) := by
  cases p with
  | even =>
    cases q with
    | even => rfl
    | odd => exact floatMul_neg z w
  | odd =>
    cases q with
    | even => exact floatNeg_mul z w
    | odd =>
      show -z * -w = z * w
      rw [floatNeg_mul, floatMul_neg, floatNeg_neg]

theorem mul_apply (p : Parity) (z w : Float) : z * p.apply w = p.apply (z * w) :=
  apply_mul even p z w

end Parity

/-- A direction in the square. -/
inductive Axis where
  | x
  | y
deriving DecidableEq, Repr

/-- Turns the sign of one coordinate of a point. -/
def Axis.turn : Axis → Float × Float → Float × Float
  | x, (a, b) => (-a, b)
  | y, (a, b) => (a, -b)

/-- What is known of the sine and cosine of a machine with respect to signs: for finite arguments,
the one is odd and the other even, bit for bit. -/
structure Trig.OddEven (trig : Trig) : Prop where
  sin_neg : ∀ t : Float, t.isFinite = true → trig.sin (-t) = -trig.sin t
  cos_neg : ∀ t : Float, t.isFinite = true → trig.cos (-t) = trig.cos t

namespace Leaf

/-- The parity in the direction of an axis. -/
def parity : Axis → Leaf → Parity
  | .x, x => .odd
  | .x, y => .even
  | .y, x => .even
  | .y, y => .odd
  | _, xy => .odd

theorem evaluate_turn (axis : Axis) (point : Float × Float) (l : Leaf) :
    l.evaluate (axis.turn point).1 (axis.turn point).2 =
      (l.parity axis).apply (l.evaluate point.1 point.2) := by
  obtain ⟨a, b⟩ := point
  cases axis with
  | x =>
    cases l with
    | x | y => rfl
    | xy => exact floatNeg_mul a b
  | y =>
    cases l with
    | x | y => rfl
    | xy => exact floatMul_neg a b

end Leaf

namespace Expr

/-- The parity in the direction of an axis. -/
def parity (axis : Axis) : Expr → Parity
  | leaf l => l.parity axis
  | product lhs rhs => (lhs.parity axis).mul (rhs.parity axis)
  | sine arg => arg.parity axis
  | cosine _ => .even

variable {trig : Trig} {point : Float × Float}

/-- Turning the sign of a coordinate does to the value what the parity says. -/
theorem evaluate_turn (ht : trig.Bounded) (hp : trig.OddEven) (hx : InUnit point.1)
    (hy : InUnit point.2) (axis : Axis) (e : Expr) :
    e.evaluate trig (axis.turn point).1 (axis.turn point).2 =
      (e.parity axis).apply (e.evaluate trig point.1 point.2) := by
  induction e with
  | leaf l => exact l.evaluate_turn axis point
  | product lhs rhs ihl ihr =>
    rw [evaluate, ihl, ihr, Parity.apply_mul]
    rfl
  | sine arg ih =>
    -- the sign passes through the multiplication by the circle constant to the sine
    have hfin := isFinite_pi_mul (arg.inUnit_evaluate ht hx hy)
    rw [evaluate, ih, Parity.mul_apply, evaluate, parity]
    cases arg.parity axis with
    | even => rfl
    | odd => exact hp.sin_neg _ hfin
  | cosine arg ih =>
    -- the sign reaches the cosine and ends there
    have hfin := isFinite_pi_mul (arg.inUnit_evaluate ht hx hy)
    rw [evaluate, ih, Parity.mul_apply, evaluate, parity]
    cases arg.parity axis with
    | even => rfl
    | odd => exact hp.cos_neg _ hfin

/-! ## Grown expressions -/

/-- Whether all levels are sines for a value with the whole part `n`. -/
def allSines : ℕ → ℕ → Bool
  | 0, _ => true
  | levels + 1, n => n % 3 == 0 && allSines levels (9 * n / 10)

theorem parity_growLevels (axis : Axis) {levels : ℕ} (hlevels : levels ≤ 5) {value : Float} {n : ℕ}
    (h : HasWholePart value n) (hn : n < 2 ^ 40) (hsines : allSines levels n = false) :
    (growLevels levels value).parity axis = .even := by
  induction levels generalizing value n with
  | zero => exact absurd hsines (by simp [allSines])
  | succ levels ih =>
    rw [growLevels_of_hasWholePart (by omega) h (by omega)]
    -- a sine leaves the question to the levels below it, a cosine and a product settle it
    split_ifs with hthree htwo
    · have hrest : allSines levels (9 * n / 10) = false := by
        simpa [allSines, hthree] using hsines
      exact ih (by omega) (h.trigSeed hn) (by omega) hrest
    · rfl
    · exact Parity.mul_self _

/-- From 40 to 147 some level is no sine. -/
theorem allSines_eq_false : ∀ n < 148, 40 ≤ n → allSines 5 (9 * n / 10) = false := by
  decide

/-- Seeds below 148 grow expressions that are even in both coordinates. -/
theorem parity_grow (axis : Axis) {seed : Float} {x : ℚ} (h : Holds seed x) (hx : x < 148) :
    (grow seed).parity axis = .even := by
  by_cases hlt : seed < Rule.productBelow
  · rw [grow_of_lt hlt]
    exact Parity.mul_self _
  · rw [grow_of_not_lt hlt]
    have h40 : 40 ≤ x := by
      rw [h.lt_iff holds_productBelow] at hlt
      exact not_lt.mp hlt
    have h0 : 0 ≤ x := by linarith
    have hlo : 40 ≤ ⌊x⌋₊ := Nat.le_floor (by exact_mod_cast h40)
    have hhi : ⌊x⌋₊ < 148 := by
      rw [Nat.floor_lt h0]
      exact_mod_cast hx
    have hpart : HasWholePart seed ⌊x⌋₊ := ⟨x, h, h0, rfl⟩
    exact parity_growLevels axis le_rfl (hpart.trigSeed (by omega)) (by omega)
      (allSines_eq_false _ hhi hlo)

end Expr

end Identicon
