import Identicon.Proofs.Binary64.Overflow
import Identicon.Proofs.CoarseTrig

/-!
# Signs of reflected values

Turning the sign of a coordinate multiplies the value of an expression by a sign. The sign is
computed from the tree: leaves have one for each coordinate, a product multiplies the signs of its
factors, a sine keeps the sign of its argument, and a cosine forgets it. Multiplying by `-1` turns
the sign bit and nothing else, zeros included, so that this is the parity of the expression in
numbers (`Expr.sign_eq_sign_parity`).
-/

namespace Identicon

open Binary64

/-- The number that does as a factor what the parity says. -/
def Parity.sign : Parity → Float
  | even => 1
  | odd => -1

theorem Parity.sign_eq_one_or_neg_one (p : Parity) : p.sign = 1 ∨ p.sign = -1 := by
  cases p with
  | even => exact .inl rfl
  | odd => exact .inr rfl

theorem Parity.sign_mul (p q : Parity) : (p.mul q).sign = p.sign * q.sign := by
  cases p <;> cases q <;> rfl

theorem Parity.sign_mul_eq_apply (p : Parity) (z : Float) : p.sign * z = p.apply z := by
  cases p with
  | even => exact floatOne_mul z
  | odd =>
    show -1 * z = -z
    rw [floatNeg_mul, floatOne_mul]

namespace Expr

/-- The sign that turning a coordinate multiplies the value by. -/
def sign (axis : Axis) : Expr → Float
  | leaf .x => if axis = .x then -1 else 1
  | leaf .y => if axis = .y then -1 else 1
  | leaf .xy => -1
  | product lhs rhs => lhs.sign axis * rhs.sign axis
  | sine arg => arg.sign axis
  | cosine _ => 1

theorem sign_eq_sign_parity (axis : Axis) (e : Expr) : e.sign axis = (e.parity axis).sign := by
  induction e with
  | leaf l => cases l <;> cases axis <;> rfl
  | product lhs rhs ihl ihr => rw [sign, parity, Parity.sign_mul, ihl, ihr]
  | sine arg ih => exact ih
  | cosine => rfl

/-- **Every expression is even or odd in each coordinate, bit for bit.** Turning the sign of a
coordinate multiplies the value by 1 or `-1`, the same everywhere on the square. -/
theorem evaluate_reflected (trig : Trig) (ht : trig.Bounded) (hp : trig.OddEven) (e : Expr) :
    (∀ axis : Axis, e.sign axis = 1 ∨ e.sign axis = -1) ∧
    ∀ x y : Float, -1 ≤ x ∧ x ≤ 1 → -1 ≤ y ∧ y ≤ 1 →
      e.evaluate trig (-x) y = e.sign .x * e.evaluate trig x y ∧
      e.evaluate trig x (-y) = e.sign .y * e.evaluate trig x y := by
  constructor
  · intro axis
    rw [sign_eq_sign_parity]
    exact (e.parity axis).sign_eq_one_or_neg_one
  · rintro x y ⟨hx, hx'⟩ ⟨hy, hy'⟩
    have hfst : InUnit (x, y).1 := ⟨hx, hx'⟩
    have hsnd : InUnit (x, y).2 := ⟨hy, hy'⟩
    rw [sign_eq_sign_parity, sign_eq_sign_parity, Parity.sign_mul_eq_apply,
      Parity.sign_mul_eq_apply]
    exact ⟨e.evaluate_turn ht hp hfst hsnd .x, e.evaluate_turn ht hp hfst hsnd .y⟩

/-- Where the value is a zero, the sign still shows: reflected in the first coordinate, the value at
`(0, 1)` becomes the other zero, and in the second it stays. -/
theorem evaluate_reflected_zero :
    (product (sine (leaf .x)) (cosine (leaf .y))).sign .x = -1 ∧
    (product (sine (leaf .x)) (cosine (leaf .y))).sign .y = 1 ∧
    (product (sine (leaf .x)) (cosine (leaf .y))).evaluate .coarse (-0) 1 =
      -1 * (product (sine (leaf .x)) (cosine (leaf .y))).evaluate .coarse 0 1 ∧
    (product (sine (leaf .x)) (cosine (leaf .y))).evaluate .coarse 0 (-1) =
      1 * (product (sine (leaf .x)) (cosine (leaf .y))).evaluate .coarse 0 1 := by
  have h0 : -1 ≤ (0 : Float) ∧ (0 : Float) ≤ 1 := ⟨inUnit_zero.neg_one_le, inUnit_zero.le_one⟩
  have h1 : -1 ≤ (1 : Float) ∧ (1 : Float) ≤ 1 := ⟨inUnit_one.neg_one_le, inUnit_one.le_one⟩
  have hx : (product (sine (leaf .x)) (cosine (leaf .y))).sign .x = -1 := rfl
  have hy : (product (sine (leaf .x)) (cosine (leaf .y))).sign .y = 1 := rfl
  have hvalue := (evaluate_reflected .coarse Trig.coarse_bounded Trig.coarse_oddEven
    (product (sine (leaf .x)) (cosine (leaf .y)))).2 0 1 h0 h1
  rw [hx, hy] at hvalue
  exact ⟨hx, hy, hvalue⟩

end Expr

end Identicon
