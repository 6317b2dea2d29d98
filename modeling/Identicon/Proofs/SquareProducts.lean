import Identicon.Proofs.Avatar
import Identicon.Proofs.Factors

/-!
# Written forms of grown expressions

In general a written form leaves the grouping of factors open. Both factors of a grown product are
the same expression, though, and this settles the grouping: the list of factors of such a product is
one list twice, so that its halves are the factors of the two sides. The expression is recovered by
going down from there, and no other grown expression has the same written form.

The seeds of an avatar grow its expressions, of which it tells the written forms. Comparing these is
therefore as good as comparing the expressions.
-/

namespace Identicon

namespace Expr

/-- Both factors of every product are the same expression. -/
def SquareProducts : Expr → Prop
  | leaf _ => True
  | product lhs rhs => lhs = rhs ∧ lhs.SquareProducts
  | sine arg => arg.SquareProducts
  | cosine arg => arg.SquareProducts

theorem squareProducts_growLevels (levels : ℕ) (value : Float) :
    (growLevels levels value).SquareProducts := by
  induction levels generalizing value with
  | zero => trivial
  | succ levels ih =>
    rw [growLevels]
    dsimp only
    -- one value is handed on to both factors
    split
    · trivial
    · exact ⟨rfl, ih _⟩
    · exact ih _
    · exact ih _

theorem squareProducts_growAt (value : Float) (depth : ℕ) : (growAt value depth).SquareProducts :=
  squareProducts_growLevels _ value

variable {a b lhs rhs : Expr}

theorem factors_product_ne_singleton (f : Factor) : (product lhs rhs).factors ≠ [f] := by
  intro h
  have hlen := congrArg List.length h
  have hl := List.length_pos_iff.mpr lhs.factors_ne_nil
  have hr := List.length_pos_iff.mpr rhs.factors_ne_nil
  rw [factors, List.length_append, List.length_singleton] at hlen
  omega

/-- Where all products are squares, the factors tell their grouping. -/
theorem eq_of_factors_eq (ha : a.SquareProducts) (hb : b.SquareProducts)
    (h : a.factors = b.factors) : a = b := by
  induction a generalizing b with
  | leaf l =>
    cases b with
    | leaf l' =>
      simp only [factors, List.cons.injEq, Factor.leaf.injEq, and_true] at h
      rw [h]
    | product lhs rhs => exact absurd h.symm (factors_product_ne_singleton _)
    | sine | cosine => simp [factors] at h
  | product lhs rhs ihl _ =>
    cases b with
    | product lhs' rhs' =>
      obtain ⟨rfl, hl⟩ := ha
      obtain ⟨rfl, hl'⟩ := hb
      rw [factors, factors] at h
      -- each list is a list twice, and equally long lists have equally long halves
      have hlen : lhs.factors.length = lhs'.factors.length := by
        have htwice := congrArg List.length h
        rw [List.length_append, List.length_append] at htwice
        omega
      rw [ihl hl hl' (List.append_inj_left h hlen)]
    | leaf | sine | cosine => exact absurd h (factors_product_ne_singleton _)
  | sine arg ih =>
    cases b with
    | sine arg' =>
      simp only [factors, List.cons.injEq, Factor.sine.injEq, and_true] at h
      have hb' : arg'.SquareProducts := hb
      rw [ih ha hb' h]
    | product lhs rhs => exact absurd h.symm (factors_product_ne_singleton _)
    | leaf | cosine => simp [factors] at h
  | cosine arg ih =>
    cases b with
    | cosine arg' =>
      simp only [factors, List.cons.injEq, Factor.cosine.injEq, and_true] at h
      have hb' : arg'.SquareProducts := hb
      rw [ih ha hb' h]
    | product lhs rhs => exact absurd h.symm (factors_product_ne_singleton _)
    | leaf | sine => simp [factors] at h

theorem eq_of_display_eq (ha : a.SquareProducts) (hb : b.SquareProducts)
    (h : a.display = b.display) : a = b :=
  eq_of_factors_eq ha hb (formula_eq_iff.mp (display_eq_iff.mp h))

end Expr

/-- The written form of a grown expression tells the expression, whatever the values and depths it
was grown from. Where two avatars tell the same written form, their expressions are therefore the
same and have the same value at every point. -/
theorem Avatar.expressions_tell_apart :
    (∀ (v w : Float) (d d' : ℕ),
      (Expr.growAt v d).display = (Expr.growAt w d').display ↔
        Expr.growAt v d = Expr.growAt w d') ∧
    ∀ (trig trig' : Trig) (interleaving interleaving' : Interleaving)
      (identifier identifier' : String) (o o' : Options) (a a' : Avatar),
      renderUnder interleaving trig identifier o = .ok a →
      renderUnder interleaving' trig' identifier' o' = .ok a' →
      ∀ c c' : Channel,
        (a.expressions.get c = a'.expressions.get c' ↔
          Expr.grow (a.seeds.get c) = Expr.grow (a'.seeds.get c')) ∧
        (a.expressions.get c = a'.expressions.get c' → ∀ (t : Trig) (x y : Float),
          (Expr.grow (a.seeds.get c)).evaluate t x y =
            (Expr.grow (a'.seeds.get c')).evaluate t x y) := by
  have hgrown : ∀ (v w : Float) (d d' : ℕ),
      (Expr.growAt v d).display = (Expr.growAt w d').display ↔
        Expr.growAt v d = Expr.growAt w d' := by
    intro v w d d'
    constructor
    · exact Expr.eq_of_display_eq (Expr.squareProducts_growAt v d) (Expr.squareProducts_growAt w d')
    · exact congrArg Expr.display
  refine ⟨hgrown, ?_⟩
  intro trig trig' interleaving interleaving' identifier identifier' o o' a a' ha ha' c c'
  rw [get_expressions_of_renderUnder_eq_ok ha, get_expressions_of_renderUnder_eq_ok ha']
  refine ⟨hgrown _ _ 0 0, ?_⟩
  intro h t x y
  rw [Expr.grow, Expr.grow, (hgrown _ _ 0 0).mp h]

/-- Letters in upper and lower case get the same expressions, here at two sizes. -/
theorem Avatar.expressions_tell_apart_abc :
    ∃ a a' : Avatar,
      renderUnder (.ofWorkers 2) .coarse "abc" ⟨1, .strict, true, some 2⟩ = .ok a ∧
      renderUnder (.ofWorkers 1) .coarse "ABC" ⟨2, .clamp, false, none⟩ = .ok a' ∧
      ∀ c : Channel, a.expressions.get c = a'.expressions.get c ∧
        Expr.grow (a.seeds.get c) = Expr.grow (a'.seeds.get c) := by
  have habc : lowercaseOf "ABC" = lowercaseOf "abc" := by decide +kernel
  have hlong : 3 ≤ (lowercaseOf "abc").length := by decide +kernel
  have ho : Options.Accepted ⟨1, .strict, true, some 2⟩ := ⟨by decide, by decide⟩
  have ho' : Options.Accepted ⟨2, .clamp, false, none⟩ := ⟨by decide, by decide⟩
  have ha : renderUnder (.ofWorkers 2) .coarse "abc" ⟨1, .strict, true, some 2⟩ = _ :=
    renderUnder_of_accepted Trig.coarse_bounded ho hlong
  have ha' : renderUnder (.ofWorkers 1) .coarse "ABC" ⟨2, .clamp, false, none⟩ = _ :=
    renderUnder_of_accepted Trig.coarse_bounded ho' (by rw [habc]; exact hlong)
  refine ⟨_, _, ha, ha', ?_⟩
  intro c
  have htell := (expressions_tell_apart.2 _ _ _ _ _ _ _ _ _ _ ha ha' c c).1
  rw [← htell, and_self, habc]
  rfl

end Identicon
