import Identicon.Expr.Basic
import Mathlib

/-!
# Written forms and factors

The written form of an expression shows its factors from left to right and hides how they are
grouped. An expression is taken apart into its factors, none of which is a product: a leaf, or the
sine or cosine of what is again a list of factors. Two expressions are written alike exactly if they
have the same factors (`Expr.formula_eq_iff`), and that is the case exactly if one can be regrouped
into the other (`Expr.factors_eq_iff_regroups`).

The star that joins two factors also stands between `pi` and an argument, where it can be read as
the star in front of the first factor. With a star in front of every factor, the text of a list
needs no rule for its first element, and it is read from left to right: a factor is known by its
first letter, apart from `x` and `xy`, and a list ends where no star follows. Both are proved for
all texts that can follow (`Factor.append_inj`, `Factor.starred_append_inj`), by one induction on
factors and lists of factors.

## Main definitions

* `Factor`, `Expr.factors`: the factors of an expression.
* `Factor.text`, `Factor.starred`: the written form of a factor and of a list of factors.
* `Expr.Regroups`: grouping the factors of products in another way.
-/

namespace Identicon

/-- An expression that is no product, down to the factors of its argument. -/
inductive Factor where
  | leaf (l : Leaf)
  | sine (arg : List Factor)
  | cosine (arg : List Factor)

/-- The factors of an expression from left to right. -/
def Expr.factors : Expr → List Factor
  | leaf l => [.leaf l]
  | product lhs rhs => lhs.factors ++ rhs.factors
  | sine arg => [.sine arg.factors]
  | cosine arg => [.cosine arg.factors]

namespace Expr

variable {lhs rhs arg : Expr}

theorem formula_leaf (l : Leaf) : (leaf l).formula = l.symbol := rfl

theorem formula_product : (product lhs rhs).formula = lhs.formula ++ '*' :: rhs.formula := rfl

theorem formula_sine :
    (sine arg).formula = ['s', 'i', 'n', '(', 'p', 'i', '*'] ++ arg.formula ++ [')'] := rfl

theorem formula_cosine :
    (cosine arg).formula = ['c', 'o', 's', '(', 'p', 'i', '*'] ++ arg.formula ++ [')'] := rfl

end Expr

namespace Factor

mutual

/-- The written form. -/
def text : Factor → List Char
  | leaf l => l.symbol
  | sine arg => ['s', 'i', 'n', '(', 'p', 'i'] ++ starred arg ++ [')']
  | cosine arg => ['c', 'o', 's', '(', 'p', 'i'] ++ starred arg ++ [')']

/-- The written forms of the factors, each after a star. -/
def starred : List Factor → List Char
  | [] => []
  | f :: fs => '*' :: f.text ++ starred fs

end

variable {f g : Factor} {fs gs arg : List Factor} {rest rest' : List Char}

theorem text_leaf (l : Leaf) : (leaf l).text = l.symbol := by rw [text]

theorem text_sine :
    (sine arg).text = ['s', 'i', 'n', '(', 'p', 'i'] ++ starred arg ++ [')'] := by rw [text]

theorem text_cosine :
    (cosine arg).text = ['c', 'o', 's', '(', 'p', 'i'] ++ starred arg ++ [')'] := by rw [text]

@[simp]
theorem starred_nil : starred [] = [] := by rw [starred]

@[simp]
theorem starred_cons (f : Factor) (fs : List Factor) :
    starred (f :: fs) = '*' :: f.text ++ starred fs := by rw [starred]

theorem starred_append (fs gs : List Factor) : starred (fs ++ gs) = starred fs ++ starred gs := by
  induction fs with
  | nil => rw [List.nil_append, starred_nil, List.nil_append]
  | cons f fs ih => rw [List.cons_append, starred_cons, starred_cons, ih, List.append_assoc]

/-- The factors of an expression tell how it is written. -/
theorem starred_factors (e : Expr) : starred e.factors = '*' :: e.formula := by
  induction e with
  | leaf l =>
    rw [Expr.factors, starred_cons, starred_nil, text_leaf, Expr.formula_leaf, List.append_nil]
  | product lhs rhs ihl ihr =>
    rw [Expr.factors, starred_append, ihl, ihr, Expr.formula_product, List.cons_append]
  | sine arg ih =>
    rw [Expr.factors, starred_cons, starred_nil, text_sine, ih, Expr.formula_sine]
    simp
  | cosine arg ih =>
    rw [Expr.factors, starred_cons, starred_nil, text_cosine, ih, Expr.formula_cosine]
    simp

/-! ## Reading a written form -/

/-- Where a factor ends, no letter `y` follows, so that `x` is not taken for the start of `xy`. -/
def EndsFactor (rest : List Char) : Prop :=
  rest.head? ≠ some 'y'

/-- Where a list of factors ends, no star follows either. -/
def EndsFactors (rest : List Char) : Prop :=
  EndsFactor rest ∧ rest.head? ≠ some '*'

theorem endsFactors_nil : EndsFactors [] := ⟨nofun, nofun⟩

theorem endsFactors_paren (rest : List Char) : EndsFactors (')' :: rest) := by
  constructor
  · simp [EndsFactor]
  · simp

/-- In a list each factor ends where the next one begins with its star. -/
theorem EndsFactors.endsFactor_starred_append (h : EndsFactors rest) (fs : List Factor) :
    EndsFactor (starred fs ++ rest) := by
  cases fs with
  | nil => exact h.1
  | cons f fs => simp [EndsFactor]

theorem symbol_append_inj {l l' : Leaf} (hrest : EndsFactor rest) (hrest' : EndsFactor rest')
    (h : l.symbol ++ rest = l'.symbol ++ rest') : l = l' ∧ rest = rest' := by
  cases l <;> cases l' <;> grind [Leaf.symbol, EndsFactor]

mutual

/-- A factor is read off the beginning of a text, and what remains is determined too. -/
theorem append_inj (f g : Factor) {rest rest' : List Char} (hrest : EndsFactor rest)
    (hrest' : EndsFactor rest') (h : f.text ++ rest = g.text ++ rest') : f = g ∧ rest = rest' := by
  cases f with
  | leaf l =>
    cases g with
    | leaf l' =>
      rw [text_leaf, text_leaf] at h
      obtain ⟨rfl, hr⟩ := symbol_append_inj hrest hrest' h
      exact ⟨rfl, hr⟩
    | sine | cosine => cases l <;> simp [text_leaf, text_sine, text_cosine, Leaf.symbol] at h
  | sine arg =>
    cases g with
    | sine arg' =>
      rw [text_sine, text_sine] at h
      simp only [List.append_assoc, List.append_cancel_left_eq] at h
      obtain ⟨rfl, hr⟩ := starred_append_inj arg arg' (endsFactors_paren rest)
        (endsFactors_paren rest') h
      exact ⟨rfl, (List.cons.inj hr).2⟩
    | leaf l => cases l <;> simp [text_leaf, text_sine, Leaf.symbol] at h
    | cosine => simp [text_cosine, text_sine] at h
  | cosine arg =>
    cases g with
    | cosine arg' =>
      rw [text_cosine, text_cosine] at h
      simp only [List.append_assoc, List.append_cancel_left_eq] at h
      obtain ⟨rfl, hr⟩ := starred_append_inj arg arg' (endsFactors_paren rest)
        (endsFactors_paren rest') h
      exact ⟨rfl, (List.cons.inj hr).2⟩
    | leaf l => cases l <;> simp [text_leaf, text_cosine, Leaf.symbol] at h
    | sine => simp [text_cosine, text_sine] at h

/-- A list of factors is read off the beginning of a text up to where no star follows. -/
theorem starred_append_inj (fs gs : List Factor) {rest rest' : List Char} (hrest : EndsFactors rest)
    (hrest' : EndsFactors rest') (h : starred fs ++ rest = starred gs ++ rest') :
    fs = gs ∧ rest = rest' := by
  cases fs with
  | nil =>
    cases gs with
    | nil => exact ⟨rfl, h⟩
    | cons g gs =>
      rw [starred_nil, List.nil_append] at h
      exact absurd (by rw [h, starred_cons]; rfl) hrest.2
  | cons f fs =>
    cases gs with
    | nil =>
      rw [starred_nil, List.nil_append] at h
      exact absurd (by rw [← h, starred_cons]; rfl) hrest'.2
    | cons g gs =>
      simp only [starred_cons, List.cons_append, List.append_assoc, List.cons.injEq] at h
      obtain ⟨rfl, htail⟩ := append_inj f g (hrest.endsFactor_starred_append fs)
        (hrest'.endsFactor_starred_append gs) h.2
      obtain ⟨rfl, hr⟩ := starred_append_inj fs gs hrest hrest' htail
      exact ⟨rfl, hr⟩

end

end Factor

namespace Expr

open Factor

variable {a b : Expr}

theorem display_eq_iff : a.display = b.display ↔ a.formula = b.formula := by
  rw [display, display, String.ofList_inj]

/-- Expressions are written alike if they have the same factors, and only then. -/
theorem formula_eq_iff : a.formula = b.formula ↔ a.factors = b.factors := by
  constructor
  · intro h
    have hstarred : starred a.factors ++ [] = starred b.factors ++ [] := by
      rw [starred_factors, starred_factors, h]
    exact (starred_append_inj _ _ endsFactors_nil endsFactors_nil hstarred).1
  · intro h
    have hstarred : '*' :: a.formula = '*' :: b.formula := by
      rw [← starred_factors, ← starred_factors, h]
    exact (List.cons.inj hstarred).2

/-! ## Regrouping -/

/-- One expression becomes the other when the factors of products, at the top or inside, are grouped
in another way. -/
inductive Regroups : Expr → Expr → Prop
  | refl (a : Expr) : Regroups a a
  | symm {a b : Expr} : Regroups a b → Regroups b a
  | trans {a b c : Expr} : Regroups a b → Regroups b c → Regroups a c
  | assoc (a b c : Expr) : Regroups (product (product a b) c) (product a (product b c))
  | product {a a' b b' : Expr} : Regroups a a' → Regroups b b' →
      Regroups (product a b) (product a' b')
  | sine {a a' : Expr} : Regroups a a' → Regroups (sine a) (sine a')
  | cosine {a a' : Expr} : Regroups a a' → Regroups (cosine a) (cosine a')

/-- Regrouping keeps the factors. -/
theorem Regroups.factors_eq (h : Regroups a b) : a.factors = b.factors := by
  induction h with
  | refl a => rfl
  | symm _ ih => exact ih.symm
  | trans _ _ ih ih' => exact ih.trans ih'
  | assoc a b c => simp only [factors, List.append_assoc]
  | product _ _ ih ih' => simp only [factors, ih, ih']
  | sine _ ih => simp only [factors, ih]
  | cosine _ ih => simp only [factors, ih]

end Expr

namespace Factor

mutual

/-- The expression of a factor. -/
def toExpr : Factor → Expr
  | leaf l => .leaf l
  | sine arg => .sine (prod arg)
  | cosine arg => .cosine (prod arg)

/-- The product of the factors, grouped to the right. There is none without factors, and any
expression stands for it. -/
def prod : List Factor → Expr
  | [] => .leaf .x
  | [f] => f.toExpr
  | f :: fs => .product f.toExpr (prod fs)

end

theorem prod_singleton (f : Factor) : prod [f] = f.toExpr := by rw [prod]

theorem prod_cons (f : Factor) (h : fs ≠ []) : prod (f :: fs) = .product f.toExpr (prod fs) := by
  rw [prod]
  exact h

/-- The factors of two products in a row make the product of the two. -/
theorem regroups_prod_append (hfs : fs ≠ []) (hgs : gs ≠ []) :
    Expr.Regroups (prod (fs ++ gs)) (.product (prod fs) (prod gs)) := by
  induction fs with
  | nil => exact absurd rfl hfs
  | cons f fs ih =>
    rw [List.cons_append]
    by_cases h : fs = []
    · subst h
      rw [List.nil_append, prod_cons f hgs, prod_singleton]
      exact .refl _
    · -- the first factor moves into the group of those after it
      rw [prod_cons f (List.append_ne_nil_of_left_ne_nil h gs), prod_cons f h]
      exact (Expr.Regroups.product (.refl _) (ih h)).trans (.symm (.assoc _ _ _))

end Factor

namespace Expr

open Factor

theorem factors_ne_nil (e : Expr) : e.factors ≠ [] := by
  induction e with
  | product lhs rhs ihl _ => exact List.append_ne_nil_of_left_ne_nil ihl _
  | leaf | sine | cosine => exact List.cons_ne_nil _ _

/-- Every expression can be regrouped into the product of its factors. -/
theorem regroups_prod_factors (e : Expr) : Regroups e (prod e.factors) := by
  induction e with
  | leaf l =>
    rw [factors, prod_singleton, toExpr]
    exact .refl _
  | product lhs rhs ihl ihr =>
    exact (Regroups.product ihl ihr).trans
      (.symm (regroups_prod_append lhs.factors_ne_nil rhs.factors_ne_nil))
  | sine arg ih =>
    rw [factors, prod_singleton, toExpr]
    exact .sine ih
  | cosine arg ih =>
    rw [factors, prod_singleton, toExpr]
    exact .cosine ih

/-- Expressions with the same factors differ in the grouping alone. -/
theorem factors_eq_iff_regroups : a.factors = b.factors ↔ Regroups a b := by
  constructor
  · intro h
    have hb := b.regroups_prod_factors
    rw [← h] at hb
    exact a.regroups_prod_factors.trans hb.symm
  · exact Regroups.factors_eq

/-- **What a written form leaves open is the grouping of factors and nothing else.** -/
theorem display_eq_iff_factors_eq (a b : Expr) :
    (a.display = b.display ↔ a.factors = b.factors) ∧
      (a.display = b.display ↔ Regroups a b) :=
  ⟨display_eq_iff.trans formula_eq_iff,
    display_eq_iff.trans (formula_eq_iff.trans factors_eq_iff_regroups)⟩

/-- Three factors can be grouped in two ways. -/
example : (product (product (leaf .x) (leaf .y)) (leaf .x)).display =
    (product (leaf .x) (product (leaf .y) (leaf .x))).display := rfl

end Expr

end Identicon
