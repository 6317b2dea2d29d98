import Identicon.Proofs.WholePart

/-!
# The levels of grown expressions

A value at a depth grows a tree whose leaves all stand at the same level, the one where growing
ends. Each node hands one value on, so that the factors of a product are the same tree and a level
holds one tree over and over. This one invariant, `Expr.Layered`, settles the depth, what can stand
at a level, and the number of nodes, which doubles from a level of products to the next and stays
the same otherwise.

Growing is followed down the tree from value to value (`Expr.Reaches`), which accounts for every
node of the result (`Expr.nodeAt_growAt_iff`) and shows that the depth is counted up below the
greatest depth only.

## Main definitions

* `Expr.NodeAt`: the nodes of an expression, by level.
* `Expr.Layered`: equally long branches, and products of equal factors.
* `Expr.IsLevelled`: what follows for the levels and the number of nodes.
* `Expr.Reaches`: the values and depths that growing comes to.
-/

namespace Identicon

namespace Expr

/-! ## Nodes by level -/

/-- The expressions right below the root. -/
def branches : Expr → List Expr
  | leaf _ => []
  | product lhs rhs => [lhs, rhs]
  | sine arg => [arg]
  | cosine arg => [arg]

/-- The expression `s` stands `i` steps below the root of `e`. -/
inductive NodeAt (e : Expr) : ℕ → Expr → Prop where
  | root : NodeAt e 0 e
  | branch {s b : Expr} {i : ℕ} : NodeAt e i s → b ∈ s.branches → NodeAt e (i + 1) b

/-- Whether there is a product `i` steps below the root. -/
def productAt : ℕ → Expr → Bool
  | 0, product _ _ => true
  | 0, _ => false
  | i + 1, e => e.branches.any (productAt i)

/-- The number of levels of products above a level. -/
def productsAbove (e : Expr) (i : ℕ) : ℕ :=
  (List.range i).countP (productAt · e)

variable {e s t lhs rhs : Expr} {i n : ℕ}

theorem nodeAt_zero_iff : NodeAt e 0 s ↔ s = e := by
  constructor
  · intro h
    cases h
    rfl
  · rintro rfl
    exact .root

/-- The first step leads to a branch of the root. -/
theorem nodeAt_succ_iff : NodeAt e (i + 1) s ↔ ∃ b ∈ e.branches, NodeAt b i s := by
  constructor
  · intro h
    induction i generalizing s with
    | zero =>
      cases h with
      | branch hroot hs => exact ⟨s, nodeAt_zero_iff.mp hroot ▸ hs, .root⟩
    | succ i ih =>
      cases h with
      | branch hp hs =>
        obtain ⟨b, hb, hp⟩ := ih hp
        exact ⟨b, hb, .branch hp hs⟩
  · rintro ⟨b, hb, h⟩
    induction h with
    | root => exact .branch .root hb
    | branch _ hs ih => exact .branch ih hs

theorem productAt_iff : productAt i e = true ↔ ∃ lhs rhs, NodeAt e i (product lhs rhs) := by
  induction i generalizing e with
  | zero => cases e <;> simp [productAt, nodeAt_zero_iff]
  | succ i ih =>
    rw [productAt, List.any_eq_true]
    simp only [nodeAt_succ_iff, ih]
    constructor
    · rintro ⟨b, hb, lhs, rhs, h⟩
      exact ⟨lhs, rhs, b, hb, h⟩
    · rintro ⟨lhs, rhs, b, hb, h⟩
      exact ⟨b, hb, lhs, rhs, h⟩

theorem productsAbove_succ (e : Expr) (i : ℕ) :
    e.productsAbove (i + 1) =
      (List.range i).countP (fun j => e.branches.any (productAt j)) +
        if productAt 0 e then 1 else 0 := by
  rw [productsAbove, List.range_succ_eq_map, List.countP_cons, List.countP_map]
  rfl

/-! ## Trees of equal branches -/

/-- All ways from the root to a leaf take `n` steps, and the factors of each product are the same
expression. -/
inductive Layered : ℕ → Expr → Prop where
  | leaf (l : Leaf) : Layered 0 (leaf l)
  | product {n : ℕ} {e : Expr} : Layered n e → Layered (n + 1) (product e e)
  | sine {n : ℕ} {e : Expr} : Layered n e → Layered (n + 1) (sine e)
  | cosine {n : ℕ} {e : Expr} : Layered n e → Layered (n + 1) (cosine e)

namespace Layered

theorem depth_eq (h : Layered n e) : e.depth = n := by
  induction h with
  | leaf l => rfl
  | product _ ih => rw [depth, ih, max_self, Nat.add_comm]
  | sine _ ih | cosine _ ih => rw [depth, ih, Nat.add_comm]

/-- Above the leaves there are branches, and they are one and the same expression. -/
theorem exists_branches_eq (h : Layered (n + 1) e) :
    ∃ b, Layered n b ∧ b ∈ e.branches ∧ ∀ b' ∈ e.branches, b' = b := by
  cases h with
  | product hb | sine hb | cosine hb => exact ⟨_, hb, by simp [branches], by simp [branches]⟩

/-- What stands at a level is a tree of the same kind that reaches down to the leaves. -/
theorem nodeAt (h : Layered n e) (hs : NodeAt e i s) : ∃ m, n = i + m ∧ Layered m s := by
  induction hs with
  | root => exact ⟨n, (Nat.zero_add n).symm, h⟩
  | branch _ hb ih =>
    obtain ⟨m, rfl, hm⟩ := ih
    cases m with
    | zero =>
      cases hm
      cases hb
    | succ m =>
      obtain ⟨b, hlayered, -, hall⟩ := hm.exists_branches_eq
      exact ⟨m, by omega, hall _ hb ▸ hlayered⟩

theorem isLeaf_iff (h : Layered n e) (hs : NodeAt e i s) : (∃ l, s = .leaf l) ↔ i = n := by
  obtain ⟨m, rfl, hm⟩ := h.nodeAt hs
  constructor
  · rintro ⟨l, rfl⟩
    cases hm
    rfl
  · intro hi
    obtain rfl : m = 0 := by omega
    cases hm with
    | leaf l => exact ⟨l, rfl⟩

theorem factors_eq (h : Layered n e) (hs : NodeAt e i (.product lhs rhs)) : lhs = rhs := by
  obtain ⟨m, -, hm⟩ := h.nodeAt hs
  cases hm
  rfl

theorem level_eq (h : Layered n e) (hs : NodeAt e i s) (ht : NodeAt e i t) : s = t := by
  induction i generalizing s t with
  | zero => rw [nodeAt_zero_iff.mp hs, nodeAt_zero_iff.mp ht]
  | succ i ih =>
    -- both stand below the one expression of the level above
    cases hs with
    | branch hp hs =>
      cases ht with
      | branch hp' ht =>
        obtain rfl := ih hp hp'
        obtain ⟨m, -, hm⟩ := h.nodeAt hp
        cases m with
        | zero =>
          cases hm
          cases hs
        | succ m =>
          obtain ⟨b, -, -, hall⟩ := hm.exists_branches_eq
          rw [hall s hs, hall t ht]

theorem exists_nodeAt (h : Layered n e) (hi : i ≤ n) : ∃ s, NodeAt e i s := by
  induction i with
  | zero => exact ⟨e, .root⟩
  | succ i ih =>
    obtain ⟨s, hs⟩ := ih (by omega)
    obtain ⟨m, rfl, hm⟩ := h.nodeAt hs
    obtain ⟨m, rfl⟩ : ∃ m', m = m' + 1 := Nat.exists_eq_succ_of_ne_zero (by omega)
    obtain ⟨b, -, hb, -⟩ := hm.exists_branches_eq
    exact ⟨b, .branch hs hb⟩

theorem le_nodeCount (h : Layered n e) : n + 1 ≤ e.nodeCount := by
  induction h with
  | leaf l => exact le_rfl
  | product _ ih | sine _ ih | cosine _ ih =>
    rw [nodeCount]
    omega

theorem nodeCount_lt (h : Layered n e) : e.nodeCount < 2 ^ (n + 1) := by
  induction h with
  | leaf l => exact Nat.one_lt_two
  | product _ ih | sine _ ih | cosine _ ih =>
    rw [nodeCount, Nat.pow_succ]
    omega

/-- A level has twice as many nodes as the one above if that one has products, and as many
otherwise. -/
theorem nodeCount_eq (h : Layered n e) :
    e.nodeCount = ∑ i ∈ Finset.range (n + 1), 2 ^ e.productsAbove i := by
  induction h with
  | leaf l => rfl
  | @product n e _ ih =>
    have hlevel : ∀ i, (Expr.product e e).productsAbove (i + 1) = e.productsAbove i + 1 := by
      intro i
      rw [productsAbove_succ]
      simp only [branches, List.any_cons, List.any_nil, Bool.or_false, Bool.or_self]
      rfl
    have hroot : (Expr.product e e).productsAbove 0 = 0 := rfl
    rw [nodeCount, ih, Finset.sum_range_succ' _ (n + 1)]
    simp only [hlevel, hroot, Nat.pow_succ, ← Finset.sum_mul]
    omega
  | @sine n e _ ih | @cosine n e _ ih =>
    rw [nodeCount, ih, Finset.sum_range_succ' _ (n + 1), Nat.add_comm]
    simp only [productsAbove_succ, branches, List.any_cons, List.any_nil, Bool.or_false]
    rfl

end Layered

/-- What is known of the levels and the number of nodes of an expression in which every way from the
root to a leaf takes `height` steps and a level holds one tree over and over. -/
structure IsLevelled (e : Expr) (height : ℕ) : Prop where
  depth_eq : e.depth = height
  /-- Every level down to `height` has nodes, and the leaves are those at this level. -/
  nodeAt : (∀ i, (∃ s, NodeAt e i s) ↔ i ≤ height) ∧
    ∀ i s, NodeAt e i s → ((∃ l, s = leaf l) ↔ i = height)
  factors_eq : ∀ i lhs rhs, NodeAt e i (product lhs rhs) → lhs = rhs
  level_eq : ∀ i s t, NodeAt e i s → NodeAt e i t → s = t
  nodeCount_mem : height + 1 ≤ e.nodeCount ∧ e.nodeCount ≤ 2 ^ (height + 1) - 1
  /-- The levels of products that count are those where a product stands. -/
  productAt_iff : ∀ i, productAt i e = true ↔ ∃ lhs rhs, NodeAt e i (product lhs rhs)
  nodeCount_eq : e.nodeCount = ∑ i ∈ Finset.range (height + 1), 2 ^ e.productsAbove i

theorem Layered.isLevelled (h : Layered n e) : e.IsLevelled n where
  depth_eq := h.depth_eq
  nodeAt := by
    refine ⟨fun i => ⟨?_, h.exists_nodeAt⟩, fun i s => h.isLeaf_iff⟩
    rintro ⟨s, hs⟩
    obtain ⟨m, rfl, -⟩ := h.nodeAt hs
    exact Nat.le_add_right i m
  factors_eq := fun _ _ _ => h.factors_eq
  level_eq := fun _ _ _ => h.level_eq
  nodeCount_mem := ⟨h.le_nodeCount, Nat.le_sub_one_of_lt h.nodeCount_lt⟩
  productAt_iff := fun _ => Expr.productAt_iff
  nodeCount_eq := h.nodeCount_eq

end Expr

/-! ## Growing from value to value -/

theorem Rule.select_eq_terminal_iff {value : Float} {depth : ℕ} :
    Rule.select value depth = .terminal ↔ Expr.greatestDepth ≤ depth := by
  rw [Rule.select, Rule.atRoot, Rule.inside]
  split_ifs with h0 <;> simp_all [Expr.greatestDepth]

namespace Expr

variable {value w : Float} {depth k : ℕ}

/-- What a value at a depth makes, in terms of what it hands on to the next depth. -/
theorem growAt_eq (value : Float) (depth : ℕ) :
    growAt value depth =
      match Rule.select value depth with
      | .terminal => leaf (.ofSeed value)
      | .product =>
        product (growAt (productSeed value depth) (depth + 1))
          (growAt (productSeed value depth) (depth + 1))
      | .sine => sine (growAt (trigSeed value) (depth + 1))
      | .cosine => cosine (growAt (trigSeed value) (depth + 1)) := by
  by_cases h : greatestDepth ≤ depth
  · rw [Rule.select_eq_terminal_iff.mpr h, growAt, Nat.sub_eq_zero_of_le h]
    rfl
  · have hlevels : greatestDepth - depth = greatestDepth - (depth + 1) + 1 := by omega
    have hdepth : greatestDepth - (greatestDepth - (depth + 1) + 1) = depth := by omega
    rw [growAt, hlevels, growLevels]
    dsimp only
    rw [hdepth]
    cases Rule.select value depth <;> rfl

theorem layered_growAt (value : Float) (depth : ℕ) :
    Layered (greatestDepth - depth) (growAt value depth) := by
  induction h : greatestDepth - depth generalizing value depth with
  | zero =>
    rw [growAt_eq, Rule.select_eq_terminal_iff.mpr (Nat.sub_eq_zero_iff_le.mp h)]
    exact .leaf _
  | succ n ih =>
    have hnext : ∀ w, Layered n (growAt w (depth + 1)) := fun w => ih w (depth + 1) (by omega)
    have hrule : Rule.select value depth ≠ .terminal := by
      rw [ne_eq, Rule.select_eq_terminal_iff]
      omega
    rw [growAt_eq]
    cases hselect : Rule.select value depth with
    | terminal => exact absurd hselect hrule
    | product => exact .product (hnext _)
    | sine => exact .sine (hnext _)
    | cosine => exact .cosine (hnext _)

/-- The value that a value at a depth hands on to the branches of its node, if it has any. -/
def handedOn (value : Float) (depth : ℕ) : Option Float :=
  match Rule.select value depth with
  | .terminal => none
  | .product => some (productSeed value depth)
  | .sine | .cosine => some (trigSeed value)

theorem lt_of_handedOn_eq_some (h : handedOn value depth = some w) : depth < greatestDepth := by
  by_contra hdepth
  rw [handedOn, Rule.select_eq_terminal_iff.mpr (not_lt.mp hdepth)] at h
  cases h

/-- The branches of a grown expression are grown from the value that is handed on. -/
theorem mem_branches_growAt_iff {b : Expr} :
    b ∈ (growAt value depth).branches ↔
      ∃ w, handedOn value depth = some w ∧ b = growAt w (depth + 1) := by
  rw [growAt_eq, handedOn]
  cases Rule.select value depth <;> simp [branches]

/-- Growing from a value at a depth comes to the value `w` at the depth `k`. -/
inductive Reaches (value : Float) (depth : ℕ) : Float → ℕ → Prop where
  | start : Reaches value depth value depth
  | step {v w : Float} {k : ℕ} : Reaches value depth v k → handedOn v k = some w →
      Reaches value depth w (k + 1)

/-- The depth is counted up as far as the greatest depth and not beyond. -/
theorem Reaches.le_max (h : Reaches value depth w k) : k ≤ max depth greatestDepth := by
  cases h with
  | start => exact le_max_left _ _
  | step _ hw => exact le_max_of_le_right (lt_of_handedOn_eq_some hw)

/-- Growing comes down one level with each step. -/
theorem Reaches.exists_nodeAt (h : Reaches value depth w k) :
    ∃ i, k = depth + i ∧ NodeAt (growAt value depth) i (growAt w k) := by
  induction h with
  | start => exact ⟨0, rfl, .root⟩
  | step _ hw ih =>
    obtain ⟨i, rfl, hi⟩ := ih
    exact ⟨i + 1, rfl, .branch hi (mem_branches_growAt_iff.mpr ⟨_, hw, rfl⟩)⟩

/-- The nodes of a grown expression are grown from the values that growing comes to. -/
theorem nodeAt_growAt_iff {i : ℕ} {s : Expr} :
    NodeAt (growAt value depth) i s ↔
      ∃ w, Reaches value depth w (depth + i) ∧ s = growAt w (depth + i) := by
  constructor
  · intro h
    induction h with
    | root => exact ⟨value, .start, rfl⟩
    | branch _ hb ih =>
      obtain ⟨v, hv, rfl⟩ := ih
      obtain ⟨w, hw, rfl⟩ := mem_branches_growAt_iff.mp hb
      exact ⟨w, .step hv hw, rfl⟩
  · rintro ⟨w, hw, rfl⟩
    obtain ⟨i', hi, h⟩ := hw.exists_nodeAt
    obtain rfl : i = i' := by omega
    exact h

/-- **All branches of a grown expression are equally long, and a level holds one tree over and
over.** The leaves stand at the level where growing ends, and the number of nodes follows from the
levels that are products. The root is a product for small values and a sine for all others, NaN
among them. Every node is grown from a value and a depth that growing comes to, and no such depth is
beyond the greatest one unless it is the one that growing began with; a depth of 32 bits is never
counted past them. -/
theorem isLevelled_growAt (value : Float) (depth : ℕ) :
    (growAt value depth).IsLevelled (6 - depth) ∧
    (value < 40 → ∃ factor, grow value = product factor factor) ∧
    (¬ value < 40 → ∃ arg, grow value = sine arg) ∧
    (∀ arg, grow value ≠ cosine arg) ∧
    (∀ i s, NodeAt (growAt value depth) i s ↔
      ∃ w, Reaches value depth w (depth + i) ∧ s = growAt w (depth + i)) ∧
    (∀ w k, Reaches value depth w k → k ≤ max depth 6) ∧
    (depth < UInt32.size → ∀ w k, Reaches value depth w k → k < UInt32.size) := by
  have hlt : value < 40 → ∃ factor, grow value = product factor factor :=
    fun h => ⟨_, grow_of_lt h⟩
  have hnot : ¬ value < 40 → ∃ arg, grow value = sine arg := fun h => ⟨_, grow_of_not_lt h⟩
  refine ⟨(layered_growAt value depth).isLevelled, hlt, hnot, ?_, fun _ _ => nodeAt_growAt_iff,
    fun _ _ => Reaches.le_max, ?_⟩
  · intro arg harg
    by_cases h : value < 40
    · obtain ⟨factor, hfactor⟩ := hlt h
      cases harg.symm.trans hfactor
    · obtain ⟨arg', harg'⟩ := hnot h
      cases harg.symm.trans harg'
  · intro hdepth w k hk
    exact hk.le_max.trans_lt (max_lt hdepth (by decide))

/-- A value below the bound of the root, and one that is no number. -/
theorem isLevelled_growAt_nan :
    (∃ factor, grow 39 = product factor factor) ∧ (∃ arg, grow (0 / 0) = sine arg) ∧
      (growAt (0 / 0) 4).depth = 2 ∧
      ∀ w k, Reaches (0 / 0) 0xffffffff w k → k < UInt32.size := by
  obtain ⟨-, hlt, -⟩ := isLevelled_growAt 39 0
  obtain ⟨-, -, hnot, -⟩ := isLevelled_growAt (0 / 0) 0
  exact ⟨hlt (by decide), hnot (by decide), (isLevelled_growAt (0 / 0) 4).1.depth_eq,
    (isLevelled_growAt (0 / 0) 0xffffffff).2.2.2.2.2.2 (by decide)⟩

end Expr

end Identicon
