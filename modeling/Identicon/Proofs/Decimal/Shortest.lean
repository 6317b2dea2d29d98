import Identicon.Decimal.Layout
import Identicon.Proofs.Decimal.Nearest

/-!
# Shortest decimals and the doubles they stand for

The shortest decimal of a double is rounded to that double.

## Shape of the argument

The numbers that are rounded to a magnitude form an interval around it, and the ends of the interval
belong to it if the significand is even (`nearest_of_covers`). On the lower side of a power of two
the doubles lie twice as close, and the end comes nearer by as much. The search for a decimal
compares whole numbers over a common denominator, which amounts to asking whether a decimal lies in
this interval (`inside_iff`), and it ends at the latest on the finest grid, since the interval is
never shorter than a step of that (`covers_finest`).

## Main definitions

* `Magnitude.value`: the number that a magnitude stands for.
* `Magnitude.Regular`: the magnitudes that doubles have.
* `Magnitude.Covers`: the numbers that are rounded to a magnitude.
-/

namespace Identicon

open Binary64
open Float.Model (UnpackedFloat)

variable {x : ℚ} {e k : ℤ} {d : ℕ} {z : Float}

namespace Magnitude

variable {m : Magnitude}

/-- The number that a magnitude stands for. -/
def value (m : Magnitude) : ℚ :=
  m.significand * 2 ^ m.exponent

/-- The magnitudes that doubles other than zero have. -/
structure Regular (m : Magnitude) : Prop where
  pos : 0 < m.significand
  lt : m.significand < 2 ^ 53
  le : leastExponent ≤ m.exponent
  le_greatest : m.exponent ≤ 971
  full : leadingBit ≤ m.significand ∨ m.exponent = leastExponent

/-- The lower end of the interval of numbers that are rounded to the magnitude. -/
def low (m : Magnitude) : ℚ :=
  (4 * m.significand - m.quartersBelow) * 2 ^ (m.exponent - 2)

/-- The upper end. -/
def high (m : Magnitude) : ℚ :=
  (4 * m.significand + 2) * 2 ^ (m.exponent - 2)

/-- The numbers between the ends, with the ends themselves if the significand is even. -/
def Covers (m : Magnitude) (x : ℚ) : Prop :=
  if m.significand % 2 = 0 then m.low ≤ x ∧ x ≤ m.high else m.low < x ∧ x < m.high

theorem Covers.le_and_le (h : m.Covers x) : m.low ≤ x ∧ x ≤ m.high := by
  rw [Covers] at h
  split_ifs at h
  · exact h
  · exact ⟨h.1.le, h.2.le⟩

/-- The ends are covered by even significands only. -/
theorem Covers.even (h : m.Covers x) (hx : x = m.low ∨ x = m.high) : Even (m.significand : ℤ) := by
  rw [Covers] at h
  split_ifs at h with heven
  · rw [Int.even_iff]
    omega
  · rcases hx with rfl | rfl
    · exact absurd h.1 (lt_irrefl _)
    · exact absurd h.2 (lt_irrefl _)

/-- At the scale of the last digit the upper end lies a half above the significand. -/
theorem high_div (m : Magnitude) : m.high / 2 ^ m.exponent = m.significand + 1 / 2 := by
  have hp := two_zpow_pos m.exponent
  rw [high, zpow_sub₀ two_ne_zero]
  field_simp
  ring

theorem low_div (m : Magnitude) :
    m.low / 2 ^ m.exponent = m.significand - m.quartersBelow / 4 := by
  have hp := two_zpow_pos m.exponent
  rw [low, zpow_sub₀ two_ne_zero]
  field_simp
  ring

theorem quartersBelow_bounds (m : Magnitude) : 1 ≤ m.quartersBelow ∧ m.quartersBelow ≤ 2 := by
  rw [quartersBelow]
  split_ifs <;> decide

/-- Above a power of two, or next to any other magnitude, the last digit is that of the
magnitude. -/
theorem ulpExponent_of_le (hm : m.Regular)
    (hlo : m.significand - 1 / 2 ≤ x / 2 ^ m.exponent)
    (hlo' : m.significand = leadingBit → leastExponent < m.exponent →
      m.significand ≤ x / 2 ^ m.exponent)
    (hhi : x / 2 ^ m.exponent ≤ m.significand + 1 / 2) : ulpExponent x = m.exponent := by
  have hp := two_zpow_pos m.exponent
  have hpos : (1 : ℚ) ≤ m.significand := by exact_mod_cast hm.pos
  have hlt : (m.significand : ℚ) + 1 ≤ 2 ^ (53 : ℤ) := by exact_mod_cast hm.lt
  have hx : 0 < x := by
    rw [← div_pos_iff_of_pos_right hp]
    linarith
  apply ulpExponent_eq hx hm.le
  · rcases hm.le.lt_or_eq with hlt | heq
    · left
      have hfull := hm.full.resolve_right hlt.ne'
      rw [add_comm, two_zpow_add, ← le_div_iff₀ hp]
      rcases hfull.lt_or_eq with hgt | heq
      · have hgt' : (leadingBit : ℚ) + 1 ≤ m.significand := by exact_mod_cast hgt
        have hbit : (leadingBit : ℚ) = 2 ^ (52 : ℤ) := by norm_num [leadingBit]
        linarith
      · have hbit : (m.significand : ℚ) = 2 ^ (52 : ℤ) := by
          rw [← heq]
          norm_num [leadingBit]
        rw [← hbit]
        exact hlo' heq.symm hlt
    · exact .inr heq.symm
  · rw [add_comm, two_zpow_add, ← div_lt_iff₀ hp]
    linarith

/-- Just below a power of two the last digit has half the value, and the power of two is an even
multiple of it. -/
theorem nearest_of_lt_leadingBit (hbit : m.significand = leadingBit)
    (hleast : leastExponent < m.exponent) (hlo : m.significand - 1 / 4 ≤ x / 2 ^ m.exponent)
    (hhi : x / 2 ^ m.exponent < m.significand) : nearest x = m.value := by
  have hp := two_zpow_pos m.exponent
  have hcast : (m.significand : ℚ) = 2 ^ (52 : ℤ) := by
    rw [hbit]
    norm_num [leadingBit]
  have hscale : x / 2 ^ (m.exponent - 1) = 2 * (x / 2 ^ m.exponent) := by
    rw [zpow_sub₀ two_ne_zero, zpow_one, div_div_eq_mul_div]
    ring
  rw [hcast] at hlo hhi
  have hulp : ulpExponent x = m.exponent - 1 := by
    apply ulpExponent_eq
    · rw [← div_pos_iff_of_pos_right hp]
      exact lt_of_lt_of_le (by norm_num) hlo
    · rw [leastExponent] at hleast
      omega
    · left
      have hexp : m.exponent - 1 + 52 = 51 + m.exponent := by ring
      rw [hexp, two_zpow_add, ← le_div_iff₀ hp]
      exact le_trans (by norm_num) hlo
    · have hexp : m.exponent - 1 + 53 = 52 + m.exponent := by ring
      rw [hexp, two_zpow_add, ← div_lt_iff₀ hp]
      exact hhi
  have hle : |x / 2 ^ (m.exponent - 1) - ((2 ^ 53 : ℤ) : ℚ)| ≤ 1 / 2 := by
    rw [hscale, abs_le]
    norm_num at hlo hhi ⊢
    constructor <;> linarith
  rw [nearest_eq_mul hulp hle (fun _ => ⟨2 ^ 52, by norm_num⟩), value, hcast,
    zpow_sub₀ two_ne_zero]
  norm_num
  ring

/-- **A number from the interval is rounded to the magnitude.** -/
theorem nearest_of_covers (hm : m.Regular) (h : m.Covers x) : nearest x = m.value := by
  have hp := two_zpow_pos m.exponent
  obtain ⟨hlow, hhigh⟩ := h.le_and_le
  rw [← div_le_div_iff_of_pos_right hp, low_div] at hlow
  rw [← div_le_div_iff_of_pos_right hp, high_div] at hhigh
  by_cases hborder : (m.significand = leadingBit ∧ leastExponent < m.exponent) ∧
      x / 2 ^ m.exponent < m.significand
  · obtain ⟨⟨hbit, hleast⟩, hlt⟩ := hborder
    rw [quartersBelow, if_pos ⟨hbit, hleast⟩, Nat.cast_one] at hlow
    exact nearest_of_lt_leadingBit hbit hleast hlow hlt
  · have hquarters : (m.quartersBelow : ℚ) ≤ 2 := by exact_mod_cast m.quartersBelow_bounds.2
    have hulp : ulpExponent x = m.exponent := by
      apply ulpExponent_of_le hm (by linarith) _ hhigh
      intro hbit hleast
      by_contra! hlt
      exact hborder ⟨⟨hbit, hleast⟩, hlt⟩
    have hle : |x / 2 ^ m.exponent - (m.significand : ℤ)| ≤ 1 / 2 := by
      rw [Int.cast_natCast, abs_le]
      constructor <;> linarith
    rw [nearest_eq_mul hulp hle, value, Int.cast_natCast]
    intro htie
    rw [Int.cast_natCast, abs_eq (by norm_num)] at htie
    apply h.even
    rcases htie with htie | htie
    · right
      rw [← div_left_inj' hp.ne', high_div]
      linarith
    · left
      rw [← div_left_inj' hp.ne', low_div]
      linarith

/-! ## The grids -/

/-- The interval and the grid have a common denominator. -/
theorem exists_denominator (q k : ℤ) : ∃ t : ℚ, 0 < t ∧
    ((Nat.pow 2 q.toNat * Nat.pow 10 (-k).toNat : ℕ) : ℚ) = 2 ^ q * t ∧
    ((Nat.pow 2 (-q).toNat * Nat.pow 10 k.toNat : ℕ) : ℚ) = 10 ^ k * t := by
  have hpow : ∀ (b : ℕ) (n : ℤ), 0 < b →
      ((b ^ n.toNat : ℕ) : ℚ) = b ^ n * (b ^ (-n).toNat : ℕ) := by
    intro b n hb
    have hb' : (b : ℚ) ≠ 0 := Nat.cast_ne_zero.mpr hb.ne'
    push_cast
    rw [← zpow_natCast, ← zpow_natCast, ← zpow_add₀ hb']
    congr 1
    omega
  have htwo := hpow 2 q (by decide)
  have hten := hpow 10 k (by decide)
  refine ⟨(2 ^ (-q).toNat * 10 ^ (-k).toNat : ℕ), by positivity, ?_, ?_⟩
  · simp only [Nat.pow_eq, Nat.cast_mul]
    rw [htwo]
    push_cast
    ring
  · simp only [Nat.pow_eq, Nat.cast_mul]
    rw [hten]
    push_cast
    ring

/-- Whether a multiple of a power of ten lies in the interval is decided by whole numbers. -/
theorem inside_iff (hm : m.Regular) {scale unit : ℕ} {t : ℚ} (ht : 0 < t)
    (hscale : (scale : ℚ) = 2 ^ (m.exponent - 2) * t) (hunit : (unit : ℚ) = 10 ^ k * t) :
    (if m.significand % 2 = 0 then
        decide ((4 * m.significand - m.quartersBelow) * scale ≤ d * unit) &&
          decide (d * unit ≤ (4 * m.significand + 2) * scale)
      else decide ((4 * m.significand - m.quartersBelow) * scale < d * unit) &&
          decide (d * unit < (4 * m.significand + 2) * scale)) = true ↔
      m.Covers (d * 10 ^ k) := by
  have hd : ((d * unit : ℕ) : ℚ) = d * 10 ^ k * t := by
    rw [Nat.cast_mul, hunit, mul_assoc]
  have hhigh : (((4 * m.significand + 2) * scale : ℕ) : ℚ) = m.high * t := by
    rw [Nat.cast_mul, hscale, high]
    push_cast
    ring
  have hlow : (((4 * m.significand - m.quartersBelow) * scale : ℕ) : ℚ) = m.low * t := by
    have hbelow : m.quartersBelow ≤ 4 * m.significand := by
      have := m.quartersBelow_bounds
      have := hm.pos
      omega
    rw [Nat.cast_mul, hscale, low, Nat.cast_sub hbelow]
    push_cast
    ring
  rw [Covers]
  split_ifs with heven
  · rw [Bool.and_eq_true, decide_eq_true_iff, decide_eq_true_iff, ← Nat.cast_le (α := ℚ),
      ← Nat.cast_le (α := ℚ), hd, hhigh, hlow, mul_le_mul_iff_of_pos_right ht,
      mul_le_mul_iff_of_pos_right ht]
  · rw [Bool.and_eq_true, decide_eq_true_iff, decide_eq_true_iff, ← Nat.cast_lt (α := ℚ),
      ← Nat.cast_lt (α := ℚ), hd, hhigh, hlow, mul_lt_mul_iff_of_pos_right ht,
      mul_lt_mul_iff_of_pos_right ht]

/-- What is taken from a grid lies in the interval. -/
theorem covers_of_onGrid (hm : m.Regular) (h : m.onGrid k = some d) : m.Covers (d * 10 ^ k) := by
  obtain ⟨t, ht, hscale, hunit⟩ := exists_denominator (m.exponent - 2) k
  rw [← inside_iff hm ht hscale hunit]
  unfold onGrid at h
  extract_lets quarter scale unit value low high inside below above middle at h
  show inside d = true
  split at h
  · next hbelow habove => split_ifs at h <;> rw [← Option.some.inj h] <;> assumption
  · next hbelow habove =>
    rw [← Option.some.inj h]
    exact hbelow
  · next hbelow habove =>
    rw [← Option.some.inj h]
    exact habove
  · cases h

/-- A grid is fine enough if its multiple next to the magnitude from below lies in the interval. -/
theorem isSome_onGrid (hm : m.Regular)
    (h : ∀ d : ℕ, d * 10 ^ k ≤ m.value → m.value < (d + 1) * 10 ^ k → m.Covers (d * 10 ^ k)) :
    (m.onGrid k).isSome = true := by
  obtain ⟨t, ht, hscale, hunit⟩ := exists_denominator (m.exponent - 2) k
  unfold onGrid
  extract_lets quarter scale unit value low high inside below above middle
  have hvalue : (value : ℚ) = m.value * t := by
    show ((4 * m.significand * scale : ℕ) : ℚ) = m.significand * 2 ^ m.exponent * t
    rw [Nat.cast_mul, hscale, zpow_sub₀ two_ne_zero]
    push_cast
    ring
  have hunit' : (unit : ℚ) = 10 ^ k * t := hunit
  have hpos : 0 < unit := by
    rw [← Nat.cast_pos (α := ℚ), hunit']
    exact mul_pos (Decimal.ten_zpow_pos k) ht
  have hbelow : inside below = true := by
    apply (inside_iff hm ht hscale hunit).mpr
    apply h
    · have hle : ((below * unit : ℕ) : ℚ) ≤ value := Nat.cast_le.mpr (Nat.div_mul_le_self _ _)
      rwa [Nat.cast_mul, hunit', hvalue, ← mul_assoc, mul_le_mul_iff_of_pos_right ht] at hle
    · have hlt : (value : ℚ) < ((below + 1) * unit : ℕ) :=
        Nat.cast_lt.mpr (Nat.lt_mul_of_div_lt (Nat.lt_succ_self _) hpos)
      rwa [Nat.cast_mul (below + 1), hunit', hvalue, ← mul_assoc, mul_lt_mul_iff_of_pos_right ht,
        Nat.cast_add, Nat.cast_one] at hlt
  rw [hbelow]
  cases inside above <;> dsimp only
  · rfl
  · split_ifs <;> rfl

theorem ten_zpow_lt_two_zpow : (10 : ℚ) ^ (-324 : ℤ) < 2 ^ (-1076 : ℤ) := by
  have h : 2 ^ 1076 < 10 ^ 324 := by decide +kernel
  rw [zpow_neg, zpow_neg]
  exact inv_strictAnti₀ (two_zpow_pos 1076) (by exact_mod_cast h)

/-- A grid that is finer than a quarter of the last digit has a multiple in the interval. -/
theorem covers_of_fine (hquarter : (10 : ℚ) ^ k < 2 ^ (m.exponent - 2))
    (hle : d * 10 ^ k ≤ m.value) (hlt : m.value < (d + 1) * 10 ^ k) : m.Covers (d * 10 ^ k) := by
  have hp := two_zpow_pos (m.exponent - 2)
  have hvalue : m.value = 4 * m.significand * 2 ^ (m.exponent - 2) := by
    rw [value, zpow_sub₀ two_ne_zero]
    norm_num
    ring
  have hbelow : (1 : ℚ) ≤ m.quartersBelow := by exact_mod_cast m.quartersBelow_bounds.1
  have hlow : m.low < d * 10 ^ k := by
    rw [low, sub_mul, ← hvalue]
    nlinarith
  have hhigh : d * 10 ^ k < m.high := by
    rw [high, add_mul, ← hvalue]
    linarith
  rw [Covers]
  split_ifs
  · exact ⟨hlow.le, hhigh.le⟩
  · exact ⟨hlow, hhigh⟩

theorem mem_grids_iff : k ∈ Decimal.grids ↔ -324 ≤ k ∧ k ≤ 308 := by
  rw [Decimal.grids, List.mem_map]
  constructor
  · rintro ⟨i, hi, rfl⟩
    have := List.mem_range.mp hi
    omega
  · rintro ⟨hlo, hhi⟩
    exact ⟨(308 - k).toNat, List.mem_range.mpr (by omega), by omega⟩

theorem grids_pairwise : Decimal.grids.Pairwise (· > ·) :=
  List.pairwise_map.mpr (List.pairwise_lt_range.imp fun h => by omega)

/-- A grid is fine enough that is finer than a quarter of the last digit, but not ten times. -/
theorem exists_fine_grid (hm : m.Regular) : ∃ k ∈ Decimal.grids,
    (10 : ℚ) ^ k < 2 ^ (m.exponent - 2) ∧ 2 ^ (m.exponent - 2) ≤ (10 : ℚ) ^ (k + 1) := by
  have hten : 1 < 10 := by decide
  have hp := two_zpow_pos (m.exponent - 2)
  have hexp := hm.le
  rw [leastExponent] at hexp
  have hlo : (10 : ℚ) ^ (-324 : ℤ) < 2 ^ (m.exponent - 2) :=
    ten_zpow_lt_two_zpow.trans_le (two_zpow_le (by omega))
  have hhi : (2 : ℚ) ^ (m.exponent - 2) ≤ 10 ^ (308 : ℤ) := by
    have hexp' := hm.le_greatest
    have h : 2 ^ 969 ≤ 10 ^ 308 := by decide +kernel
    exact (two_zpow_le (show m.exponent - 2 ≤ 969 by omega)).trans (by exact_mod_cast h)
  have hlo' : -324 < Int.clog 10 ((2 : ℚ) ^ (m.exponent - 2)) :=
    (Int.zpow_lt_iff_lt_clog hten hp).mp (by exact_mod_cast hlo)
  have hhi' : Int.clog 10 ((2 : ℚ) ^ (m.exponent - 2)) ≤ 308 :=
    (Int.le_zpow_iff_clog_le hten hp).mp (by exact_mod_cast hhi)
  refine ⟨Int.clog 10 ((2 : ℚ) ^ (m.exponent - 2)) - 1, mem_grids_iff.mpr (by omega), ?_, ?_⟩
  · exact_mod_cast Int.zpow_pred_clog_lt_self hten hp
  · rw [sub_add_cancel]
    exact_mod_cast Int.self_le_zpow_clog hten ((2 : ℚ) ^ (m.exponent - 2))

end Magnitude

/-! ## The shortest decimal -/

namespace Decimal

open Magnitude

/-- The shortest decimal is taken from one of the grids that is at most ten times finer than a
quarter of the last digit. -/
theorem onGrid_shortest {m : Magnitude} (hm : m.Regular) :
    (shortest m).power ∈ grids ∧ m.onGrid (shortest m).power = some (shortest m).digits ∧
      (2 : ℚ) ^ (m.exponent - 2) ≤ 10 ^ ((shortest m).power + 1) := by
  obtain ⟨k, hk, hfine, hcoarse⟩ := exists_fine_grid hm
  have hfirst := isSome_onGrid hm fun d hle hlt => covers_of_fine (d := d) hfine hle hlt
  have hsome : (grids.findSome? fun k => (m.onGrid k).map (Decimal.mk · k)).isSome = true := by
    rw [List.findSome?_isSome_iff]
    exact ⟨k, hk, by rwa [Option.isSome_map]⟩
  obtain ⟨found, hfound⟩ := Option.isSome_iff_exists.mp hsome
  obtain ⟨coarser, j, finer, hgrids, hj, hnone⟩ := List.findSome?_eq_some_iff.mp hfound
  obtain ⟨d, hd, rfl⟩ := Option.map_eq_some_iff.mp hj
  rw [shortest, hfound]
  refine ⟨hgrids ▸ List.mem_append_right coarser List.mem_cons_self, hd,
    hcoarse.trans (zpow_le_zpow_right₀ (by norm_num) ?_)⟩
  -- the grids before the first with a multiple have none, so the fine one is not among them
  have hpairwise := grids_pairwise
  rw [hgrids] at hk hpairwise
  rcases List.mem_append.mp hk with hk | hk
  · rw [Option.map_eq_none_iff.mp (hnone k hk)] at hfirst
    cases hfirst
  · rcases List.mem_cons.mp hk with rfl | hk
    · exact le_rfl
    · have := List.rel_of_pairwise_cons (List.pairwise_append.mp hpairwise).2.1 hk
      show k + 1 ≤ j + 1
      omega

/-- **The shortest decimal of a magnitude is rounded to it.** -/
theorem nearest_shortest {m : Magnitude} (hm : m.Regular) :
    nearest (shortest m).value = m.value :=
  nearest_of_covers hm (covers_of_onGrid hm (onGrid_shortest hm).2.1)

/-- The shortest decimal of a magnitude has eighteen digits at most. -/
theorem digits_shortest_lt {m : Magnitude} (hm : m.Regular) : (shortest m).digits < 10 ^ 18 := by
  obtain ⟨-, hgrid, hcoarse⟩ := onGrid_shortest hm
  have hten := ten_zpow_pos (shortest m).power
  have hle := (covers_of_onGrid hm hgrid).le_and_le.2
  have hnonneg : (0 : ℚ) ≤ 4 * m.significand + 2 := by
    exact_mod_cast Nat.zero_le (4 * m.significand + 2)
  have hlt : (4 * m.significand + 2 : ℚ) < 2 ^ 55 := by
    have hnat : 4 * m.significand + 2 < 2 ^ 55 := by
      have := hm.lt
      omega
    exact_mod_cast hnat
  have hbound : ((shortest m).digits : ℚ) * 10 ^ (shortest m).power <
      10 ^ 18 * 10 ^ (shortest m).power :=
    calc ((shortest m).digits : ℚ) * 10 ^ (shortest m).power
        ≤ (4 * m.significand + 2) * 2 ^ (m.exponent - 2) := hle
      _ ≤ (4 * m.significand + 2) * 10 ^ ((shortest m).power + 1) :=
        mul_le_mul_of_nonneg_left hcoarse hnonneg
      _ < 2 ^ 55 * 10 ^ ((shortest m).power + 1) :=
        mul_lt_mul_of_pos_right hlt (ten_zpow_pos _)
      _ ≤ 10 ^ 18 * 10 ^ (shortest m).power := by
        rw [ten_zpow_add, zpow_one, ← mul_assoc, mul_right_comm]
        exact mul_le_mul_of_nonneg_right (by norm_num) hten.le
  exact_mod_cast lt_of_mul_lt_mul_right hbound hten.le

/-- The bits of a double other than zero are its magnitude. -/
theorem regular_ofBits (hfin : z.isFinite = true) (h0 : toRat z ≠ 0) :
    (Magnitude.ofBits z.toBits).Regular ∧ (Magnitude.ofBits z.toBits).value = |toRat z| := by
  replace hfin : z.toModel.unpack.isFinite = true := hfin
  obtain ⟨s, E, M, hE, hM, hword⟩ := exists_eq_wordOf z.toModel.toBits.toBitVec
  have hnat : z.toBits.toNat = s.toBitVec.toNat * 2 ^ 63 + E * 2 ^ 52 + M := by
    rw [← toNat_wordOf s hE hM, ← hword]
    rfl
  have hfraction : z.toBits.toNat % leadingBit = M := by
    rw [hnat, leadingBit]
    omega
  have hbiased : z.toBits.toNat / leadingBit % 0x800 = E := by
    rw [hnat, leadingBit]
    omega
  unfold toRat at h0 ⊢
  rw [Float.Model.unpack, hword, unpack_wordOf s hE hM] at hfin h0 ⊢
  have hE' : E ≠ 2047 := by
    rintro rfl
    rw [if_pos rfl] at hfin
    split_ifs at hfin <;> exact absurd hfin Bool.false_ne_true
  rw [if_neg hE'] at h0 ⊢
  simp only [Magnitude.ofBits, hfraction, hbiased]
  split_ifs at h0 ⊢ with hzero hM0
  · exact absurd (rational_zero s) h0
  · refine ⟨⟨Nat.pos_of_ne_zero hM0, by dsimp only; omega, le_rfl, ?_, .inr rfl⟩, ?_⟩
    · show leastExponent ≤ 971
      decide
    · rw [rational_finite, abs_signed,
        abs_of_pos (natCast_mul_two_zpow_pos (Nat.pos_of_ne_zero hM0))]
      rfl
  · refine ⟨⟨?_, ?_, ?_, ?_, .inl (Nat.le_add_right _ _)⟩, ?_⟩
    · exact Nat.add_pos_left (by decide) M
    · show leadingBit + M < 2 ^ 53
      rw [leadingBit]
      omega
    · show leastExponent ≤ E - 1075
      rw [leastExponent]
      omega
    · show (E : ℤ) - 1075 ≤ 971
      omega
    · rw [rational_finite, abs_signed, abs_of_pos (natCast_mul_two_zpow_pos (by positivity))]
      rfl

/-- **The shortest decimal of a finite double is rounded to it.** -/
theorem nearest_ofFinite (hfin : z.isFinite = true) : nearest (ofFinite z).value = |toRat z| := by
  rw [ofFinite]
  split_ifs with h0
  · rw [(beq_zero_iff hfin).mp h0, abs_zero, value, Nat.cast_zero, zero_mul, nearest_zero]
  · obtain ⟨hregular, hvalue⟩ := regular_ofBits hfin (mt (beq_zero_iff hfin).mpr h0)
    rw [nearest_shortest hregular, hvalue]

theorem ofFinite_eq_zero (hfin : z.isFinite = true) (h0 : toRat z = 0) : ofFinite z = ⟨0, 0⟩ :=
  if_pos ((beq_zero_iff hfin).mpr h0)

theorem digits_ofFinite_pos (hfin : z.isFinite = true) (h0 : toRat z ≠ 0) :
    0 < (ofFinite z).digits := by
  apply Nat.pos_of_ne_zero
  intro hdigits
  have hround := nearest_ofFinite hfin
  rw [value_eq_zero_iff.mpr hdigits, nearest_zero] at hround
  exact h0 (abs_eq_zero.mp hround.symm)

/-- The shortest decimal of a finite double has eighteen digits at most. -/
theorem digits_ofFinite_lt (hfin : z.isFinite = true) : (ofFinite z).digits < 10 ^ 18 := by
  rw [ofFinite]
  split_ifs with h0
  · decide
  · exact digits_shortest_lt (regular_ofBits hfin (mt (beq_zero_iff hfin).mpr h0)).1

theorem power_ofFinite_bounds (hfin : z.isFinite = true) :
    -324 ≤ (ofFinite z).power ∧ (ofFinite z).power ≤ 308 := by
  rw [ofFinite]
  split_ifs with h0
  · decide
  · have hregular := (regular_ofBits hfin (mt (beq_zero_iff hfin).mpr h0)).1
    exact mem_grids_iff.mp (onGrid_shortest hregular).1

end Decimal

end Identicon
