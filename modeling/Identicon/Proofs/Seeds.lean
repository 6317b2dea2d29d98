import Identicon.Proofs.Binary64.Whole
import Identicon.Proofs.Channels
import Identicon.Seeds

/-!
# Seeds of identifiers

An identifier has seeds if it has at least three characters in lowercase: none of its thirds is
empty then. The mean weight of a part lies between any bounds on the weights of its characters, as
sums of less than `2 ^ 32` weights are converted to doubles exactly and rounding a quotient is
monotone. No character weighs less than `-97`, so that no seed is greater than 147.
-/

namespace Identicon

open Binary64

variable {part : List Char} {identifier : String}

/-! ## Acceptance -/

/-- The mean weight of the characters of a part that has characters. -/
def meanWeight (part : List Char) : Float :=
  ofInt ((part.map charWeight).foldl (· + ·) 0) / ofInt part.length

theorem partValue_eq (h : part ≠ []) : partValue part = some (meanWeight part) := by
  have hempty : ¬ part.isEmpty = true := by rwa [List.isEmpty_iff]
  exact if_neg hempty

/-- The characters of an identifier in lowercase. -/
def lowercaseOf (identifier : String) : List Char :=
  Text.lowercase identifier.toList

/-- No third of three or more characters is empty. -/
theorem thirds_ne_nil {text : List Char} (h : 3 ≤ text.length) (c : Channel) :
    (thirds text).get c ≠ [] := by
  have hlen : 0 < ((thirds text).get c).length := by
    cases c with
    | red | green | blue =>
      simp only [thirds, Channels.get, List.length_take, List.length_drop]
      omega
  exact List.ne_nil_of_length_pos hlen

/-- A part has at most as many characters as the text. -/
theorem length_thirds_le (text : List Char) (c : Channel) :
    ((thirds text).get c).length ≤ text.length := by
  cases c with
  | red | green | blue =>
    simp only [thirds, Channels.get, List.length_take, List.length_drop]
    omega

theorem rawValues_of_short (h : (lowercaseOf identifier).length < 3) :
    rawValues identifier =
      .error (.shortIdentifier identifier (lowercaseOf identifier).length) :=
  if_pos h

/-- An identifier that is long enough has no empty part to fail with. -/
theorem rawValues_of_long (h : 3 ≤ (lowercaseOf identifier).length) :
    rawValues identifier = .ok ((thirds (lowercaseOf identifier)).map meanWeight) := by
  have hshort : ¬ (Text.lowercase identifier.toList).length < 3 := not_lt.mpr h
  unfold rawValues
  dsimp only
  rw [if_neg hshort]
  apply Channels.sequence_eq_ok
  intro c
  rw [Channels.get_map, Channels.get_map, ← lowercaseOf, partValue_eq (thirds_ne_nil h c)]

namespace Seeds

/-- The seeds of three parts that have characters. -/
def ofParts (parts : Channels (List Char)) : Seeds :=
  parts.map fun part => ceiling - meanWeight part

theorem get_ofParts (parts : Channels (List Char)) (c : Channel) :
    (ofParts parts).get c = ceiling - meanWeight (parts.get c) := by
  cases c <;> rfl

theorem derive_of_short (h : (lowercaseOf identifier).length < 3) :
    derive identifier = .error (.shortIdentifier identifier (lowercaseOf identifier).length) := by
  rw [derive, rawValues_of_short h]
  rfl

theorem derive_of_long (h : 3 ≤ (lowercaseOf identifier).length) :
    derive identifier = .ok (ofParts (thirds (lowercaseOf identifier))) := by
  rw [derive, rawValues_of_long h]
  rfl

/-- Only identifiers with three characters have seeds, and these are the seeds of its thirds. -/
theorem derive_eq_ok_iff {seeds : Seeds} :
    derive identifier = .ok seeds ↔
      3 ≤ (lowercaseOf identifier).length ∧ seeds = ofParts (thirds (lowercaseOf identifier)) := by
  rcases lt_or_ge (lowercaseOf identifier).length 3 with hshort | hlong
  · rw [derive_of_short hshort]
    exact iff_of_false nofun (fun h => not_lt.mpr h.1 hshort)
  · rw [derive_of_long hlong, Except.ok.injEq, eq_comm]
    exact (and_iff_right hlong).symm

end Seeds

/-! ## Bounds -/

theorem charWeight_mem (c : Char) : -97 ≤ charWeight c ∧ charWeight c ≤ 1114014 := by
  have hc : c.toNat < 0x110000 := by
    rcases c.valid with h | ⟨-, h⟩
    · exact h.trans (by norm_num)
    · exact h
  have hzero : '0'.toNat = 48 := rfl
  have hnine : '9'.toNat = 57 := rfl
  have ha : 'a'.toNat = 97 := rfl
  rw [charWeight]
  split_ifs with hdigit
  · rw [Char.isDigit_iff_toNat] at hdigit
    omega
  · decide
  · omega

variable {lo hi : ℤ}

/-- The sum of the weights lies between the bounds on each, as often as there are characters. -/
theorem sum_charWeight_mem (h : ∀ c ∈ part, lo ≤ charWeight c ∧ charWeight c ≤ hi) :
    part.length * lo ≤ (part.map charWeight).foldl (· + ·) 0 ∧
      (part.map charWeight).foldl (· + ·) 0 ≤ part.length * hi := by
  have hlo := List.card_nsmul_le_sum (part.map charWeight) lo (by
    intro w hw
    obtain ⟨c, hc, rfl⟩ := List.mem_map.mp hw
    exact (h c hc).1)
  have hhi := List.sum_le_card_nsmul (part.map charWeight) hi (by
    intro w hw
    obtain ⟨c, hc, rfl⟩ := List.mem_map.mp hw
    exact (h c hc).2)
  rw [List.length_map, nsmul_eq_mul] at hlo hhi
  rw [← List.sum_eq_foldl]
  exact ⟨hlo, hhi⟩

/-- The sum of fewer than `2 ^ 32` weights has at most 53 digits. -/
theorem abs_sum_charWeight_le (hlen : part.length < 2 ^ 32) :
    |(part.map charWeight).foldl (· + ·) 0| ≤ 2 ^ 53 := by
  obtain ⟨hlo, hhi⟩ := sum_charWeight_mem fun c (_ : c ∈ part) => charWeight_mem c
  rw [abs_le]
  omega

/-- The mean weight of the characters of a part before it is rounded. -/
def exactMean (part : List Char) : ℚ :=
  ((part.map charWeight).sum : ℤ) / part.length

/-- A mean lies between any bounds on what it is the mean of. -/
theorem exactMean_mem (hpart : part ≠ []) (h : ∀ c ∈ part, lo ≤ charWeight c ∧ charWeight c ≤ hi) :
    lo ≤ exactMean part ∧ exactMean part ≤ hi := by
  have hsum := sum_charWeight_mem h
  rw [← List.sum_eq_foldl] at hsum
  have hpos : (0 : ℚ) < part.length := by
    exact_mod_cast List.length_pos_iff.mpr hpart
  rw [exactMean, le_div_iff₀ hpos, div_le_iff₀ hpos, mul_comm (lo : ℚ), mul_comm (hi : ℚ)]
  exact ⟨by exact_mod_cast hsum.1, by exact_mod_cast hsum.2⟩

/-- The sum and the number of characters are converted exactly, so that only the division rounds. -/
theorem holds_meanWeight_nearest (hpart : part ≠ []) (hlen : part.length < 2 ^ 32) :
    Holds (meanWeight part) (nearest (exactMean part)) := by
  have hsum := holds_ofInt (abs_sum_charWeight_le hlen)
  have hcount : Holds (ofInt part.length) ((part.length : ℤ) : ℚ) :=
    holds_ofInt (by rw [Nat.abs_cast]; omega)
  rw [← List.sum_eq_foldl] at hsum
  rw [Int.cast_natCast] at hcount
  rw [meanWeight, ← List.sum_eq_foldl]
  have hne : (part.length : ℚ) ≠ 0 := by
    exact_mod_cast List.length_pos_iff.mpr hpart |>.ne'
  obtain ⟨hlo, hhi⟩ := exactMean_mem hpart fun c (_ : c ∈ part) => charWeight_mem c
  refine hsum.div hcount hne (abs_nearest_lt ?_)
  push_cast at hlo hhi
  rw [← exactMean, abs_le]
  constructor <;> linarith

/-- Rounding does not take the mean past bounds that are doubles. -/
theorem nearest_exactMean_mem (hpart : part ≠ []) (hlo : |lo| ≤ 2 ^ 53) (hhi : |hi| ≤ 2 ^ 53)
    (h : ∀ c ∈ part, lo ≤ charWeight c ∧ charWeight c ≤ hi) :
    lo ≤ nearest (exactMean part) ∧ nearest (exactMean part) ≤ hi := by
  obtain ⟨hge, hle⟩ := exactMean_mem hpart h
  exact ⟨le_nearest (onGrid_intCast hlo) hge, nearest_le (onGrid_intCast hhi) hle⟩

theorem holds_ceiling : Holds Seeds.ceiling 50 :=
  holds_of_unpack (m := 0x19000000000000) (e := -47) (by norm_num) rfl (by norm_num)

/-- The mean weight is rounded, and what is left of 50 once more. -/
theorem holds_seed_nearest (hpart : part ≠ []) (hlen : part.length < 2 ^ 32) :
    Holds (Seeds.ceiling - meanWeight part) (nearest (50 - nearest (exactMean part))) := by
  obtain ⟨hlo, hhi⟩ := nearest_exactMean_mem hpart (by norm_num) (by norm_num)
    fun c _ => charWeight_mem c
  refine holds_ceiling.sub (holds_meanWeight_nearest hpart hlen) (abs_nearest_lt ?_)
  push_cast at hlo hhi
  rw [abs_le]
  constructor <;> linarith

/-- The seed of a part lies between what its lightest and its heaviest character would give. -/
theorem holds_seed (hpart : part ≠ []) (hlen : part.length < 2 ^ 32) (hlo : |lo| ≤ 2 ^ 52)
    (hhi : |hi| ≤ 2 ^ 52) (h : ∀ c ∈ part, lo ≤ charWeight c ∧ charWeight c ≤ hi) :
    ∃ x : ℚ, Holds (Seeds.ceiling - meanWeight part) x ∧ 50 - hi ≤ x ∧ x ≤ 50 - lo := by
  rw [abs_le] at hlo hhi
  obtain ⟨hge, hle⟩ := nearest_exactMean_mem hpart (abs_le.mpr (by omega)) (abs_le.mpr (by omega)) h
  have hloGrid : OnGrid ((50 - lo : ℤ) : ℚ) := onGrid_intCast (abs_le.mpr (by omega))
  have hhiGrid : OnGrid ((50 - hi : ℤ) : ℚ) := onGrid_intCast (abs_le.mpr (by omega))
  push_cast at hloGrid hhiGrid
  exact ⟨_, holds_seed_nearest hpart hlen, le_nearest hhiGrid (by linarith),
    nearest_le hloGrid (by linarith)⟩

/-- No seed is greater than 147. -/
theorem exists_holds_seed_le (hpart : part ≠ []) (hlen : part.length < 2 ^ 32) :
    ∃ x : ℚ, Holds (Seeds.ceiling - meanWeight part) x ∧ x ≤ 147 := by
  obtain ⟨x, hx, -, hle⟩ := holds_seed hpart hlen (by norm_num) (by norm_num)
    fun c _ => charWeight_mem c
  norm_num at hle
  exact ⟨x, hx, hle⟩

/-- The seed of a part is finite if the number of its characters fits into a word. -/
theorem isFinite_seed (hpart : part ≠ []) (hlen : part.length < 2 ^ 64) :
    (Seeds.ceiling - meanWeight part).isFinite = true := by
  obtain ⟨x, hx, hxle⟩ := exists_holds_ofInt ((part.map charWeight).foldl (· + ·) 0)
  obtain ⟨y, hy, hyge⟩ := exists_holds_ofInt_natCast (List.length_pos_iff.mpr hpart) hlen
  have hgrid : OnGrid (2 ^ 64) := by exact_mod_cast onGrid_two_zpow (e := 64) (by norm_num)
  have hquot : |x / y| ≤ 2 ^ 64 := by
    rw [abs_div, abs_of_pos (by linarith : (0 : ℚ) < y)]
    exact (div_le_self (abs_nonneg x) hyge).trans hxle
  have hmean := hx.div hy (by linarith : (0 : ℚ) < y).ne'
    (abs_nearest_lt (hquot.trans (by norm_num)))
  have hround := abs_le.mp (abs_nearest_le hgrid hquot)
  have hdiff : |50 - nearest (x / y)| ≤ 2 ^ 100 := by
    rw [abs_le]
    constructor <;> linarith
  exact (holds_ceiling.sub hmean (abs_nearest_lt hdiff)).isFinite

theorem isFinite_get_of_derive (hlen : (lowercaseOf user).length < 2 ^ 64)
    (h : Seeds.derive user = .ok seeds) (c : Channel) : (seeds.get c).isFinite = true := by
  obtain ⟨hlong, rfl⟩ := Seeds.derive_eq_ok_iff.mp h
  rw [Seeds.get_ofParts]
  exact isFinite_seed (thirds_ne_nil hlong c) ((length_thirds_le _ c).trans_lt hlen)

end Identicon
