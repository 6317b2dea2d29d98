import Identicon.Proofs.CaseFolding

/-!
# Bounds on seeds

The mean weight of a part lies between the weights of its lightest and its heaviest character. The
sum is kept in a word, none of whose bounds is reached on the way, and converting it is exact; both
follow from one bound on the sums of the first characters. The division rounds, but the weights
themselves are doubles, so that rounding does not step over them.

A seed is therefore bounded by the weights that there are. Letters, digits and underscores weigh 0
to 35 in lowercase.
-/

namespace Identicon

open Binary64

variable {part : List Char} {c d : Char} {identifier : String}

/-! ## Sums -/

/-- A sum of the first characters of a part has at most 53 digits. -/
theorem abs_sum_take_le (hlen : part.length < 2 ^ 32) (n : ℕ) :
    |((part.take n).map charWeight).sum| ≤ 2 ^ 53 := by
  rw [List.sum_eq_foldl]
  apply abs_sum_charWeight_le
  rw [List.length_take]
  omega

/-- A part with characters has a lightest and a heaviest. -/
theorem exists_extremes (hpart : part ≠ []) :
    ∃ lightest ∈ part, ∃ heaviest ∈ part,
      ∀ c ∈ part, charWeight lightest ≤ charWeight c ∧ charWeight c ≤ charWeight heaviest := by
  have hne : part.toFinset.Nonempty := by
    obtain ⟨c, hc⟩ := List.exists_mem_of_ne_nil part hpart
    exact ⟨c, List.mem_toFinset.mpr hc⟩
  obtain ⟨lightest, hlightest, hlo⟩ := part.toFinset.exists_min_image charWeight hne
  obtain ⟨heaviest, hheaviest, hhi⟩ := part.toFinset.exists_max_image charWeight hne
  simp only [List.mem_toFinset] at hlightest hheaviest hlo hhi
  exact ⟨lightest, hlightest, heaviest, hheaviest, fun c hc => ⟨hlo c hc, hhi c hc⟩⟩

/-- The mean lies between the weights of the lightest and the heaviest character. -/
theorem meanWeight_mem (hpart : part ≠ []) (hlen : part.length < 2 ^ 32) {lightest heaviest : Char}
    (h : ∀ c ∈ part, charWeight lightest ≤ charWeight c ∧ charWeight c ≤ charWeight heaviest) :
    ofInt (charWeight lightest) ≤ meanWeight part ∧
      meanWeight part ≤ ofInt (charWeight heaviest) := by
  have hexact (c : Char) : |charWeight c| ≤ 2 ^ 53 := by
    have := charWeight_mem c
    rw [abs_le]
    omega
  have hmean := holds_meanWeight_nearest hpart hlen
  -- rounding is monotone and leaves the two weights as they are
  obtain ⟨hge, hle⟩ := nearest_exactMean_mem hpart (hexact lightest) (hexact heaviest) h
  exact ⟨((holds_ofInt (hexact lightest)).le_iff hmean).mpr hge,
    (hmean.le_iff (holds_ofInt (hexact heaviest))).mpr hle⟩

/-! ## Letters, digits and underscores -/

/-- A letter, a digit or an underscore. -/
def IsWordChar (c : Char) : Prop :=
  c.isAlphanum = true ∨ c = '_'

instance : Decidable (IsWordChar c) :=
  inferInstanceAs (Decidable (c.isAlphanum = true ∨ c = '_'))

theorem isWordChar_iff : IsWordChar c ↔
    (0x41 ≤ c.toNat ∧ c.toNat ≤ 0x5a) ∨ (0x61 ≤ c.toNat ∧ c.toNat ≤ 0x7a) ∨
      (0x30 ≤ c.toNat ∧ c.toNat ≤ 0x39) ∨ c.toNat = 0x5f := by
  have hunderscore : c = '_' ↔ c.toNat = 0x5f := Char.toNat_inj.symm
  simp only [IsWordChar, hunderscore, Char.isAlphanum, Char.isAlpha, Char.isUpper, Char.isLower,
    Char.isDigit, Bool.or_eq_true, Bool.and_eq_true, decide_eq_true_eq, ge_iff_le,
    UInt32.le_iff_toNat_le, or_assoc]
  rfl

/-- The first run of capitals is that of ASCII, and the next begins at `0xc0`. -/
theorem lowerCode_of_lt {code : ℕ} (h : code < 0xc0) :
    Text.lowerCode code = if 0x41 ≤ code ∧ code ≤ 0x5a then code + 32 else code := by
  rw [Text.lowerCode, Text.capitals]
  rcases le_or_gt code 0x5a with hle | hgt
  · rw [List.find?_cons_of_pos (by simpa using hle)]
    simp only [Text.CaseRun.covers, Nat.mod_one, Bool.and_eq_true, decide_eq_true_eq,
      beq_self_eq_true, and_true]
    rfl
  · rw [List.find?_cons_of_neg (by simpa using hgt), List.find?_cons_of_pos (by simp; omega)]
    have hfirst : ¬ 0xc0 ≤ code := by omega
    have hlast : ¬ code ≤ 0x5a := by omega
    simp [Text.CaseRun.covers, hfirst, hlast]

/-- In lowercase such a character weighs no less than a zero and no more than an underscore. -/
theorem IsWordChar.charWeight_mem (h : IsWordChar c) (hd : d ∈ Text.lowerChar c) :
    0 ≤ charWeight d ∧ charWeight d ≤ 35 := by
  rw [isWordChar_iff] at h
  have hdot : c ≠ Text.dottedCapitalI := by
    rintro rfl
    exact absurd h (by decide)
  rw [Text.lowerChar, if_neg hdot, List.mem_singleton, lowerCode_of_lt (by omega)] at hd
  -- the capitals have gone; what is left are three ranges of code points
  set code := if 0x41 ≤ c.toNat ∧ c.toNat ≤ 0x5a then c.toNat + 32 else c.toNat with hcode
  have hrange : (0x61 ≤ code ∧ code ≤ 0x7a) ∨ (0x30 ≤ code ∧ code ≤ 0x39) ∨ code = 0x5f := by
    split_ifs at hcode <;> omega
  have htoNat : d.toNat = code := by
    rw [hd, Char.toNat_ofNat, if_pos (by rw [Nat.isValidChar]; omega)]
  have hzero : '0'.toNat = 48 := rfl
  have hnine : '9'.toNat = 57 := rfl
  have ha : 'a'.toNat = 97 := rfl
  rw [charWeight]
  split_ifs with hdigit hunderscore
  · rw [Char.isDigit_iff_toNat] at hdigit
    omega
  · decide
  · have hne : d.toNat ≠ 0x5f := fun heq => hunderscore (Char.toNat_inj.mp heq)
    rw [Char.isDigit_iff_toNat] at hdigit
    omega

theorem charWeight_mem_of_isWordChar (h : ∀ c ∈ identifier.toList, IsWordChar c) :
    ∀ d ∈ lowercaseOf identifier, 0 ≤ charWeight d ∧ charWeight d ≤ 35 := by
  intro d hd
  rcases Text.mem_lowercaseAfter hd with ⟨hsigma, -⟩ | ⟨c, hc, hd⟩
  · exact absurd (h _ hsigma) (by decide)
  · exact (h c hc).charWeight_mem hd

/-! ## Seeds -/

/-- The characters of a third are characters of the text. -/
theorem mem_of_mem_thirds {text : List Char} {channel : Channel}
    (h : c ∈ (thirds text).get channel) : c ∈ text := by
  cases channel with
  | red => exact List.mem_of_mem_take h
  | green => exact List.mem_of_mem_drop (List.mem_of_mem_take h)
  | blue => exact List.mem_of_mem_drop h

theorem holds_seedBounds :
    Holds (-1113964) (-1113964) ∧ Holds 147 147 ∧ Holds 15 15 := by
  have h : Holds 1113964 1113964 :=
    holds_of_unpack (m := 0x10FF6C00000000) (e := -32) (by norm_num) rfl (by norm_num)
  exact ⟨h.neg, holds_of_unpack (m := 0x12600000000000) (e := -45) (by norm_num) rfl (by norm_num),
    holds_of_unpack (m := 0x1E000000000000) (e := -49) (by norm_num) rfl (by norm_num)⟩

/-- **Means stay between the extremes, and seeds are bounded.** No sum of the first characters of a
part leaves a word, the whole sum is converted exactly, and the mean weight lies between the weights
of two characters of the part, as doubles and after rounding. So the seeds of an identifier are
finite and lie between what the heaviest and the lightest character there are would give, and in a
narrower range if the identifier is made of letters, digits and underscores. -/
theorem seeds_bounded :
    (∀ part : List Char, part ≠ [] → part.length < 2 ^ 32 →
      (∀ n, -2 ^ 63 ≤ ((part.take n).map charWeight).sum ∧
        ((part.take n).map charWeight).sum < 2 ^ 63) ∧
      Holds (ofInt (part.map charWeight).sum) (part.map charWeight).sum ∧
      ∃ mean, partValue part = some mean ∧ ∃ lightest ∈ part, ∃ heaviest ∈ part,
        (∀ c ∈ part, charWeight lightest ≤ charWeight c ∧ charWeight c ≤ charWeight heaviest) ∧
        ofInt (charWeight lightest) ≤ mean ∧ mean ≤ ofInt (charWeight heaviest)) ∧
    ∀ identifier : String, 3 ≤ (lowercaseOf identifier).length →
      (lowercaseOf identifier).length < 2 ^ 32 →
      ∃ seeds, Seeds.derive identifier = .ok seeds ∧
        (∀ channel, (seeds.get channel).isFinite = true ∧
          -1113964 ≤ seeds.get channel ∧ seeds.get channel ≤ 147) ∧
        ((∀ c ∈ identifier.toList, IsWordChar c) →
          ∀ channel, 15 ≤ seeds.get channel ∧ seeds.get channel ≤ 50) := by
  have hbounds := holds_seedBounds
  refine ⟨?_, ?_⟩
  · intro part hpart hlen
    refine ⟨?_, ?_, _, partValue_eq hpart, ?_⟩
    · intro n
      have := abs_le.mp (abs_sum_take_le hlen n)
      omega
    · -- the whole sum is the sum of as many characters as there are
      have hsum := abs_sum_take_le hlen part.length
      rw [List.take_length] at hsum
      exact holds_ofInt hsum
    · obtain ⟨lightest, hlightest, heaviest, hheaviest, h⟩ := exists_extremes hpart
      exact ⟨lightest, hlightest, heaviest, hheaviest, h, meanWeight_mem hpart hlen h⟩
  · intro identifier hlong hlen
    have hpart (channel : Channel) := thirds_ne_nil hlong channel
    have hpartLen (channel : Channel) := (length_thirds_le _ channel).trans_lt hlen
    refine ⟨_, Seeds.derive_of_long hlong, ?_, ?_⟩
    · intro channel
      obtain ⟨x, hx, hge, hle⟩ := holds_seed (hpart channel) (hpartLen channel) (by norm_num)
        (by norm_num) fun c _ => charWeight_mem c
      rw [Seeds.get_ofParts]
      push_cast at hge hle
      exact ⟨hx.isFinite, (hbounds.1.le_iff hx).mpr (by linarith),
        (hx.le_iff hbounds.2.1).mpr (by linarith)⟩
    · intro hword channel
      obtain ⟨x, hx, hge, hle⟩ := holds_seed (hpart channel) (hpartLen channel) (by norm_num)
        (by norm_num) fun c hc => charWeight_mem_of_isWordChar hword c (mem_of_mem_thirds hc)
      rw [Seeds.get_ofParts]
      push_cast at hge hle
      exact ⟨(hbounds.2.2.le_iff hx).mpr (by linarith),
        (hx.le_iff holds_ceiling).mpr (by linarith)⟩

/-- The heaviest and the lightest character there are, and an identifier of letters, digits and
underscores. -/
theorem seeds_bounded_extremes :
    (∃ mean, partValue ['\x00', Char.ofNat 0x10ffff] = some mean ∧ ofInt (-97) ≤ mean ∧
      mean ≤ ofInt 1114014) ∧
    (∃ seeds, Seeds.derive (String.ofList (List.replicate 3 (Char.ofNat 0x10ffff))) = .ok seeds ∧
      -1113964 ≤ seeds.red ∧ seeds.blue ≤ 147) ∧
    ∃ seeds, Seeds.derive "Z_0" = .ok seeds ∧ 15 ≤ seeds.green ∧ seeds.blue ≤ 50 := by
  obtain ⟨hmeans, hseeds⟩ := seeds_bounded
  refine ⟨?_, ?_, ?_⟩
  · obtain ⟨-, -, mean, hmean, lightest, hlightest, heaviest, hheaviest, h, hge, hle⟩ :=
      hmeans ['\x00', Char.ofNat 0x10ffff] (by decide) (by decide)
    have hlo : charWeight lightest = -97 :=
      le_antisymm (h '\x00' (by simp)).1 (charWeight_mem lightest).1
    have hhi : charWeight heaviest = 1114014 :=
      le_antisymm (charWeight_mem heaviest).2 (h (Char.ofNat 0x10ffff) (by simp)).2
    exact ⟨mean, hmean, hlo ▸ hge, hhi ▸ hle⟩
  · have hlower : lowercaseOf (String.ofList (List.replicate 3 (Char.ofNat 0x10ffff))) =
        List.replicate 3 (Char.ofNat 0x10ffff) := by
      decide +kernel
    have hlen := congrArg List.length hlower
    rw [List.length_replicate] at hlen
    obtain ⟨seeds, hok, hbounds, -⟩ := hseeds _ hlen.ge (hlen.trans_lt (by norm_num))
    exact ⟨seeds, hok, (hbounds .red).2.1, (hbounds .blue).2.2⟩
  · have hlower : lowercaseOf "Z_0" = ['z', '_', '0'] := by decide +kernel
    obtain ⟨seeds, hok, -, hword⟩ := hseeds "Z_0" (by rw [hlower]; decide) (by rw [hlower]; decide)
    have hall : ∀ c ∈ ['Z', '_', '0'], IsWordChar c := by
      simp only [List.forall_mem_cons, List.not_mem_nil, false_imp_iff, implies_true]
      decide
    exact ⟨seeds, hok, (hword hall .green).1, (hword hall .blue).2⟩

end Identicon
