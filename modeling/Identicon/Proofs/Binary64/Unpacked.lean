import Mathlib

/-!
# Words and unpacked doubles

A double is a word of 64 bits: a sign, a biased exponent of 11 bits and a fraction of 52. Arithmetic
takes the word apart into an `UnpackedFloat`, works on that and puts the result together again, so
that every statement about an operation has to cross `pack` and `unpack`. This module says when the
crossing loses nothing.

## Shape of the argument

`wordOf` names a word by its three fields as natural numbers, and every word has such a name
(`exists_eq_wordOf`). `unpack_wordOf` then reads `unpack` off the fields, and `pack_normal`,
`pack_subnormal` and `pack_large` do the same for `pack`. The round trips follow by cases:

* `unpack_pack`: from a `Canonical` unpacked double and back.
* `pack_unpack`: from a word and back, if its NaN is the one that `pack` writes.
* `unpack_pack_neg`: the sign can be turned before or after the crossing, without any condition.
* `pack_neg`: turning the sign flips one bit of the word, and no other, unless it is NaN's.
-/

namespace Identicon.Binary64

open Float.Model (UnpackedFloat Format)
open Float.Model.UnpackedFloat (Sign)

/-- The word with this sign, biased exponent and fraction. -/
def wordOf (s : Sign) (biased fraction : ℕ) : BitVec 64 :=
  UnpackedFloat.packComponents .binary64 s (BitVec.ofNat 11 biased) (BitVec.ofNat 52 fraction)

variable {s : Sign} {E M m : ℕ} {e : ℤ}

/-! ## The fields of a word -/

theorem toNat_wordOf (s : Sign) (hE : E < 2 ^ 11) (hM : M < 2 ^ 52) :
    (wordOf s E M).toNat = s.toBitVec.toNat * 2 ^ 63 + E * 2 ^ 52 + M := by
  simp only [wordOf, UnpackedFloat.packComponents]
  rw [BitVec.toNat_append, BitVec.toNat_append, ← Nat.shiftLeft_add_eq_or_of_lt (BitVec.isLt _),
    ← Nat.shiftLeft_add_eq_or_of_lt (BitVec.isLt _)]
  simp only [BitVec.toNat_ofNat, Nat.shiftLeft_eq, Nat.mod_eq_of_lt hE, Nat.mod_eq_of_lt hM]
  omega

/-- Every word has three fields. -/
theorem exists_eq_wordOf (b : BitVec 64) :
    ∃ s E M, E < 2 ^ 11 ∧ M < 2 ^ 52 ∧ b = wordOf s E M := by
  refine ⟨if b.toNat < 2 ^ 63 then .positive else .negative, b.toNat / 2 ^ 52 % 2 ^ 11,
    b.toNat % 2 ^ 52, by omega, by omega, ?_⟩
  have hb := b.isLt
  apply BitVec.eq_of_toNat_eq
  rw [toNat_wordOf _ (by omega) (by omega)]
  split_ifs <;> simp [Sign.toBitVec] <;> omega

theorem unpackSign_wordOf (s : Sign) (hE : E < 2 ^ 11) (hM : M < 2 ^ 52) :
    Sign.ofBitVec (@UnpackedFloat.unpackSign .binary64 (wordOf s E M)) = s := by
  have hbit : @UnpackedFloat.unpackSign .binary64 (wordOf s E M) = s.toBitVec := by
    apply BitVec.eq_of_toNat_eq
    rw [UnpackedFloat.unpackSign, BitVec.toNat_cast, BitVec.extractLsb_toNat,
      toNat_wordOf s hE hM, Nat.shiftRight_eq_div_pow]
    have hs := s.toBitVec.isLt
    simp
    omega
  rw [hbit]
  cases s <;> rfl

private theorem toNat_one_append (v : BitVec 52) : (1#1 ++ v).toNat = 2 ^ 52 + v.toNat := by
  rw [BitVec.toNat_append, ← Nat.shiftLeft_add_eq_or_of_lt v.isLt]
  simp [Nat.shiftLeft_eq]

/-- The unpacked form of a word, read off its fields. -/
theorem unpack_wordOf (s : Sign) (hE : E < 2 ^ 11) (hM : M < 2 ^ 52) :
    UnpackedFloat.unpack .binary64 (wordOf s E M) =
      if E = 2047 then (if M = 0 then .infinity s else .notANumber)
      else if E = 0 then
        (if h : M = 0 then .zero s else .finite s M (-1074) (Nat.pos_of_ne_zero h))
      else .finite s (2 ^ 52 + M) (E - 1075) (by positivity) := by
  have hE0 : BitVec.ofNat 11 E = 0#11 ↔ E = 0 := by
    rw [← BitVec.toNat_inj]; simp; omega
  have hE1 : BitVec.ofNat 11 E = -1#11 ↔ E = 2047 := by
    rw [← BitVec.toNat_inj]; simp; omega
  have hM0 : BitVec.ofNat 52 M = 0#52 ↔ M = 0 := by
    rw [← BitVec.toNat_inj]; simp; omega
  simp only [UnpackedFloat.unpack, unpackSign_wordOf s hE hM]
  simp only [wordOf, UnpackedFloat.unpackMantissa_packComponents,
    UnpackedFloat.unpackExponent_packComponents, toNat_one_append, BitVec.toNat_ofNat,
    Nat.mod_eq_of_lt hE, Nat.mod_eq_of_lt hM, hE0, hE1, hM0]
  split_ifs with h1 h2 h3 h4 <;> try rfl
  subst h3
  rfl

/-! ## Packing -/

theorem pack_normal (s : Sign) (hE : 0 < E) (hE' : E < 2047) (hM : M < 2 ^ 52)
    (h : 0 < 2 ^ 52 + M) :
    UnpackedFloat.pack .binary64 (.finite s (2 ^ 52 + M) (E - 1075) h) = wordOf s E M := by
  have hlog : (2 ^ 52 + M).log2 + 1 = Format.binary64.mantissaBits := by
    rw [(Nat.log2_eq_iff h.ne').mpr ⟨Nat.le_add_right _ _, by omega⟩]
    rfl
  have hbias : (E - 1075 + Format.binary64.exponentBias +
      Format.binary64.mantissaBitsWithoutImplicit : ℤ).toNat = E := by
    show (E - 1075 + (1023 : ℕ) + (52 : ℕ) : ℤ).toNat = E
    omega
  simp only [UnpackedFloat.pack, hbias]
  rw [if_neg (by omega), if_pos hlog, wordOf]
  congr 1
  apply BitVec.eq_of_toNat_eq
  simp

theorem pack_subnormal (s : Sign) (hM : M < 2 ^ 52) (h : 0 < M) :
    UnpackedFloat.pack .binary64 (.finite s M (-1074) h) = wordOf s 0 M := by
  have hlog : M.log2 + 1 ≠ Format.binary64.mantissaBits := by
    have hlt := (Nat.log2_lt h.ne').mpr hM
    show M.log2 + 1 ≠ 53
    omega
  simp only [UnpackedFloat.pack]
  rw [if_neg (by decide), if_neg hlog]
  rfl

/-- An exponent that is too large is packed as an infinity. -/
theorem pack_large (s : Sign) (he : 971 < e) (h : 0 < m) :
    UnpackedFloat.pack .binary64 (.finite s m e h) = wordOf s 2047 0 := by
  have hbias : 2 ^ 11 ≤ (e + Format.binary64.exponentBias +
      Format.binary64.mantissaBitsWithoutImplicit).toNat + 1 := by
    show 2 ^ 11 ≤ (e + (1023 : ℕ) + (52 : ℕ)).toNat + 1
    omega
  simp only [UnpackedFloat.pack]
  rw [if_pos hbias]
  rfl

/-! ## Round trips -/

/-- The unpacked forms that words have. -/
def Canonical : UnpackedFloat → Prop
  | .finite _ m e _ => m < 2 ^ 53 ∧ -1074 ≤ e ∧ e ≤ 971 ∧ (2 ^ 52 ≤ m ∨ e = -1074)
  | _ => True

theorem canonical_unpack (b : BitVec 64) : Canonical (UnpackedFloat.unpack .binary64 b) := by
  obtain ⟨s, E, M, hE, hM, rfl⟩ := exists_eq_wordOf b
  rw [unpack_wordOf s hE hM]
  split_ifs with h1 h2 h3 h4
  · trivial
  · trivial
  · trivial
  · exact ⟨by omega, le_rfl, by omega, Or.inr rfl⟩
  · exact ⟨by omega, by omega, by omega, Or.inl (Nat.le_add_right _ _)⟩

/-- Unpacking gets back what was packed. -/
theorem unpack_pack {u : UnpackedFloat} (h : Canonical u) :
    UnpackedFloat.unpack .binary64 (UnpackedFloat.pack .binary64 u) = u := by
  cases u with
  | notANumber => rfl
  | infinity s => cases s <;> rfl
  | zero s => cases s <;> rfl
  | finite s m e hm =>
    obtain ⟨hhi, he, he', hlo⟩ := h
    by_cases hn : 2 ^ 52 ≤ m
    · obtain ⟨M, rfl⟩ := Nat.exists_eq_add_of_le hn
      obtain ⟨E, rfl⟩ : ∃ E : ℕ, e = E - 1075 := ⟨(e + 1075).toNat, by omega⟩
      have hE : 0 < E ∧ E < 2047 := by omega
      rw [pack_normal s hE.1 hE.2 (by omega) hm, unpack_wordOf s (by omega) (by omega),
        if_neg (by omega), if_neg (by omega)]
    · obtain rfl := hlo.resolve_left hn
      rw [pack_subnormal s (not_le.mp hn) hm, unpack_wordOf s (by omega) (not_le.mp hn),
        if_neg (by omega), if_pos rfl, dif_neg (by omega)]

/-- An overflow unpacks as an infinity. -/
theorem unpack_pack_large (s : Sign) (he : 971 < e) (h : 0 < m) :
    UnpackedFloat.unpack .binary64 (UnpackedFloat.pack .binary64 (.finite s m e h)) =
      .infinity s := by
  rw [pack_large s he h, unpack_wordOf s (by omega) (by omega), if_pos rfl, if_pos rfl]

/-- A valid word is NaN in one way only. -/
theorem wordOf_eq_packedNaN (h : Format.binary64.Valid (wordOf s 2047 M)) (hM : M < 2 ^ 52)
    (hM0 : M ≠ 0) : wordOf s 2047 M = UnpackedFloat.packedNaN .binary64 := by
  refine h.eq_packedNaN (by simp [wordOf]) ?_
  rw [wordOf, UnpackedFloat.unpackMantissa_packComponents, Ne, ← BitVec.toNat_inj]
  simp
  omega

/-- Packing gets back the word that was unpacked. -/
theorem pack_unpack {b : BitVec 64} (h : Format.binary64.Valid b) :
    UnpackedFloat.pack .binary64 (UnpackedFloat.unpack .binary64 b) = b := by
  obtain ⟨s, E, M, hE, hM, rfl⟩ := exists_eq_wordOf b
  rw [unpack_wordOf s hE hM]
  split_ifs with h1 h2 h3 h4
  · subst h1 h2; rfl
  · subst h1
    exact (wordOf_eq_packedNaN h hM h2).symm
  · subst h3 h4; rfl
  · subst h3; exact pack_subnormal s hM _
  · exact pack_normal s (by omega) (by omega) hM _

/-! ## The sign -/

/-- Apart from NaN, packing copies the sign into the word and computes the other fields without
it. -/
theorem exists_pack_eq {u : UnpackedFloat} (h : u ≠ .notANumber) :
    ∃ (s : Sign) (E : BitVec 11) (M : BitVec 52),
      UnpackedFloat.pack .binary64 u = UnpackedFloat.packComponents .binary64 s E M ∧
      UnpackedFloat.pack .binary64 u.neg = UnpackedFloat.packComponents .binary64 (-s) E M := by
  cases u with
  | notANumber => exact absurd rfl h
  | infinity s | zero s => exact ⟨s, _, _, rfl, rfl⟩
  | finite s m e hm =>
    simp only [UnpackedFloat.neg, UnpackedFloat.pack]
    split_ifs <;> exact ⟨s, _, _, rfl, rfl⟩

/-- The sign can be turned before packing or after unpacking. -/
theorem unpack_pack_neg (u : UnpackedFloat) :
    UnpackedFloat.unpack .binary64 (UnpackedFloat.pack .binary64 u.neg) =
      (UnpackedFloat.unpack .binary64 (UnpackedFloat.pack .binary64 u)).neg := by
  by_cases hnan : u = .notANumber
  · rw [hnan]
    rfl
  · obtain ⟨s, E, M, hu, hneg⟩ := exists_pack_eq hnan
    have hword := unpack_wordOf s E.isLt M.isLt
    have hword' := unpack_wordOf (-s) E.isLt M.isLt
    simp only [wordOf, BitVec.ofNat_toNat, BitVec.setWidth_eq] at hword hword'
    rw [hu, hneg, hword, hword']
    split_ifs <;> rfl

/-- The word that has the sign bit only. -/
def signBit : UInt64 := 0x8000000000000000

theorem packComponents_neg (s : Sign) (E : BitVec 11) (M : BitVec 52) :
    UnpackedFloat.packComponents .binary64 (-s) E M =
      UnpackedFloat.packComponents .binary64 s E M ^^^ signBit.toBitVec := by
  have hbit : signBit.toBitVec = (1#1 ++ 0#11 ++ 0#52 : BitVec 64) := rfl
  have hsign : (-s).toBitVec = s.toBitVec ^^^ 1#1 := by cases s <;> rfl
  show ((-s).toBitVec ++ E ++ M : BitVec 64) = (s.toBitVec ++ E ++ M : BitVec 64) ^^^ _
  rw [hbit, BitVec.xor_append, BitVec.xor_append, hsign, BitVec.xor_zero, BitVec.xor_zero]

/-- Apart from NaN, turning the sign flips the sign bit of the word. -/
theorem pack_neg {u : UnpackedFloat} (h : u ≠ .notANumber) :
    UnpackedFloat.pack .binary64 u.neg = UnpackedFloat.pack .binary64 u ^^^ signBit.toBitVec := by
  obtain ⟨s, E, M, hu, hneg⟩ := exists_pack_eq h
  rw [hu, hneg, packComponents_neg]

end Identicon.Binary64
