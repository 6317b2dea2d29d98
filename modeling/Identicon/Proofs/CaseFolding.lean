import Identicon.Proofs.Avatar

/-!
# Text that is lowercase already

Lowercasing a second time changes nothing. A character of a lowercase text is small: lowercasing
leaves it alone wherever it stands. The context that a sigma is judged by may look different after
the first time, but no capital sigma is left for which it would matter.

That the small letter of a capital is no capital itself is a property of the table. The small
letters of a run of capitals lie between two numbers, and a run of the table lies outside of these
or, where capitals and small letters alternate, has the numbers in between; runs are compared two
by two and never letter by letter.

An identifier and its lowercase form then have the same thirds, and the same avatar.

## Main definitions

* `Text.IsSmall`: a character that lowercasing leaves alone.
* `Text.CaseRun.misses`: whether the small letters of a run are no capitals of another.
* `lowered`: the lowercase form of an identifier.
-/

namespace Identicon

namespace Text

/-- A character that lowercasing leaves alone, whatever stands around it. -/
def IsSmall (c : Char) : Prop :=
  c ≠ capitalSigma ∧ lowerChar c = [c]

variable {c : Char} {code : ℕ} {text : List Char}

/-! ## The table of capitals -/

namespace CaseRun

/-- The small letter of the first capital of a run. -/
def smallFirst (r : CaseRun) : ℕ :=
  (r.first + r.offset).toNat

/-- The small letter of the last capital of a run. -/
def smallLast (r : CaseRun) : ℕ :=
  (r.last + r.offset).toNat

/-- Whether the small letters of `r` lie before or behind the capitals of `r'`, or between them as
odd numbers lie between even ones. -/
def misses (r r' : CaseRun) : Bool :=
  r'.last.blt r.smallFirst || r.smallLast.blt r'.first ||
    ((r.stride == 2 || r.first == r.last) && r'.stride == 2 &&
      (r.smallFirst + r'.first) % 2 == 1)

/-- Whether the small letters of a run are characters, and none of them is the dotted capital I. -/
def isProper (r : CaseRun) : Bool :=
  decide (0 ≤ r.first + r.offset) &&
    (r.smallLast.blt 0xd800 || (Nat.blt 0xdfff r.smallFirst && r.smallLast.blt 0x110000)) &&
    (r.smallLast.blt dottedCapitalI.toNat || Nat.blt dottedCapitalI.toNat r.smallFirst)

variable {r r' : CaseRun}

/-- A run that is missed has none of the small letters. -/
theorem covers_eq_false (h : r.misses r' = true) (hpos : 0 ≤ r.first + r.offset)
    (hc : r.covers code = true) : r'.covers (code + r.offset).toNat = false := by
  simp only [misses, Bool.or_eq_true, Bool.and_eq_true, beq_iff_eq, Nat.blt_eq, smallFirst,
    smallLast] at h
  simp only [covers, Bool.and_eq_true, decide_eq_true_eq, beq_iff_eq] at hc
  rw [Bool.eq_false_iff]
  intro hc'
  simp only [covers, Bool.and_eq_true, decide_eq_true_eq, beq_iff_eq] at hc'
  rcases h with (h | h) | ⟨⟨hstride, hstride'⟩, hodd⟩
  · omega
  · omega
  · -- the small letter is odd where the capitals of the other run are even, or the reverse
    rw [hstride'] at hc'
    rcases hstride with hstride | hone
    · rw [hstride] at hc
      omega
    · omega

theorem isValidChar_small (h : r.isProper = true) (hc : r.covers code = true) :
    (code + r.offset).toNat.isValidChar ∧ (code + r.offset).toNat ≠ dottedCapitalI.toNat := by
  simp only [isProper, Bool.or_eq_true, Bool.and_eq_true, decide_eq_true_eq, Nat.blt_eq, smallFirst,
    smallLast] at h
  simp only [covers, Bool.and_eq_true, decide_eq_true_eq] at hc
  rw [Nat.isValidChar]
  omega

end CaseRun

/-- The small letters of the table are none of its capitals. -/
theorem misses_capitals : (capitals.all fun r => capitals.all r.misses) = true := by
  decide +kernel

theorem isProper_capitals : capitals.all CaseRun.isProper = true := by
  decide +kernel

/-- What is no capital of the table has no other small letter. -/
theorem lowerCode_eq_self (h : ∀ r ∈ capitals, r.covers code = false) : lowerCode code = code := by
  rw [lowerCode]
  split
  · next r hr =>
    rw [h r (List.mem_of_find?_eq_some hr)]
    rfl
  · rfl

/-- A code point has no other small letter, or it is a capital of the table. -/
theorem lowerCode_cases (code : ℕ) :
    lowerCode code = code ∨
      ∃ r ∈ capitals, r.covers code = true ∧ lowerCode code = (code + r.offset).toNat := by
  rw [lowerCode]
  split
  · next r hr =>
    cases hc : r.covers code with
    | true => exact .inr ⟨r, List.mem_of_find?_eq_some hr, hc, if_pos rfl⟩
    | false => exact .inl rfl
  · exact .inl rfl

/-! ## Small characters -/

/-- A character without a small letter of its own is small, unless its lowercase form is a matter
of its place or of two characters. -/
theorem isSmall_of_lowerCode (hdot : c ≠ dottedCapitalI) (h : lowerCode c.toNat = c.toNat) :
    IsSmall c := by
  refine ⟨?_, ?_⟩
  · rintro rfl
    exact absurd h (by decide +kernel)
  · rw [lowerChar, if_neg hdot, h, Char.ofNat_toNat]

theorem isSmall_ofNat_lowerCode (hdot : c ≠ dottedCapitalI) :
    IsSmall (Char.ofNat (lowerCode c.toNat)) := by
  rcases lowerCode_cases c.toNat with hsame | ⟨r, hr, hc, hcode⟩
  · rw [hsame, Char.ofNat_toNat]
    exact isSmall_of_lowerCode hdot hsame
  · have hmisses := List.all_eq_true.mp (List.all_eq_true.mp misses_capitals r hr)
    have hproper := List.all_eq_true.mp isProper_capitals r hr
    obtain ⟨hvalid, hne⟩ := CaseRun.isValidChar_small hproper hc
    have hpos : 0 ≤ r.first + r.offset := by
      simp only [CaseRun.isProper, Bool.and_eq_true, decide_eq_true_eq] at hproper
      exact hproper.1.1
    rw [hcode]
    set small := (c.toNat + r.offset).toNat with hsmall
    have htoNat : (Char.ofNat small).toNat = small := by
      rw [Char.toNat_ofNat, if_pos hvalid]
    apply isSmall_of_lowerCode
    · intro heq
      rw [heq] at htoNat
      exact hne htoNat.symm
    · rw [htoNat]
      exact lowerCode_eq_self fun r' hr' => CaseRun.covers_eq_false (hmisses r' hr') hpos hc

theorem isSmall_of_mem_lowerChar {d : Char} (h : d ∈ lowerChar c) : IsSmall d := by
  rw [lowerChar] at h
  split_ifs at h with hdot
  · -- an `i` and a combining dot
    rcases List.mem_pair.mp h with rfl | rfl
    · exact ⟨by decide, rfl⟩
    · exact ⟨by decide, rfl⟩
  · rw [List.mem_singleton.mp h]
    exact isSmall_ofNat_lowerCode hdot

theorem isSmall_sigma : IsSmall finalSigma ∧ IsSmall medialSigma :=
  ⟨⟨by decide, rfl⟩, by decide, rfl⟩

/-- A character of a lowercase text is a small sigma, or belongs to the lowercase form of one that
stands in the text. -/
theorem mem_lowercaseAfter {before : List Char} {d : Char} (h : d ∈ lowercaseAfter before text) :
    (capitalSigma ∈ text ∧ (d = finalSigma ∨ d = medialSigma)) ∨ ∃ c ∈ text, d ∈ lowerChar c := by
  induction text generalizing before with
  | nil => cases h
  | cons c after ih =>
    rw [lowercaseAfter] at h
    rcases List.mem_append.mp h with hd | hd
    · split_ifs at hd with hsigma hend
      · exact .inl ⟨hsigma ▸ List.mem_cons_self, .inl (List.mem_singleton.mp hd)⟩
      · exact .inl ⟨hsigma ▸ List.mem_cons_self, .inr (List.mem_singleton.mp hd)⟩
      · exact .inr ⟨c, List.mem_cons_self, hd⟩
    · rcases ih hd with ⟨hmem, hsmall⟩ | ⟨c', hc', hd⟩
      · exact .inl ⟨List.mem_cons_of_mem c hmem, hsmall⟩
      · exact .inr ⟨c', List.mem_cons_of_mem c hc', hd⟩

/-- Lowercasing leaves small characters, whatever stands before the text. -/
theorem isSmall_of_mem_lowercaseAfter {before : List Char} {d : Char}
    (h : d ∈ lowercaseAfter before text) : IsSmall d := by
  rcases mem_lowercaseAfter h with ⟨-, rfl | rfl⟩ | ⟨c, -, hd⟩
  · exact isSmall_sigma.1
  · exact isSmall_sigma.2
  · exact isSmall_of_mem_lowerChar hd

/-- A text of small characters is its own lowercase form. -/
theorem lowercaseAfter_of_isSmall (h : ∀ c ∈ text, IsSmall c) (before : List Char) :
    lowercaseAfter before text = text := by
  induction text generalizing before with
  | nil => rfl
  | cons c after ih =>
    obtain ⟨⟨hsigma, hc⟩, hafter⟩ := List.forall_mem_cons.mp h
    rw [lowercaseAfter, if_neg hsigma, hc, ih hafter]
    rfl

/-- Lowercasing a second time changes nothing. -/
theorem lowercase_lowercase (text : List Char) : lowercase (lowercase text) = lowercase text :=
  lowercaseAfter_of_isSmall (fun _ hc => isSmall_of_mem_lowercaseAfter hc) []

/-- A sigma ends its word unless a letter follows, here one that becomes two characters. The second
time there is no capital left whose place would matter. -/
example : lowercase "ΑΣ".toList = "ας".toList ∧ lowercase "ΑΣİ".toList = "ασi\u0307".toList ∧
    lowercase "ασi\u0307".toList = "ασi\u0307".toList := by
  decide +kernel

end Text

/-! ## Identifiers -/

/-- An identifier in lowercase. -/
def lowered (identifier : String) : String :=
  String.ofList (lowercaseOf identifier)

theorem lowercaseOf_lowered (identifier : String) :
    lowercaseOf (lowered identifier) = lowercaseOf identifier := by
  rw [lowercaseOf, lowered, String.toList_ofList, lowercaseOf, Text.lowercase_lowercase]

/-- Both have seeds, which are the same, or both are too short, by the same length. -/
theorem Seeds.derive_lowered (identifier : String) :
    (∃ seeds, derive identifier = .ok seeds ∧ derive (lowered identifier) = .ok seeds) ∨
      ∃ length, derive identifier = .error (.shortIdentifier identifier length) ∧
        derive (lowered identifier) = .error (.shortIdentifier (lowered identifier) length) := by
  have hlower := lowercaseOf_lowered identifier
  rcases lt_or_ge (lowercaseOf identifier).length 3 with hshort | hlong
  · right
    refine ⟨_, derive_of_short hshort, ?_⟩
    rw [derive_of_short (hlower ▸ hshort), hlower]
  · left
    refine ⟨_, derive_of_long hlong, ?_⟩
    rw [derive_of_long (hlower ▸ hlong), hlower]

namespace Avatar

/-- Identifiers with the same seeds have the same avatar. -/
theorem renderUnder_eq_of_derive_eq {identifier user : String}
    (h : Seeds.derive identifier = Seeds.derive user) (interleaving : Interleaving) (trig : Trig)
    (o : Options) :
    renderUnder interleaving trig identifier o = renderUnder interleaving trig user o := by
  rw [renderUnder, renderUnder, h]

/-- **An identifier and its lowercase form are one identifier.** The lowercase form is its own
lowercase form, both have the same seeds or are both too short, and whatever avatar one of them has,
the other has too. -/
theorem renderUnder_lowered (identifier : String) :
    lowered (lowered identifier) = lowered identifier ∧
    ((∃ seeds, Seeds.derive identifier = .ok seeds ∧
        Seeds.derive (lowered identifier) = .ok seeds) ∨
      ∃ length, Seeds.derive identifier = .error (.shortIdentifier identifier length) ∧
        Seeds.derive (lowered identifier) =
          .error (.shortIdentifier (lowered identifier) length)) ∧
    ∀ (interleaving : Interleaving) (trig : Trig) (o : Options) (a : Avatar),
      renderUnder interleaving trig (lowered identifier) o = .ok a ↔
        renderUnder interleaving trig identifier o = .ok a := by
  have hlower := lowercaseOf_lowered identifier
  refine ⟨congrArg String.ofList hlower, Seeds.derive_lowered identifier, ?_⟩
  intro interleaving trig o a
  rcases Seeds.derive_lowered identifier with ⟨seeds, hseeds, hlowered⟩ | ⟨length, hshort, _⟩
  · rw [renderUnder_eq_of_derive_eq (hlowered.trans hseeds.symm)]
  · -- neither of them has an avatar
    have hno : ¬ 3 ≤ (lowercaseOf identifier).length := by
      intro hlong
      cases hshort.symm.trans (Seeds.derive_of_long hlong)
    constructor
    · intro h
      exact absurd (hlower ▸ (accepted_of_renderUnder_eq_ok h).2) hno
    · intro h
      exact absurd (accepted_of_renderUnder_eq_ok h).2 hno

end Avatar

end Identicon
