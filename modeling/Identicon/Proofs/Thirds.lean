import Identicon.Proofs.Seeds

/-!
# Thirds of identifiers

The thirds of a text follow each other without gaps, and only the last is longer than a third of the
text, by two characters at most. A text of three or more characters has no empty third, so that each
third has a mean and no sum is divided by zero: the length in lowercase is all that an identifier
can fail by.

That length is known from the identifier. Lowercasing replaces characters one by one, except for the
dotted capital I, which becomes two, and a sigma, whose place in a word decides between two small
letters but not between lengths. No text becomes shorter.

## Main definitions

* `InThirds`: the parts that a text falls into, told by their lengths.
* `IsMeanOf`: what the mean weight of a part has to be.
-/

namespace Identicon

open Binary64

variable {text : List Char} {parts : Channels (List Char)}

/-! ## Cutting -/

/-- The parts of a text: two of a third of its length, rounded down, and the rest. -/
structure InThirds (text : List Char) (parts : Channels (List Char)) : Prop where
  text_eq : parts.red ++ parts.green ++ parts.blue = text
  length_red : parts.red.length = text.length / 3
  length_green : parts.green.length = text.length / 3

/-- Three parts of a text are told by two lengths. -/
theorem InThirds.eq_thirds (h : InThirds text parts) : parts = thirds text := by
  obtain ⟨red, green, blue⟩ := parts
  obtain ⟨htext, hred, hgreen⟩ := h
  dsimp only at htext hred hgreen
  have hrest : text.drop red.length = green ++ blue := by
    rw [← htext, List.append_assoc, List.drop_left]
  have hboth : (red ++ green).length = 2 * (text.length / 3) := by
    rw [List.length_append]
    omega
  rw [thirds, Channels.mk.injEq]
  refine ⟨?_, ?_, ?_⟩
  · rw [← hred, ← htext, List.append_assoc, List.take_left]
  · rw [← hred, hrest, hred, ← hgreen, List.take_left]
  · rw [← hboth, ← htext, List.drop_left]

/-- The thirds of a text are parts of it. -/
theorem inThirds_thirds (text : List Char) : InThirds text (thirds text) := by
  refine ⟨?_, ?_, ?_⟩
  · show text.take (text.length / 3) ++ (text.drop (text.length / 3)).take (text.length / 3) ++
      text.drop (2 * (text.length / 3)) = text
    rw [List.append_assoc, two_mul, ← List.drop_drop, List.take_append_drop,
      List.take_append_drop]
  · rw [thirds, List.length_take]
    omega
  · rw [thirds, List.length_take, List.length_drop]
    omega

/-- The last part takes what division by three leaves over. -/
theorem InThirds.length_blue (h : InThirds text parts) :
    parts.blue.length = text.length - 2 * (text.length / 3) := by
  have hlen := congrArg List.length h.text_eq
  rw [List.length_append, List.length_append, h.length_red, h.length_green] at hlen
  omega

/-! ## Lowercasing -/

namespace Text

/-- Only the dotted capital I becomes two characters. -/
theorem length_lowerChar (c : Char) :
    (lowerChar c).length = 1 + if c == dottedCapitalI then 1 else 0 := by
  rw [lowerChar]
  by_cases hc : c = dottedCapitalI
  · rw [if_pos hc, if_pos (beq_iff_eq.mpr hc)]
    rfl
  · rw [if_neg hc, if_neg (mt beq_iff_eq.mp hc)]
    rfl

theorem length_lowercaseAfter (before text : List Char) :
    (lowercaseAfter before text).length = text.length + text.count dottedCapitalI := by
  induction text generalizing before with
  | nil => rfl
  | cons c after ih =>
    rw [lowercaseAfter, List.length_append, ih, List.length_cons, List.count_cons]
    by_cases hsigma : c = capitalSigma
    · have hplain : ¬ (c == dottedCapitalI) = true := by
        rw [hsigma]
        decide
      rw [if_pos hsigma, if_neg hplain, List.length_singleton]
      omega
    · rw [if_neg hsigma, length_lowerChar]
      omega

end Text

/-- Each dotted capital I makes an identifier longer by one, and nothing makes it shorter. -/
theorem length_lowercaseOf (identifier : String) :
    (lowercaseOf identifier).length =
      identifier.length + identifier.toList.count Text.dottedCapitalI := by
  rw [lowercaseOf, Text.lowercase, Text.length_lowercaseAfter, String.length_toList]

/-! ## Means -/

/-- What the mean weight of a part has to be: the sum of the weights by their number, which is not
zero as an integer, nor as a double where it fits into a word, and as near to the exact mean as a
double can be while the sum is converted exactly. -/
structure IsMeanOf (part : List Char) (mean : Float) : Prop where
  length_pos : 0 < part.length
  partValue_eq : partValue part = some mean
  mean_eq : mean = ofInt (part.map charWeight).sum / ofInt part.length
  one_le_divisor : part.length < 2 ^ 64 → 1 ≤ ofInt part.length
  holds : part.length < 2 ^ 32 → Holds mean (nearest (exactMean part))

theorem isMeanOf_meanWeight {part : List Char} (h : part ≠ []) :
    IsMeanOf part (meanWeight part) := by
  have hpos : 0 < part.length := List.length_pos_iff.mpr h
  refine ⟨hpos, partValue_eq h, ?_, ?_, holds_meanWeight_nearest h⟩
  · rw [meanWeight, ← List.sum_eq_foldl]
  · intro hlen
    obtain ⟨x, hx, hge⟩ := exists_holds_ofInt_natCast hpos hlen
    exact (holds_one.le_iff hx).mpr hge

/-- An identifier fails by its length or not at all. -/
theorem eq_shortIdentifier_of_rawValues_eq_error {identifier : String} {reason : Error}
    (h : rawValues identifier = .error reason) :
    (lowercaseOf identifier).length < 3 ∧
      reason = .shortIdentifier identifier (lowercaseOf identifier).length := by
  rcases lt_or_ge (lowercaseOf identifier).length 3 with hshort | hlong
  · rw [rawValues_of_short hshort] at h
    exact ⟨hshort, (Except.error.inj h).symm⟩
  · rw [rawValues_of_long hlong] at h
    cases h

/-- **Identifiers are cut into thirds without loss, and accepted by length alone.** -/
theorem rawValues_partitions (identifier : String) :
    ((∃ reason : Error, rawValues identifier = .error reason ∧ reason.kind = .identifier) ↔
      (lowercaseOf identifier).length < 3) ∧
    (∀ reason : Error, rawValues identifier = .error reason →
      reason = .shortIdentifier identifier (lowercaseOf identifier).length ∧
        reason.kind ≠ .evaluation) ∧
    (3 ≤ (lowercaseOf identifier).length →
      ∃ (parts : Channels (List Char)) (means : Channels Float), rawValues identifier = .ok means ∧
        InThirds (lowercaseOf identifier) parts ∧
        parts.blue.length =
          (lowercaseOf identifier).length - 2 * ((lowercaseOf identifier).length / 3) ∧
        (lowercaseOf identifier).length / 3 ≤ parts.blue.length ∧
        parts.blue.length ≤ (lowercaseOf identifier).length / 3 + 2 ∧
        ∀ channel : Channel, IsMeanOf (parts.get channel) (means.get channel)) ∧
    identifier.length ≤ (lowercaseOf identifier).length ∧
    (3 ≤ identifier.length → ∃ means : Channels Float, rawValues identifier = .ok means) := by
  have hle : identifier.length ≤ (lowercaseOf identifier).length := by
    rw [length_lowercaseOf]
    exact Nat.le_add_right _ _
  refine ⟨⟨?_, ?_⟩, ?_, ?_, hle, ?_⟩
  · rintro ⟨reason, herror, -⟩
    exact (eq_shortIdentifier_of_rawValues_eq_error herror).1
  · intro hshort
    exact ⟨_, rawValues_of_short hshort, rfl⟩
  · intro reason herror
    obtain ⟨-, rfl⟩ := eq_shortIdentifier_of_rawValues_eq_error herror
    have hkind : Error.Kind.identifier ≠ .evaluation := by decide
    exact ⟨rfl, hkind⟩
  · intro hlong
    have hparts := inThirds_thirds (lowercaseOf identifier)
    have hblue := hparts.length_blue
    refine ⟨_, _, rawValues_of_long hlong, hparts, hblue, by omega, by omega, ?_⟩
    intro channel
    rw [Channels.get_map]
    exact isMeanOf_meanWeight (thirds_ne_nil hlong channel)
  · intro hlong
    exact ⟨_, rawValues_of_long (hlong.trans hle)⟩

/-- Two characters are too few, unless one of them is a dotted capital I; of five, the last third
has three. -/
theorem rawValues_partitions_abcde :
    (∃ reason : Error, rawValues "ab" = .error reason ∧ reason.kind = .identifier) ∧
    (∃ means : Channels Float, rawValues "A\u0130" = .ok means) ∧
    ∃ (parts : Channels (List Char)) (means : Channels Float), rawValues "ABCDE" = .ok means ∧
      InThirds "abcde".toList parts ∧ parts.blue.length = 3 ∧ IsMeanOf parts.blue means.blue := by
  have hshort : (lowercaseOf "ab").length < 3 := by decide +kernel
  have hdotted : 3 ≤ (lowercaseOf "A\u0130").length := by decide +kernel
  have hlower : lowercaseOf "ABCDE" = "abcde".toList := by decide +kernel
  obtain ⟨-, means, hmeans, -⟩ := (rawValues_partitions "A\u0130").2.2.1 hdotted
  obtain ⟨parts', means', hmeans', hparts, hblue, -, -, hmean⟩ :=
    (rawValues_partitions "ABCDE").2.2.1 (by rw [hlower]; decide)
  rw [hlower] at hparts hblue
  exact ⟨(rawValues_partitions "ab").1.mpr hshort, ⟨means, hmeans⟩, parts', means', hmeans',
    hparts, hblue, hmean .blue⟩

end Identicon
