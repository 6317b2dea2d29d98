import Identicon.Proofs.Decimal.Digits
import Identicon.Proofs.Json.Printed

/-!
# Numbers read back

A number ends where a text stops carrying it on, and is read whole up to there: `Stops` names such
texts, among them all that can follow a number in a document.
-/

namespace Identicon.Json

open Decimal (digitsOf)

variable {n : ℕ} {digits fraction whole rest s : List Char} {c : Char} {number : Number}
  {convert : Conversion}

/-! ## Where numbers end -/

/-- A text that does not carry on the digits, the fraction or the exponent of a number. -/
def Stops (s : List Char) : Prop :=
  ∀ c ∈ s.head?, c.isDigit = false ∧ c ≠ '.' ∧ c ≠ 'e' ∧ c ≠ 'E'

theorem stops_cons (h : c.isDigit = false) (hpoint : c ≠ '.') (he : c ≠ 'e') (hE : c ≠ 'E') :
    Stops (c :: s) := by
  rintro d ⟨⟩
  exact ⟨h, hpoint, he, hE⟩

theorem stops_comma : Stops (',' :: s) := stops_cons rfl (by decide) (by decide) (by decide)

theorem stops_brace : Stops ('}' :: s) := stops_cons rfl (by decide) (by decide) (by decide)

theorem Stops.noDigit (h : Stops s) : NoDigit s := fun c hc => (h c hc).1

theorem exponentMark_of_stops (h : Stops s) : exponentMark s = none := by
  cases s with
  | nil => rfl
  | cons c s =>
    obtain ⟨-, -, he, hE⟩ := h c rfl
    rw [exponentMark]
    · rintro s' heq
      exact he (List.cons.inj heq).1
    · rintro s' heq
      exact hE (List.cons.inj heq).1

/-! ## Integers -/

theorem readNumberTail_of_stops (h : Stops s) (negative : Bool) (whole : List Char) :
    readNumberTail convert negative whole s = integerNumber convert negative whole s := by
  rw [readNumberTail]
  · rw [exponentMark_of_stops h]
  · rintro s' rfl
    exact (h '.' rfl).2.1 rfl

/-- A row of digits on its own is an integer. -/
theorem readMagnitude_digitsOf (h : Stops s) (negative : Bool) (n : ℕ) :
    readMagnitude convert negative (digitsOf n ++ s) =
      integerNumber convert negative (digitsOf n) s := by
  rw [readMagnitude_append (leading_digitsOf n) h.noDigit, readNumberTail_of_stops h]

/-- An integer of the 64-bit ranges is read back. -/
theorem readNumber_printInteger (h : Stops s) {n : ℤ} (hlo : -2 ^ 63 ≤ n) (hhi : n < 2 ^ 64) :
    readNumber convert (printInteger n ++ s) = .ok (.integer n, s) := by
  rw [printInteger]
  split_ifs with hn
  · have hbound : 1 ≤ n.natAbs ∧ n.natAbs ≤ Binary64.intBound := by
      rw [Binary64.intBound]
      omega
    have habs : (-n.natAbs : ℤ) = n := by omega
    rw [List.cons_append, readNumber_minus, readMagnitude_digitsOf h, integerNumber,
      ofDigits_digitsOf, if_pos rfl, if_pos hbound, habs]
  · have hbound : n.natAbs < UInt64.size := by
      rw [UInt64.size]
      omega
    have habs : (n.natAbs : ℤ) = n := by omega
    rw [readNumber_append (leading_digitsOf _), readMagnitude_digitsOf h, integerNumber,
      ofDigits_digitsOf, if_neg Bool.false_ne_true, if_pos hbound, habs]

/-- The first character of a nonnegative number is a digit. -/
theorem exists_digitsOf_append_eq_cons (n : ℕ) (s : List Char) :
    ∃ c rest, digitsOf n ++ s = c :: rest ∧ c.isDigit = true := by
  obtain ⟨hne, hdigits, -⟩ := leading_digitsOf n
  obtain ⟨c, digits, heq⟩ := List.exists_cons_of_ne_nil hne
  refine ⟨c, digits ++ s, by rw [heq, List.cons_append], hdigits c ?_⟩
  rw [heq]
  exact List.mem_cons_self

theorem isBlank_of_isDigit (h : c.isDigit = true) : isBlank c = false := by
  rw [Bool.eq_false_iff]
  intro hblank
  simp only [isBlank, Bool.or_eq_true, beq_iff_eq] at hblank
  rcases hblank with ((rfl | rfl) | rfl) | rfl <;> exact absurd h (by decide)

/-- A number begins with a minus or with a digit. -/
theorem exists_cons_of_readNumber_eq_ok (h : readNumber convert s = .ok (number, rest)) :
    ∃ c t, s = c :: t ∧ (c = '-' ∨ c.isDigit = true) := by
  cases s with
  | nil => cases h
  | cons c t =>
    refine ⟨c, t, rfl, ?_⟩
    by_contra! hc
    have hzero : c ≠ '0' := by
      rintro rfl
      exact hc.2 rfl
    have hread : readNumber convert (c :: t) = readMagnitude convert false (c :: t) := by
      rw [readNumber]
      rintro t' heq
      exact hc.1 (List.cons.inj heq).1
    rw [hread, readMagnitude, if_neg hzero, if_neg hc.2] at h
    cases h

section Asked

variable {α : Type} {expected : String} {accept : Number → Except Mismatch α} {a : α}

theorem skipBlanks_of_starts (hc : c = '-' ∨ c.isDigit = true) (s : List Char) :
    skipBlanks (c :: s) = c :: s := by
  apply skipBlanks_cons
  rcases hc with rfl | hc
  · rfl
  · exact isBlank_of_isDigit hc

/-- A number is handed on to where it is asked for. -/
theorem readNumberAs_of_readNumber (h : readNumber .scaled s = .ok (number, rest))
    (ha : accept number = .ok a) : readNumberAs expected accept s = .ok (a, rest) := by
  obtain ⟨c, t, rfl, hc⟩ := exists_cons_of_readNumber_eq_ok h
  rw [readNumberAs, skipBlanks_of_starts hc]
  dsimp only
  rw [if_pos hc, h, ok_bind]
  dsimp only
  rw [ha]
  rfl

/-- So is the problem with a number. -/
theorem readNumberAs_of_readNumber_eq_error {f : Fault} (hc : c = '-' ∨ c.isDigit = true)
    (h : readNumber .scaled (c :: s) = .error f) :
    readNumberAs expected accept (c :: s) = .error f := by
  rw [readNumberAs, skipBlanks_of_starts hc]
  dsimp only
  rw [if_pos hc, h]
  rfl

end Asked

/-- A nonnegative integer is read back where there is room for it. -/
theorem readUnsigned_printInteger (h : Stops s) {expected : String} {bound : ℕ} (hn : n < bound)
    (hbound : bound ≤ 2 ^ 64) :
    readUnsigned expected bound (printInteger n ++ s) = .ok (n, s) := by
  apply readNumberAs_of_readNumber (readNumber_printInteger h (by omega) (by omega))
  dsimp only
  rw [if_pos ⟨by omega, by omega⟩, Int.toNat_natCast]

/-- What is no `null` is read as a value. -/
theorem readOptional_printInteger {α : Type} {read : Reader α} {a : α}
    (h : read (printInteger n ++ s) = .ok (a, rest)) :
    readOptional read (printInteger n ++ s) = .ok (some a, rest) := by
  have hprint : printInteger n = digitsOf n := if_neg (by omega)
  rw [hprint] at h ⊢
  obtain ⟨c, rest, heq, hc⟩ := exists_digitsOf_append_eq_cons n s
  have hn : c ≠ 'n' := by
    rintro rfl
    exact absurd hc (by decide)
  rw [heq] at h ⊢
  rw [readOptional, skipBlanks_cons (isBlank_of_isDigit hc)]
  split
  · next heq' => exact absurd (List.cons.inj heq').1 hn
  · rw [h]
    rfl

/-! ## Truth values -/

theorem readBoolean_printBoolean (b : Bool) (s : List Char) :
    readBoolean (printBoolean b ++ s) = .ok (b, s) := by
  cases b <;> rfl

end Identicon.Json
