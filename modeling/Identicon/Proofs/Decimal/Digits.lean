import Identicon.Json.Reader
import Mathlib

/-!
# Rows of digits

A row of decimal digits denotes a number, and the digits of a number denote it. Zeros in front of a
row change nothing, zeros behind it multiply by ten each. In a document the digits before the point
may not begin with a zero unless that is all there is: `Leading` says so, and the reader takes such
a row from the front of a text whole.
-/

namespace Identicon

open Decimal (digitsOf)
open Json (ofDigits Conversion)

variable {n : ℕ} {digits fraction whole rest s : List Char} {c : Char} {convert : Conversion}

/-! ## The number of a row -/

namespace Json

theorem ofDigits_eq (digits : List Char) : ofDigits digits = Nat.ofDigitChars 10 digits 0 := rfl

theorem ofDigits_append (digits digits' : List Char) :
    ofDigits (digits ++ digits') = ofDigits digits * 10 ^ digits'.length + ofDigits digits' := by
  rw [ofDigits_eq, Nat.ofDigitChars_append, Nat.ofDigitChars_eq_ofDigitChars_zero, mul_comm]
  rfl

theorem ofDigits_replicate_zero (count : ℕ) : ofDigits (List.replicate count '0') = 0 := by
  rw [ofDigits_eq, Nat.ofDigitChars_replicate_zero, mul_zero]

/-- A number does not become less when digits are taken on top of it. -/
theorem le_ofDigitChars (n : ℕ) (digits : List Char) : n ≤ Nat.ofDigitChars 10 digits n := by
  rw [Nat.ofDigitChars_eq_ofDigitChars_zero]
  have hpow := Nat.pow_pos (n := digits.length) (show 0 < 10 by decide)
  exact (Nat.le_mul_of_pos_left n hpow).trans (Nat.le_add_right _ _)

@[simp]
theorem ofDigits_digitsOf (n : ℕ) : ofDigits (digitsOf n) = n :=
  Nat.ofDigitChars_ten_toDigits

end Json

/-! ## The row of a number -/

namespace Decimal

theorem isDigit_of_mem_digitsOf (h : c ∈ digitsOf n) : c.isDigit = true :=
  Nat.isDigit_of_mem_toDigits (by decide) (by decide) h

theorem length_digitsOf_pos (n : ℕ) : 0 < (digitsOf n).length :=
  Nat.length_toDigits_pos

theorem lt_pow_length_digitsOf (n : ℕ) : n < 10 ^ (digitsOf n).length :=
  (Nat.length_toDigits_le_iff (by decide) (length_digitsOf_pos n)).mp le_rfl

/-- A number has as many digits as it needs. -/
theorem pow_length_digitsOf_le (hn : 0 < n) : 10 ^ ((digitsOf n).length - 1) ≤ n := by
  by_contra! hlt
  have hpos := length_digitsOf_pos n
  rcases Nat.eq_zero_or_pos ((digitsOf n).length - 1) with h0 | h0
  · rw [h0, pow_zero] at hlt
    omega
  · have hle := (Nat.length_toDigits_le_iff (b := 10) (by decide) h0).mpr hlt
    change (digitsOf n).length ≤ _ at hle
    omega

theorem digitChar_ne_zero : ∀ d < 10, 0 < d → Nat.digitChar d ≠ '0' := by
  decide

/-- The digits of a number other than zero do not begin with a zero. -/
theorem exists_digitsOf_eq_cons (hn : 0 < n) : ∃ c digits, digitsOf n = c :: digits ∧ c ≠ '0' := by
  induction n using Nat.strong_induction_on with
  | _ n ih =>
    rcases lt_or_ge n 10 with hlt | hge
    · exact ⟨_, [], Nat.toDigits_of_lt_base hlt, digitChar_ne_zero n hlt hn⟩
    · obtain ⟨c, digits, heq, hc⟩ := ih (n / 10) (by omega) (by omega)
      refine ⟨c, digits ++ [Nat.digitChar (n % 10)], ?_, hc⟩
      rw [digitsOf, Nat.toDigits_of_base_le (by decide) hge, ← List.cons_append, ← heq]
      rfl

end Decimal

/-! ## Rows in a document -/

namespace Json

/-- A text that does not go on with a digit. -/
def NoDigit (s : List Char) : Prop :=
  ∀ c ∈ s.head?, c.isDigit = false

/-- The digits that may stand before a point: at least one, and no zero in front of another. -/
structure Leading (whole : List Char) : Prop where
  ne_nil : whole ≠ []
  isDigit : ∀ c ∈ whole, c.isDigit = true
  eq_zero : whole.head? = some '0' → whole = ['0']

theorem noDigit_cons (h : c.isDigit = false) : NoDigit (c :: s) := by
  intro d hd
  cases hd
  exact h

theorem takeWhile_isDigit (h : ∀ c ∈ digits, c.isDigit = true) (hrest : NoDigit rest) :
    (digits ++ rest).takeWhile Char.isDigit = digits := by
  rw [List.takeWhile_append_of_pos h]
  cases rest with
  | nil => exact List.append_nil digits
  | cons c rest => rw [List.takeWhile_cons_of_neg (by simp [hrest c rfl]), List.append_nil]

theorem dropWhile_isDigit (h : ∀ c ∈ digits, c.isDigit = true) (hrest : NoDigit rest) :
    (digits ++ rest).dropWhile Char.isDigit = rest := by
  rw [List.dropWhile_append_of_pos h]
  cases rest with
  | nil => rfl
  | cons c rest => exact List.dropWhile_cons_of_neg (by simp [hrest c rfl])

theorem leading_zero : Leading ['0'] :=
  ⟨List.cons_ne_nil _ _, List.forall_mem_singleton.mpr rfl, fun _ => rfl⟩

/-- A row that begins with another digit than zero. -/
theorem leading_cons (hc : c ≠ '0') (h : ∀ d ∈ c :: digits, d.isDigit = true) :
    Leading (c :: digits) :=
  ⟨List.cons_ne_nil _ _, h, fun hzero => absurd (Option.some.inj hzero) hc⟩

/-- Any digits may follow those of a number other than zero. -/
theorem leading_digitsOf_append (hn : 0 < n) (h : ∀ c ∈ digits, c.isDigit = true) :
    Leading (digitsOf n ++ digits) := by
  obtain ⟨c, digits', heq, hc⟩ := Decimal.exists_digitsOf_eq_cons hn
  have hall : ∀ d ∈ digitsOf n ++ digits, d.isDigit = true := by
    intro d hd
    exact (List.mem_append.mp hd).elim Decimal.isDigit_of_mem_digitsOf (h d)
  rw [heq, List.cons_append] at hall ⊢
  exact leading_cons hc hall

theorem leading_digitsOf (n : ℕ) : Leading (digitsOf n) := by
  rcases Nat.eq_zero_or_pos n with rfl | hn
  · rw [digitsOf, Nat.toDigits_of_lt_base (by decide)]
    exact leading_zero
  · rw [← List.append_nil (digitsOf n)]
    exact leading_digitsOf_append hn (by simp)

/-- The digits before a point are taken from the front of a text whole. -/
theorem readMagnitude_append (h : Leading whole) (hrest : NoDigit rest) (negative : Bool) :
    readMagnitude convert negative (whole ++ rest) =
      readNumberTail convert negative whole rest := by
  obtain ⟨hne, hdigits, hzero⟩ := h
  cases whole with
  | nil => exact absurd rfl hne
  | cons c digits =>
    rw [List.cons_append, readMagnitude]
    by_cases hc : c = '0'
    · obtain ⟨-, rfl⟩ := List.cons.inj (hzero (congrArg some hc))
      subst hc
      have hempty := takeWhile_isDigit (List.forall_mem_nil (Char.isDigit · = true)) hrest
      rw [List.nil_append] at hempty ⊢
      rw [if_pos rfl, hempty]
      rfl
    · rw [if_neg hc, if_pos (hdigits c List.mem_cons_self), ← List.cons_append,
        takeWhile_isDigit hdigits hrest, dropWhile_isDigit hdigits hrest]

/-- A row of digits does not begin with a minus. -/
theorem readNumber_append (h : Leading whole) (s : List Char) :
    readNumber convert (whole ++ s) = readMagnitude convert false (whole ++ s) := by
  obtain ⟨hne, hdigits, -⟩ := h
  cases whole with
  | nil => exact absurd rfl hne
  | cons c digits =>
    have hc : c ≠ '-' := by
      rintro rfl
      exact absurd (hdigits '-' List.mem_cons_self) (by decide)
    rw [List.cons_append, readNumber]
    rintro s' heq
    exact hc (List.cons.inj heq).1

theorem readNumber_minus (s : List Char) :
    readNumber convert ('-' :: s) = readMagnitude convert true s := rfl

end Json

end Identicon
