import Identicon.Proofs.Decimal.Nearest

/-!
# What figures stand for

The figures of a number stand for the decimal of all their digits. A conversion is as exact as can
be if it gives the double nearest to that decimal, as `Conversion.nearest` does. The conversion that
documents are read with goes by fewer digits and rounds more than once. Digits that fit into 64 bits
are all taken, so that it starts from the same decimal then.
-/

namespace Identicon.Json

variable {f : Figures} {digits : List Char} {n : ℕ}

/-- The decimal that figures stand for. -/
def Figures.decimal (f : Figures) : Decimal :=
  ⟨ofDigits (f.whole ++ f.fraction), f.exponent - f.fraction.length⟩

/-- The conversion to the nearest double. -/
def Conversion.nearest : Conversion := fun negative f =>
  f.decimal.nearest? negative

/-- Digits are taken to the last if the number of all of them fits. -/
theorem takeDigits_of_lt (h : Nat.ofDigitChars 10 digits n < UInt64.size) :
    takeDigits n digits = (Nat.ofDigitChars 10 digits n, 0) := by
  induction digits generalizing n with
  | nil => rfl
  | cons c digits ih =>
    rw [Nat.ofDigitChars_cons] at h ⊢
    rw [takeDigits, if_pos ((le_ofDigitChars _ digits).trans_lt h)]
    exact ih h

/-- Digits that fit into 64 bits are not cut. -/
theorem Figures.cut_eq_decimal (h : ofDigits (f.whole ++ f.fraction) < UInt64.size) :
    f.cut = f.decimal := by
  have happend : ofDigits (f.whole ++ f.fraction) =
      Nat.ofDigitChars 10 f.fraction (Nat.ofDigitChars 10 f.whole 0) := by
    rw [ofDigits_eq, Nat.ofDigitChars_append]
  rw [happend] at h
  have hwhole := takeDigits_of_lt ((le_ofDigitChars _ f.fraction).trans_lt h)
  rw [cut, hwhole]
  dsimp only
  rw [takeDigits_of_lt h, decimal, happend]
  simp

end Identicon.Json
