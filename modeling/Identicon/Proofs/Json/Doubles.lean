import Identicon.Proofs.Decimal.Reread
import Identicon.Proofs.Json.Conversions
import Identicon.Proofs.Json.Numbers

/-!
# Doubles read back

A finite double is written as its shortest decimal, with a point or with an exponent, and the reader
finds figures of the same number in either: `Denotes` says so of a text without regard to where the
point stands. What becomes of them is up to the conversion. The nearest double to the shortest
decimal is the one that was written, and the sign in front tells the two zeros apart, so that every
finite double is read back bit for bit by a reader that converts exactly. The reader of documents
gives the double that the decimal is scaled to.
-/

namespace Identicon.Json

open Binary64
open Float.Model (UnpackedFloat)
open Decimal (digitsOf pointed positional scientific value ofFinite)

variable {n places : ℕ} {digits fraction whole rest s text : List Char} {c : Char} {d : Decimal}
  {f : Figures} {convert : Conversion} {z : Float}

/-! ## Layouts -/

/-- The digits before and after a point, for digits enough to go on both sides. -/
theorem pointed_eq (hplaces : 0 < places) (n : ℕ) : ∃ whole fraction,
    pointed (digitsOf n) places = whole ++ '.' :: fraction ∧ Leading whole ∧
      (∀ c ∈ fraction, c.isDigit = true) ∧ fraction.length = places ∧
      ofDigits (whole ++ fraction) = n := by
  set zeros := List.replicate (places + 1 - (digitsOf n).length) '0' with hzeros
  set padded := zeros ++ digitsOf n with hpadded
  have hlen : padded.length = places + 1 - (digitsOf n).length + (digitsOf n).length := by
    rw [hpadded, List.length_append, hzeros, List.length_replicate]
  have hdigits : ∀ c ∈ padded, c.isDigit = true := by
    intro c hc
    rcases List.mem_append.mp hc with hc | hc
    · rw [List.eq_of_mem_replicate hc]
      rfl
    · exact Decimal.isDigit_of_mem_digitsOf hc
  refine ⟨padded.take (padded.length - places), padded.drop (padded.length - places), rfl, ?_, ?_,
    ?_, ?_⟩
  · rcases le_or_gt (digitsOf n).length places with hle | hgt
    · -- zeros go in front, and one of them stands before the point
      obtain ⟨count, hcount⟩ : ∃ count, places + 1 - (digitsOf n).length = count + 1 :=
        ⟨places - (digitsOf n).length, by omega⟩
      have hcut : padded.length - places = 1 := by omega
      rw [hcut, hpadded, hzeros, hcount, List.replicate_succ]
      exact leading_zero
    · have hnone : places + 1 - (digitsOf n).length = 0 := by omega
      have hn : 0 < n := by
        rcases Nat.eq_zero_or_pos n with rfl | hn
        · rw [digitsOf, Nat.toDigits_of_lt_base (by decide), List.length_singleton] at hgt
          omega
        · exact hn
      obtain ⟨c, digits, heq, hc⟩ := Decimal.exists_digitsOf_eq_cons hn
      obtain ⟨count, hcount⟩ : ∃ count, padded.length - places = count + 1 :=
        ⟨padded.length - places - 1, by omega⟩
      have hcons : padded = c :: digits := by
        rw [hpadded, hzeros, hnone, List.replicate_zero, List.nil_append, heq]
      rw [hcount, hcons, List.take_succ_cons]
      apply leading_cons hc
      intro d hd
      apply hdigits
      rw [hcons]
      exact List.mem_of_mem_take (i := count + 1) hd
  · exact fun c hc => hdigits c (List.mem_of_mem_drop hc)
  · rw [List.length_drop]
    omega
  · rw [List.take_append_drop, hpadded, ofDigits_append, hzeros, ofDigits_replicate_zero, zero_mul,
      zero_add, ofDigits_digitsOf]

/-! ## Tails -/

/-- What follows a fraction is an exponent or the end of the number. -/
theorem readNumberTail_point (hne : fraction ≠ []) (hf : ∀ c ∈ fraction, c.isDigit = true)
    (h : NoDigit s) (negative : Bool) (whole : List Char) :
    readNumberTail convert negative whole ('.' :: fraction ++ s) =
      (exponentMark s).elim (finish convert negative ⟨whole, fraction, 0⟩ s)
        (readExponent convert negative ⟨whole, fraction, 0⟩) := by
  cases fraction with
  | nil => exact absurd rfl hne
  | cons c fraction =>
    simp only [List.cons_append, readNumberTail]
    rw [← List.cons_append, takeWhile_isDigit hf h, dropWhile_isDigit hf h]
    dsimp only
    cases exponentMark s with
    | none | some => rfl

theorem readNumberTail_fraction (hne : fraction ≠ []) (hf : ∀ c ∈ fraction, c.isDigit = true)
    (h : Stops s) (negative : Bool) (whole : List Char) :
    readNumberTail convert negative whole ('.' :: fraction ++ s) =
      finish convert negative ⟨whole, fraction, 0⟩ s := by
  rw [readNumberTail_point hne hf h.noDigit, exponentMark_of_stops h, Option.elim_none]

theorem readNumberTail_fraction_exponent (hne : fraction ≠ [])
    (hf : ∀ c ∈ fraction, c.isDigit = true) (negative : Bool) (whole s : List Char) :
    readNumberTail convert negative whole ('.' :: fraction ++ 'e' :: s) =
      readExponent convert negative ⟨whole, fraction, 0⟩ s :=
  readNumberTail_point hne hf (noDigit_cons rfl) negative whole

theorem readNumberTail_exponent (negative : Bool) (whole s : List Char) :
    readNumberTail convert negative whole ('e' :: s) =
      readExponent convert negative ⟨whole, [], 0⟩ s := rfl

/-- The digits of an exponent are read as far as they go. -/
theorem readExponentDigits_append (hdigits : ∀ c ∈ digits, c.isDigit = true) (h : NoDigit s)
    (value : ℕ) (hle : Nat.ofDigitChars 10 digits value ≤ greatestExponent) :
    readExponentDigits value (digits ++ s) = (Nat.ofDigitChars 10 digits value, false, s) := by
  induction digits generalizing value with
  | nil =>
    cases s with
    | nil => rfl
    | cons c s =>
      rw [List.nil_append, readExponentDigits, if_neg (by rw [h c rfl]; exact Bool.false_ne_true)]
      rfl
  | cons c digits ih =>
    obtain ⟨hc, hdigits⟩ := List.forall_mem_cons.mp hdigits
    rw [Nat.ofDigitChars_cons] at hle ⊢
    have hfits : 10 * value + (c.toNat - '0'.toNat) ≤ greatestExponent :=
      (le_ofDigitChars _ digits).trans hle
    rw [List.cons_append, readExponentDigits, if_pos hc]
    dsimp only
    rw [if_neg (not_lt.mpr hfits)]
    exact ih hdigits _ hle

theorem readExponent_printed (h : NoDigit s) {e : ℤ} (he : e.natAbs ≤ greatestExponent)
    (negative : Bool) (f : Figures) :
    readExponent convert negative f ((if e < 0 then '-' else '+') :: digitsOf e.natAbs ++ s) =
      finish convert negative { f with exponent := e } s := by
  have hread : readExponentDigits 0 (digitsOf e.natAbs ++ s) = (e.natAbs, false, s) := by
    have h := readExponentDigits_append
      (fun c (hc : c ∈ digitsOf e.natAbs) => Decimal.isDigit_of_mem_digitsOf hc) h 0
    rw [← ofDigits_eq, ofDigits_digitsOf] at h
    exact h he
  obtain ⟨c, rest, heq, hc⟩ := exists_digitsOf_append_eq_cons e.natAbs s
  rw [heq] at hread
  rw [List.cons_append, heq]
  have hsign : (e.natAbs : ℤ) = if e < 0 then -e else e := by split_ifs <;> omega
  split_ifs at hsign ⊢ with hneg
  · simp only [readExponent, if_pos hc, hread, if_true, hsign, neg_neg]
  · simp only [readExponent, if_pos hc, hread, hsign, Bool.false_eq_true, if_false]

/-! ## Numbers -/

/-- A text that is read up to `s` as figures of this decimal, with either sign. -/
def Denotes (text s : List Char) (d : Decimal) : Prop :=
  ∃ whole rest f, text = whole ++ rest ∧ Leading whole ∧ NoDigit rest ∧ f.decimal = d ∧
    ∀ convert negative, readNumberTail convert negative whole rest = finish convert negative f s

theorem denotes_positional (h : Stops s) (hd : 0 < d.digits ∨ d.power = 0)
    (hlead : d.leadingExponent ≤ 15) :
    Denotes (positional ".0".toList d ++ s) s d.laidOut := by
  rw [positional]
  split_ifs with hpower
  · have hzero : ∀ c ∈ ['0'], c.isDigit = true := List.forall_mem_singleton.mpr rfl
    refine ⟨digitsOf d.digits ++ List.replicate d.power.toNat '0', '.' :: ['0'] ++ s,
      ⟨digitsOf d.digits ++ List.replicate d.power.toNat '0', ['0'], 0⟩, ?_, ?_, noDigit_cons rfl,
      ?_, ?_⟩
    · rw [List.append_assoc]
      rfl
    · rcases hd with hpos | hpower
      · apply leading_digitsOf_append hpos
        intro c hc
        rw [List.eq_of_mem_replicate hc]
        rfl
      · rw [hpower, Int.toNat_zero, List.replicate_zero, List.append_nil]
        exact leading_digitsOf _
    · have hrow : ofDigits ['0'] = 0 := rfl
      rw [Decimal.laidOut, if_pos ⟨hpower, hlead⟩, Figures.decimal]
      simp only [ofDigits_append, ofDigits_digitsOf, ofDigits_replicate_zero, hrow,
        List.length_replicate, List.length_singleton, add_zero, pow_succ, pow_zero, one_mul,
        mul_assoc]
      rfl
    · exact fun _ _ => readNumberTail_fraction (List.cons_ne_nil _ _) hzero h _ _
  · have hplaces : 0 < (-d.power).toNat := by omega
    obtain ⟨whole, fraction, heq, hwhole, hfraction, hlen, hval⟩ := pointed_eq hplaces d.digits
    have hne : fraction ≠ [] := by
      rintro rfl
      rw [List.length_nil] at hlen
      omega
    have hpow : (0 : ℤ) - fraction.length = d.power := by omega
    refine ⟨whole, '.' :: fraction ++ s, ⟨whole, fraction, 0⟩, ?_, hwhole, noDigit_cons rfl, ?_, ?_⟩
    · rw [heq, List.append_assoc, List.cons_append]
    · rw [Decimal.laidOut, if_neg fun hlaid => hpower hlaid.1, Figures.decimal, hval, hpow]
    · exact fun _ _ => readNumberTail_fraction hne hfraction h _ _

theorem denotes_scientific (h : Stops s) (he : d.leadingExponent.natAbs ≤ greatestExponent) :
    Denotes (scientific d ++ s) s d := by
  have hexp : d.leadingExponent = (digitsOf d.digits).length - 1 + d.power := rfl
  rw [scientific]
  by_cases hone : (digitsOf d.digits).length = 1
  · rw [if_pos hone]
    refine ⟨digitsOf d.digits,
      'e' :: (if d.leadingExponent < 0 then '-' else '+') :: digitsOf d.leadingExponent.natAbs ++ s,
      ⟨digitsOf d.digits, [], d.leadingExponent⟩, ?_, leading_digitsOf _, noDigit_cons rfl, ?_, ?_⟩
    · rw [List.append_assoc]
    · have hpower : d.leadingExponent - (([] : List Char).length : ℤ) = d.power := by
        rw [List.length_nil]
        omega
      rw [Figures.decimal, List.append_nil, ofDigits_digitsOf, hpower]
    · intro convert negative
      exact (readNumberTail_exponent _ _ _).trans (readExponent_printed h.noDigit he negative _)
  · rw [if_neg hone]
    have hplaces : 0 < (digitsOf d.digits).length - 1 := by
      have := Decimal.length_digitsOf_pos d.digits
      omega
    obtain ⟨whole, fraction, heq, hwhole, hfraction, hlen, hval⟩ := pointed_eq hplaces d.digits
    have hne : fraction ≠ [] := by
      rintro rfl
      rw [List.length_nil] at hlen
      omega
    have hpower : d.leadingExponent - fraction.length = d.power := by omega
    refine ⟨whole, '.' :: fraction ++ 'e' :: ((if d.leadingExponent < 0 then '-' else '+') ::
        digitsOf d.leadingExponent.natAbs ++ s), ⟨whole, fraction, d.leadingExponent⟩, ?_, hwhole,
      noDigit_cons rfl, ?_, ?_⟩
    · rw [heq]
      simp only [List.append_assoc, List.cons_append]
    · rw [Figures.decimal, hval, hpower]
    · intro convert negative
      exact (readNumberTail_fraction_exponent hne hfraction negative whole _).trans
        (readExponent_printed h.noDigit he negative _)

/-- A denoted number is read with the sign in front of it. -/
theorem readNumber_of_denotes (h : Denotes text s d) : ∃ f : Figures, f.decimal = d ∧
    ∀ convert, readNumber convert text = finish convert false f s ∧
      readNumber convert ('-' :: text) = finish convert true f s := by
  obtain ⟨whole, rest, f, rfl, hwhole, hrest, hdecimal, htail⟩ := h
  refine ⟨f, hdecimal, fun convert => ⟨?_, ?_⟩⟩
  · rw [readNumber_append hwhole, readMagnitude_append hwhole hrest, htail]
  · rw [readNumber_minus, readMagnitude_append hwhole hrest, htail]

/-! ## Doubles -/

/-- The exponent of a shortest decimal is one that is taken as written. -/
theorem natAbs_leadingExponent_le (hfin : z.isFinite = true) :
    (ofFinite z).leadingExponent.natAbs ≤ greatestExponent := by
  rw [greatestExponent]
  by_cases h0 : toRat z = 0
  · rw [Decimal.ofFinite_eq_zero hfin h0]
    decide
  · have hround := Decimal.nearest_ofFinite hfin
    have hpos : 0 < nearest (ofFinite z).value := by
      rw [hround]
      exact abs_pos.mpr h0
    have hholds : Holds z.abs (nearest (ofFinite z).value) := by
      rw [hround]
      exact (holds_toRat hfin).abs
    have hbounds := Decimal.leadingExponent_bounds hholds hpos
    omega

/-- A double is written in a form that denotes its shortest decimal. -/
theorem denotes_ofFinite (hfin : z.isFinite = true) (h : Stops s) :
    Denotes ((if -5 ≤ (ofFinite z).leadingExponent ∧ (ofFinite z).leadingExponent ≤ 15 then
      positional ".0".toList (ofFinite z) else scientific (ofFinite z)) ++ s) s
      (ofFinite z).laidOut := by
  split_ifs with hlead
  · refine denotes_positional h ?_ hlead.2
    by_cases h0 : toRat z = 0
    · right
      rw [Decimal.ofFinite_eq_zero hfin h0]
    · exact .inl (Decimal.digits_ofFinite_pos hfin h0)
  · -- a decimal that is too small to be written with a point is no whole number
    have hlaid : ¬ (0 ≤ (ofFinite z).power ∧ (ofFinite z).leadingExponent ≤ 15) := by
      rintro ⟨hpower, hle⟩
      have hlen := Decimal.length_digitsOf_pos (ofFinite z).digits
      have hexp : (ofFinite z).leadingExponent =
        (digitsOf (ofFinite z).digits).length - 1 + (ofFinite z).power := rfl
      exact hlead ⟨by omega, hle⟩
    rw [Decimal.laidOut, if_neg hlaid]
    exact denotes_scientific h (natAbs_leadingExponent_le hfin)

/-- **A finite double is read as figures of its shortest decimal**, as it is laid out, whatever
becomes of them. -/
theorem exists_readNumber_real (hfin : z.isFinite = true) (h : Stops s) :
    ∃ f : Figures, f.decimal = (ofFinite z).laidOut ∧ ∀ convert,
      readNumber convert ((Number.real z).print ++ s) = finish convert (isSigned z) f s := by
  obtain ⟨f, hdecimal, hread⟩ := readNumber_of_denotes (denotes_ofFinite hfin h)
  refine ⟨f, hdecimal, fun convert => ?_⟩
  rw [Number.print, Decimal.data, if_pos hfin, Option.getD_some, Decimal.signed]
  by_cases hsign : isSigned z = true
  · rw [if_pos hsign, List.cons_append, (hread convert).2, hsign]
  · rw [if_neg hsign, (hread convert).1, Bool.eq_false_iff.mpr hsign]

/-- Decimals of the value of the shortest one are read as the magnitude, with any sign. -/
theorem nearest?_of_value_eq (hfin : z.isFinite = true) (hd : d.value = (ofFinite z).value)
    (negative : Bool) : d.nearest? negative = some (if negative then -z.abs else z.abs) := by
  have hround := Decimal.nearest_ofFinite hfin
  rw [← hd] at hround
  by_cases h0 : toRat z = 0
  · have hzero : z.abs = 0 := by
      apply eq_of_toRat_eq ((isFinite_abs z).trans hfin) rfl
      · rw [toRat_abs, h0, abs_zero]
        rfl
      · exact isSigned_abs z
    rw [Decimal.ofFinite_eq_zero hfin h0] at hd
    rw [Decimal.nearest?_eq_zero (hd.trans (Decimal.value_eq_zero_iff.mpr rfl)), hzero]
  · apply Decimal.nearest?_eq_some
    · rw [hround]
      exact (holds_toRat hfin).abs
    · rw [hround]
      exact abs_pos.mpr h0

/-- **A reader that converts exactly reads finite doubles back from their form in a document**, bit
for bit. -/
theorem readNumber_nearest (hfin : z.isFinite = true) (h : Stops s) :
    readNumber .nearest ((Number.real z).print ++ s) = .ok (.real z, s) := by
  obtain ⟨f, hdecimal, hread⟩ := exists_readNumber_real hfin h
  have hnearest := nearest?_of_value_eq hfin (Decimal.value_laidOut _) (isSigned z)
  rw [← withSignOf, withSignOf_abs, ← hdecimal] at hnearest
  rw [hread, finish, Conversion.nearest, hnearest]

/-- **The reader of documents finds the double that the shortest decimal is scaled to**, or that
there is none in range. -/
theorem readNumber_scaled (hfin : z.isFinite = true) (h : Stops s) :
    readNumber .scaled ((Number.real z).print ++ s) =
      match Decimal.reread? z with
      | some w => .ok (.real w, s)
      | none => .error (.here .numberOutOfRange s) := by
  obtain ⟨f, hdecimal, hread⟩ := exists_readNumber_real hfin h
  have hlt := Decimal.digits_laidOut_lt (Decimal.digits_ofFinite_lt hfin)
  rw [← hdecimal] at hlt
  rw [hread, finish, Conversion.scaled, Figures.cut_eq_decimal hlt, hdecimal]
  rfl

end Identicon.Json
