import Identicon.Proofs.Json.Doubles
import Identicon.Proofs.Json.Strings

/-!
# Numbers in the grammar

The reader of numbers and the grammar agree. A numeral is taken whole from the front of every text
that does not carry it on, and what comes of it does not depend on that text: this holds of each
part of the reader, from the last to the first, and so of the reader. What the reader accepts is a
numeral.

The digits of an exponent are a case of their own, since the reader gives up counting them once they
are beyond the greatest exponent. It still passes over all of them.
-/

namespace Identicon.Json

variable {α : Type} {read read' : Reader α} {text text' digits s rest : List Char} {c : Char}
  {convert : Conversion} {negative : Bool} {f : Figures} {number : Number}

/-- A reader takes a text whole if the result, or that there is none, is the same in front of every
text that does not carry on a number, and that text is what is left. -/
def TakesWhole (read : Reader α) (text : List Char) : Prop :=
  ∃ o : Option α, ∀ rest, Stops rest → (read (text ++ rest)).toOption = o.map (·, rest)

theorem TakesWhole.congr (h : TakesWhole read' text')
    (heq : ∀ rest, Stops rest → read (text ++ rest) = read' (text' ++ rest)) :
    TakesWhole read text := by
  obtain ⟨o, ho⟩ := h
  refine ⟨o, fun rest hrest => ?_⟩
  rw [heq rest hrest, ho rest hrest]

theorem stops_nil : Stops [] := nofun

/-! ## The ends of numbers -/

theorem takesWhole_finish (convert : Conversion) (negative : Bool) (f : Figures) :
    TakesWhole (finish convert negative f) [] := by
  refine ⟨(convert negative f).map .real, fun rest _ => ?_⟩
  rw [finish, List.nil_append]
  cases convert negative f with
  | none | some => rfl

theorem takesWhole_integerNumber (convert : Conversion) (negative : Bool) (whole : List Char) :
    TakesWhole (integerNumber convert negative whole) [] := by
  have ok (k : ℤ) : TakesWhole (fun rest => .ok (Number.integer k, rest)) [] :=
    ⟨some (.integer k), fun _ _ => rfl⟩
  unfold integerNumber
  dsimp only
  split_ifs
  · exact ok _
  · exact takesWhole_finish convert true _
  · exact ok _
  · exact takesWhole_finish convert false _

/-! ## Exponents -/

/-- Whether the sign of an exponent is a minus. -/
def ExponentSign.below : ExponentSign → Bool
  | .minus => true
  | _ => false

/-- Reads an exponent after its sign. -/
def readExponentAfter (convert : Conversion) (negative : Bool) (f : Figures) (below : Bool) :
    Reader Number := fun s =>
  match s with
  | [] => .error (.here .endInValue [])
  | c :: s' =>
    if c.isDigit then
      match readExponentDigits 0 (c :: s') with
      | (_, true, rest) =>
        if ofDigits (f.whole ++ f.fraction) ≠ 0 ∧ below = false then
          .error (.here .numberOutOfRange rest)
        else .ok (.real (if negative then -0 else 0), rest.dropWhile Char.isDigit)
      | (e, false, rest) =>
        finish convert negative { f with exponent := if below then -(e : Int) else e } rest
    else .error (.next .invalidNumber (c :: s'))

theorem readExponent_plus (s : List Char) :
    readExponent convert negative f ('+' :: s) = readExponentAfter convert negative f false s := rfl

theorem readExponent_minus (s : List Char) :
    readExponent convert negative f ('-' :: s) = readExponentAfter convert negative f true s := rfl

theorem readExponent_unsigned (hplus : ∀ s', s ≠ '+' :: s') (hminus : ∀ s', s ≠ '-' :: s') :
    readExponent convert negative f s = readExponentAfter convert negative f false s := by
  unfold readExponent
  split
  next below s' heq =>
    split at heq
    · exact absurd rfl (hplus _)
    · exact absurd rfl (hminus _)
    · cases heq
      rfl

theorem readExponent_sign (sign : ExponentSign) (hc : c.isDigit = true) (s : List Char) :
    readExponent convert negative f (sign.text ++ c :: s) =
      readExponentAfter convert negative f sign.below (c :: s) := by
  cases sign with
  | plus => exact readExponent_plus _
  | minus => exact readExponent_minus _
  | unsigned =>
    apply readExponent_unsigned <;> rintro s' ⟨⟩ <;> cases hc

/-- The reader tells the sign of every exponent. -/
theorem exists_sign (s : List Char) : ∃ (sign : ExponentSign) (s' : List Char),
    s = sign.text ++ s' ∧
      ∀ convert negative f,
        readExponent convert negative f s = readExponentAfter convert negative f sign.below s' := by
  by_cases hplus : ∃ s', s = '+' :: s'
  · obtain ⟨s', rfl⟩ := hplus
    exact ⟨.plus, s', rfl, fun _ _ _ => readExponent_plus s'⟩
  by_cases hminus : ∃ s', s = '-' :: s'
  · obtain ⟨s', rfl⟩ := hminus
    exact ⟨.minus, s', rfl, fun _ _ _ => readExponent_minus s'⟩
  · exact ⟨.unsigned, s, rfl, fun _ _ _ =>
      readExponent_unsigned (not_exists.mp hplus) (not_exists.mp hminus)⟩

/-- The digits of an exponent are read to their end, or they are given up and only digits are left
of them. -/
theorem readExponentDigits_cases (h : ∀ c ∈ digits, c.isDigit = true) (value : ℕ) :
    (∃ e, ∀ rest, NoDigit rest → readExponentDigits value (digits ++ rest) = (e, false, rest)) ∨
      ∃ e unread, (∀ c ∈ unread, c.isDigit = true) ∧
        ∀ rest, readExponentDigits value (digits ++ rest) = (e, true, unread ++ rest) := by
  induction digits generalizing value with
  | nil =>
    refine .inl ⟨value, fun rest hrest => ?_⟩
    cases rest with
    | nil => rfl
    | cons c rest =>
      rw [List.nil_append, readExponentDigits,
        if_neg (by rw [hrest c rfl]; exact Bool.false_ne_true)]
  | cons c digits ih =>
    obtain ⟨hc, hdigits⟩ := List.forall_mem_cons.mp h
    set value' := 10 * value + (c.toNat - '0'.toNat) with hvalue'
    have hstep : ∀ rest, readExponentDigits value (c :: digits ++ rest) =
        if greatestExponent < value' then (value', true, digits ++ rest)
        else readExponentDigits value' (digits ++ rest) := by
      intro rest
      rw [List.cons_append, readExponentDigits, if_pos hc]
    by_cases hbeyond : greatestExponent < value'
    · exact .inr ⟨value', digits, hdigits, fun rest => (hstep rest).trans (if_pos hbeyond)⟩
    · rcases ih hdigits value' with ⟨e, hread⟩ | ⟨e, unread, hunread, hread⟩
      · exact .inl ⟨e, fun rest hrest =>
          ((hstep rest).trans (if_neg hbeyond)).trans (hread rest hrest)⟩
      · exact .inr ⟨e, unread, hunread, fun rest =>
          ((hstep rest).trans (if_neg hbeyond)).trans (hread rest)⟩

theorem takesWhole_readExponent (convert : Conversion) (negative : Bool) (f : Figures)
    (sign : ExponentSign) (digits : Digits) :
    TakesWhole (readExponent convert negative f) (sign.text ++ digits.text) := by
  obtain ⟨digits, hne, hdigits⟩ := digits
  obtain ⟨c, digits', rfl⟩ := List.exists_cons_of_ne_nil hne
  have hc := hdigits c List.mem_cons_self
  have hstart : ∀ rest, readExponent convert negative f (sign.text ++ c :: digits' ++ rest) =
      readExponentAfter convert negative f sign.below (c :: digits' ++ rest) := by
    intro rest
    rw [List.append_assoc]
    exact readExponent_sign sign hc _
  rcases readExponentDigits_cases hdigits 0 with ⟨e, hread⟩ | ⟨e, unread, hunread, hread⟩
  · refine (takesWhole_finish convert negative
      { f with exponent := if sign.below then -(e : ℤ) else e }).congr fun rest hrest => ?_
    rw [hstart, List.cons_append, readExponentAfter, if_pos hc, ← List.cons_append,
      hread rest hrest.noDigit]
    rfl
  · by_cases hrange : ofDigits (f.whole ++ f.fraction) ≠ 0 ∧ sign.below = false
    · refine ⟨none, fun rest _ => ?_⟩
      rw [hstart, List.cons_append, readExponentAfter, if_pos hc, ← List.cons_append, hread rest]
      dsimp only
      rw [if_pos hrange]
      rfl
    · refine ⟨some (.real (if negative then -0 else 0)), fun rest hrest => ?_⟩
      rw [hstart, List.cons_append, readExponentAfter, if_pos hc, ← List.cons_append, hread rest]
      dsimp only
      rw [if_neg hrange, dropWhile_isDigit hunread hrest.noDigit]
      rfl

/-! ## Numerals -/

theorem readNumberTail_mark (e : Exponent) (negative : Bool) (whole s : List Char) :
    readNumberTail convert negative whole (e.mark :: s) =
      readExponent convert negative ⟨whole, [], 0⟩ s := by
  obtain ⟨mark, rfl | rfl, sign, digits⟩ := e
  · rfl
  · rfl

theorem readNumberTail_fraction_mark (digits : Digits) (e : Exponent) (negative : Bool)
    (whole s : List Char) :
    readNumberTail convert negative whole ('.' :: digits.text ++ e.mark :: s) =
      readExponent convert negative ⟨whole, digits.text, 0⟩ s := by
  obtain ⟨mark, rfl | rfl, sign, digits'⟩ := e
  · exact readNumberTail_point digits.ne_nil digits.isDigit (noDigit_cons rfl) negative whole
  · exact readNumberTail_point digits.ne_nil digits.isDigit (noDigit_cons rfl) negative whole

theorem takesWhole_readNumberTail (convert : Conversion) (negative : Bool) (whole : List Char)
    (fraction : Option Digits) (exponent : Option Exponent) :
    TakesWhole (readNumberTail convert negative whole)
      (fractionText fraction ++ exponentText exponent) := by
  cases fraction with
  | none =>
    cases exponent with
    | none =>
      refine (takesWhole_integerNumber convert negative whole).congr fun rest hrest => ?_
      exact readNumberTail_of_stops hrest negative whole
    | some e =>
      refine (takesWhole_readExponent convert negative ⟨whole, [], 0⟩ e.sign e.digits).congr
        fun rest _ => ?_
      exact readNumberTail_mark e negative whole _
  | some digits =>
    cases exponent with
    | none =>
      refine (takesWhole_finish convert negative ⟨whole, digits.text, 0⟩).congr fun rest hrest => ?_
      rw [fractionText, exponentText, List.append_nil]
      exact readNumberTail_fraction digits.ne_nil digits.isDigit hrest negative whole
    | some e =>
      refine (takesWhole_readExponent convert negative ⟨whole, digits.text, 0⟩ e.sign
        e.digits).congr fun rest _ => ?_
      rw [fractionText, exponentText, List.append_assoc, List.cons_append]
      exact readNumberTail_fraction_mark digits e negative whole _

/-- What follows the digits before the point is no digit. -/
theorem noDigit_fractionText (fraction : Option Digits) (exponent : Option Exponent)
    (h : NoDigit rest) : NoDigit (fractionText fraction ++ exponentText exponent ++ rest) := by
  cases fraction with
  | some digits => exact noDigit_cons rfl
  | none =>
    rcases exponent with - | ⟨mark, rfl | rfl, sign, digits⟩
    · exact h
    · exact noDigit_cons rfl
    · exact noDigit_cons rfl

theorem takesWhole_readNumber (convert : Conversion) (x : Numeral) :
    TakesWhole (readNumber convert) x.text := by
  obtain ⟨negative, whole, hwhole, fraction, exponent⟩ := x
  refine (takesWhole_readNumberTail convert negative whole fraction exponent).congr
    fun rest hrest => ?_
  rw [← readMagnitude_append hwhole (noDigit_fractionText fraction exponent hrest.noDigit),
    Numeral.text, List.append_assoc, List.append_assoc]
  cases negative with
  | false => exact readNumber_append hwhole _
  | true => rfl

/-- A numeral is read as the number it stands for, and refused if there is none. -/
theorem readNumber_text (x : Numeral) (h : Stops rest) :
    (readNumber .scaled (x.text ++ rest)).toOption = x.number?.map (·, rest) := by
  obtain ⟨o, ho⟩ := takesWhole_readNumber .scaled x
  have hnumber : x.number? = o := by
    have halone := ho [] stops_nil
    rw [List.append_nil] at halone
    rw [Numeral.number?, halone]
    cases o with
    | none | some => rfl
  rw [hnumber, ho rest h]

/-! ## The grammar of what is read -/

theorem exists_digits_readExponentDigits (value : ℕ) (s : List Char) :
    ∃ digits, (∀ c ∈ digits, c.isDigit = true) ∧
      s = digits ++ (readExponentDigits value s).2.2 := by
  fun_induction readExponentDigits value s with
  | case1 => exact ⟨[], List.forall_mem_nil _, rfl⟩
  | case2 value c s hc value' hbeyond =>
    exact ⟨[c], List.forall_mem_singleton.mpr hc, rfl⟩
  | case3 value c s hc value' hbeyond ih =>
    obtain ⟨digits, hdigits, hs⟩ := ih
    refine ⟨c :: digits, List.forall_mem_cons.mpr ⟨hc, hdigits⟩, ?_⟩
    rw [List.cons_append, ← hs]
  | case4 => exact ⟨[], List.forall_mem_nil _, rfl⟩

/-- At least the first digit of an exponent is read. -/
theorem exists_digits_of_isDigit (hc : c.isDigit = true) (value : ℕ) (s : List Char) :
    ∃ digits : Digits, c :: s = digits.text ++ (readExponentDigits value (c :: s)).2.2 := by
  rw [readExponentDigits, if_pos hc]
  dsimp only
  split_ifs with hbeyond
  · exact ⟨⟨[c], List.cons_ne_nil _ _, List.forall_mem_singleton.mpr hc⟩, rfl⟩
  · obtain ⟨digits, hdigits, hs⟩ :=
      exists_digits_readExponentDigits (10 * value + (c.toNat - '0'.toNat)) s
    exact ⟨⟨c :: digits, List.cons_ne_nil _ _, List.forall_mem_cons.mpr ⟨hc, hdigits⟩⟩,
      congrArg (c :: ·) hs⟩

theorem eq_of_finish_eq_ok (h : finish convert negative f s = .ok (number, rest)) : s = rest := by
  unfold finish at h
  split at h <;> cases h
  rfl

theorem eq_of_integerNumber_eq_ok {whole : List Char}
    (h : integerNumber convert negative whole s = .ok (number, rest)) : s = rest := by
  unfold integerNumber at h
  dsimp only at h
  split_ifs at h
  · exact (Prod.mk.inj (Except.ok.inj h)).2
  · exact eq_of_finish_eq_ok h
  · exact (Prod.mk.inj (Except.ok.inj h)).2
  · exact eq_of_finish_eq_ok h

theorem exists_of_readExponent_eq_ok (h : readExponent convert negative f s = .ok (number, rest)) :
    ∃ (sign : ExponentSign) (digits : Digits), s = sign.text ++ (digits.text ++ rest) := by
  obtain ⟨sign, s, rfl, hsign⟩ := exists_sign s
  rw [hsign] at h
  refine ⟨sign, ?_⟩
  cases s with
  | nil => cases h
  | cons c s =>
    have hc : c.isDigit = true := by
      by_contra hc
      rw [readExponentAfter, if_neg hc] at h
      cases h
    rw [readExponentAfter, if_pos hc] at h
    obtain ⟨digits, hs⟩ := exists_digits_of_isDigit hc 0 s
    split at h
    · next e unread hread =>
      -- the digits that were given up belong to the exponent as well
      rw [hread] at hs
      by_cases hrange : ofDigits (f.whole ++ f.fraction) ≠ 0 ∧ sign.below = false
      · rw [if_pos hrange] at h
        cases h
      rw [if_neg hrange] at h
      have hrest := (Prod.mk.inj (Except.ok.inj h)).2
      have hunread : ∀ c ∈ digits.text ++ unread.takeWhile Char.isDigit, c.isDigit = true := by
        intro c hc
        exact (List.mem_append.mp hc).elim (digits.isDigit c) List.mem_takeWhile_imp
      refine ⟨⟨_, List.append_ne_nil_of_left_ne_nil digits.ne_nil _, hunread⟩, ?_⟩
      rw [hs, ← hrest, List.append_assoc, List.takeWhile_append_dropWhile]
    · next e unread hread =>
      rw [hread] at hs
      rw [eq_of_finish_eq_ok h] at hs
      exact ⟨digits, congrArg (sign.text ++ ·) hs⟩

theorem exists_of_exponentMark_eq_some {s' : List Char} (hs : exponentMark s = some s')
    (h : readExponent convert negative f s' = .ok (number, rest)) :
    ∃ e : Option Exponent, s = exponentText e ++ rest := by
  obtain ⟨sign, digits, rfl⟩ := exists_of_readExponent_eq_ok h
  have written : ∀ e : Exponent, e.sign = sign → e.digits = digits →
      e.mark :: (sign.text ++ (digits.text ++ rest)) = exponentText (some e) ++ rest := by
    rintro ⟨mark, hmark, _, _⟩ rfl rfl
    rw [exponentText, List.cons_append, List.append_assoc]
  unfold exponentMark at hs
  split at hs <;> cases hs
  · exact ⟨_, written ⟨'e', .inl rfl, sign, digits⟩ rfl rfl⟩
  · exact ⟨_, written ⟨'E', .inr rfl, sign, digits⟩ rfl rfl⟩

/-- What follows the digits before the point is a fraction, an exponent, both or neither. -/
theorem exists_of_readNumberTail_eq_ok {whole : List Char}
    (h : readNumberTail convert negative whole s = .ok (number, rest)) :
    ∃ (fraction : Option Digits) (exponent : Option Exponent),
      s = fractionText fraction ++ (exponentText exponent ++ rest) := by
  unfold readNumberTail at h
  split at h
  · next s =>
    dsimp only at h
    split at h
    · cases h
    · cases h
    · next hnil hcons =>
      have hne : s.takeWhile Char.isDigit ≠ [] := by
        intro hempty
        cases hs : s.dropWhile Char.isDigit with
        | nil => exact hnil hempty hs
        | cons c s' => exact hcons c s' hempty hs
      obtain ⟨exponent, hs⟩ : ∃ e : Option Exponent,
          s.dropWhile Char.isDigit = exponentText e ++ rest := by
        split at h
        · next s' hs => exact exists_of_exponentMark_eq_some hs h
        · exact ⟨none, eq_of_finish_eq_ok h⟩
      refine ⟨some ⟨s.takeWhile Char.isDigit, hne, fun c => List.mem_takeWhile_imp⟩, exponent, ?_⟩
      rw [← hs, fractionText, List.cons_append, List.takeWhile_append_dropWhile]
  · split at h
    · next s' hs =>
      obtain ⟨exponent, rfl⟩ := exists_of_exponentMark_eq_some hs h
      exact ⟨none, exponent, rfl⟩
    · rw [eq_of_integerNumber_eq_ok h]
      exact ⟨none, none, rfl⟩

theorem exists_of_readMagnitude_eq_ok (h : readMagnitude convert negative s = .ok (number, rest)) :
    ∃ (whole : List Char) (fraction : Option Digits) (exponent : Option Exponent), Leading whole ∧
      s = whole ++ (fractionText fraction ++ (exponentText exponent ++ rest)) := by
  cases s with
  | nil => cases h
  | cons c s =>
    unfold readMagnitude at h
    dsimp only at h
    by_cases hzero : c = '0'
    · rw [if_pos hzero] at h
      split_ifs at h
      obtain ⟨fraction, exponent, hs⟩ := exists_of_readNumberTail_eq_ok h
      exact ⟨['0'], fraction, exponent, leading_zero, by rw [hzero, hs]; rfl⟩
    · rw [if_neg hzero] at h
      have hc : c.isDigit = true := by
        by_contra hc
        rw [if_neg hc] at h
        cases h
      rw [if_pos hc, List.takeWhile_cons_of_pos hc, List.dropWhile_cons_of_pos hc] at h
      obtain ⟨fraction, exponent, hs⟩ := exists_of_readNumberTail_eq_ok h
      have hdigits : ∀ d ∈ c :: s.takeWhile Char.isDigit, d.isDigit = true :=
        List.forall_mem_cons.mpr ⟨hc, fun d => List.mem_takeWhile_imp⟩
      refine ⟨_, fraction, exponent, leading_cons hzero hdigits, ?_⟩
      rw [← hs, List.cons_append, List.takeWhile_append_dropWhile]

/-- What is read as a number is a numeral. -/
theorem exists_of_readNumber_eq_ok (h : readNumber convert s = .ok (number, rest)) :
    ∃ x : Numeral, s = x.text ++ rest := by
  unfold readNumber at h
  split at h
  · obtain ⟨whole, fraction, exponent, hwhole, hs⟩ := exists_of_readMagnitude_eq_ok h
    refine ⟨⟨true, whole, hwhole, fraction, exponent⟩, ?_⟩
    rw [hs, Numeral.text]
    simp only [signText, if_true, List.cons_append, List.nil_append, List.append_assoc]
  · obtain ⟨whole, fraction, exponent, hwhole, hs⟩ := exists_of_readMagnitude_eq_ok h
    refine ⟨⟨false, whole, hwhole, fraction, exponent⟩, ?_⟩
    rw [hs, Numeral.text]
    simp only [signText, Bool.false_eq_true, if_false, List.nil_append, List.append_assoc]

end Identicon.Json
