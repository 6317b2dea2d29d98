import Identicon.Proofs.Json.Grammar
import Identicon.Proofs.Json.Printed

/-!
# Strings in the grammar

The reader of strings and the grammar agree. From the front of any text a written string is read as
the characters it stands for, and refused if it stands for none, which is when a code unit is half a
surrogate pair. What the reader accepts is a written string.

Problems are told apart no further: `Except.toOption` forgets them, and the two halves of a reader
then are two steps of an `Option`.
-/

namespace Identicon.Json

variable {α β ε : Type} {s rest : List Char} {a b c d : Char} {n m : ℕ} {text : List Char}

/-! ## Results without their problems -/

theorem toOption_bind (x : Except ε α) (f : α → Except ε β) :
    (x >>= f).toOption = x.toOption.bind fun a => (f a).toOption := by
  cases x with
  | error | ok => rfl

theorem toOption_eq_some_iff {x : Except ε α} {a : α} : x.toOption = some a ↔ x = .ok a := by
  cases x with
  | error e => exact ⟨nofun, nofun⟩
  | ok a' => exact ⟨fun h => congrArg _ (Option.some.inj h), fun h => congrArg _ (Except.ok.inj h)⟩

/-- A step goes on with what the one before it has made and with the text behind that. -/
theorem toOption_bind_of_eq {x : Except ε (α × List Char)} {o : Option α}
    (h : x.toOption = o.map (·, rest)) (f : α × List Char → Except ε β) :
    (x >>= f).toOption = o.bind fun a => (f (a, rest)).toOption := by
  rw [toOption_bind, h, Option.bind_map]
  rfl

/-- What a step has made is handed on with the text behind it. -/
theorem toOption_map_of_eq {x : Except ε (α × List Char)} {o : Option α}
    (h : x.toOption = o.map (·, rest)) (f : α → β) :
    (do
      let (a, rest) ← x
      return (f a, rest) : Except ε (β × List Char)).toOption = (o.map f).map (·, rest) := by
  rw [toOption_bind_of_eq h]
  cases o with
  | none | some => rfl

/-! ## Code units -/

/-- Four digits are read whatever follows them. -/
theorem hexQuad_cons (h : hexQuad? [a, b, c, d] = some n) (s : List Char) :
    hexQuad (a :: b :: c :: d :: s) = .ok n := by
  have hquad : hexQuad? (a :: b :: c :: d :: s) = some n := h
  rw [hexQuad, hquad]

theorem exists_of_hexQuad_eq_ok (h : hexQuad s = .ok n) :
    ∃ a b c d rest, s = a :: b :: c :: d :: rest ∧ hexQuad? [a, b, c, d] = some n := by
  unfold hexQuad at h
  split at h
  · next hquad =>
    cases h
    unfold hexQuad? at hquad
    split at hquad
    · exact ⟨_, _, _, _, _, rfl, hquad⟩
    · cases hquad
  · split at h <;> cases h

theorem readUnitEscape_cons (h : hexQuad? [a, b, c, d] = some n) (s : List Char) :
    readUnitEscape (a :: b :: c :: d :: s) =
      if closesPair n then .error (.here .loneSurrogate s)
      else if opensPair n then do
        let m ← readSecondUnit s
        return (Char.ofNat (0x10000 + (n - 0xD800) * 0x400 + (m - 0xDC00)), 10)
      else .ok (Char.ofNat n, 4) := by
  simp only [readUnitEscape, hexQuad_cons h]
  rfl

theorem readEscape_codeUnit (h : hexQuad? [a, b, c, d] = some n) (s : List Char) :
    readEscape ('u' :: a :: b :: c :: d :: s) =
      if closesPair n then .error (.here .loneSurrogate s)
      else if opensPair n then do
        let m ← readSecondUnit s
        return (Char.ofNat (0x10000 + (n - 0xD800) * 0x400 + (m - 0xDC00)), 11)
      else .ok (Char.ofNat n, 5) := by
  simp only [readEscape, readUnitEscape_cons h]
  split_ifs with hcloses hopens
  · rfl
  · simp only [bind_assoc, pure_bind]
  · rfl

theorem readSecondUnit_codeUnit (h : hexQuad? [a, b, c, d] = some m) (s : List Char) :
    readSecondUnit ('\\' :: 'u' :: a :: b :: c :: d :: s) =
      if closesPair m then .ok m else .error (.here .loneSurrogate s) := by
  rw [readSecondUnit, hexQuad_cons h, ok_bind]
  rfl

/-- The second half of a pair is a code unit as well. -/
theorem exists_of_readSecondUnit_eq_ok (h : readSecondUnit s = .ok m) :
    ∃ a b c d rest, s = '\\' :: 'u' :: a :: b :: c :: d :: rest ∧
      hexQuad? [a, b, c, d] = some m := by
  unfold readSecondUnit at h
  split at h
  · cases h
  · split at h
    · cases h
    · obtain ⟨m', hread, h⟩ := exists_of_bind_eq_ok h
      obtain ⟨a, b, c, d, rest, rfl, hquad⟩ := exists_of_hexQuad_eq_ok hread
      split_ifs at h
      cases h
      exact ⟨a, b, c, d, rest, rfl, hquad⟩
    · cases h
  · cases h

/-! ## Reading what the grammar allows -/

/-- An escape that cannot be read is not passed. -/
theorem toOption_readStringAfter_of_error {f : Fault} (h : readEscape s = .error f) :
    (readStringAfter 0 ('\\' :: s)).toOption = none := by
  rw [readStringAfter, if_neg (by decide), if_pos rfl, h]
  rfl

/-- An escape in front of a string is one more character of it. -/
theorem toOption_readStringAfter_escape (escaped : List Char) {c : Char}
    {o : Option (List Char)} (h : readEscape (escaped ++ s) = .ok (c, escaped.length))
    (hs : (readStringAfter 0 s).toOption = o.map (·, rest)) :
    (readStringAfter 0 ('\\' :: (escaped ++ s))).toOption = (o.map (c :: ·)).map (·, rest) := by
  rw [readStringAfter_escape h]
  exact toOption_map_of_eq hs (c :: ·)

theorem readSecondUnit_quote (s : List Char) :
    readSecondUnit ('"' :: s) = .error (.next .brokenSurrogatePair ('"' :: s)) := by
  rw [readSecondUnit]
  · exact nofun
  · exact nofun

/-- Half a pair is refused where anything but the other half follows it. -/
theorem exists_readSecondUnit_eq_error (ps : List Piece) (rest : List Char)
    (h : ∀ a b c d m hm ps', ps = .codeUnit a b c d m hm :: ps' → closesPair m = false) :
    ∃ f, readSecondUnit (quotedRest ps ++ rest) = .error f := by
  cases ps with
  | nil => exact ⟨_, readSecondUnit_quote rest⟩
  | cons p ps =>
    cases p with
    | plain c hc =>
      refine ⟨.next .brokenSurrogatePair (quotedRest (.plain c hc :: ps) ++ rest), ?_⟩
      show readSecondUnit (c :: (quotedRest ps ++ rest)) = _
      unfold readSecondUnit
      split
      · next heq => cases heq
      · next heq => exact absurd (List.cons.inj heq).1 hc.2.2
      · rfl
    | letter l c hl =>
      refine ⟨.next .brokenSurrogatePair (l :: (quotedRest ps ++ rest)), ?_⟩
      show readSecondUnit ('\\' :: l :: (quotedRest ps ++ rest)) = _
      have hu : l ≠ 'u' := by
        rintro rfl
        cases hl
      unfold readSecondUnit
      simp only
      split
      · next heq => cases heq
      · next heq => exact absurd (List.cons.inj heq).1 hu
      · rfl
    | codeUnit a b c d m hm =>
      refine ⟨.here .loneSurrogate (quotedRest ps ++ rest), ?_⟩
      have hopen := readSecondUnit_codeUnit hm (quotedRest ps ++ rest)
      rw [if_neg (by rw [h a b c d m hm ps rfl]; exact Bool.false_ne_true)] at hopen
      exact hopen

/-- A written string is read as the characters it stands for. -/
theorem readString_quotedRest (ps : List Piece) (rest : List Char) :
    (readString (quotedRest ps ++ rest)).toOption = (decode ps).map (·, rest) := by
  unfold readString
  fun_induction decode ps with
  | case1 => rfl
  | case2 c h ps ih =>
    have hread := readStringAfter_plain (s := quotedRest ps ++ rest) (not_lt.mpr h.1) h.2.1 h.2.2
    show (readStringAfter 0 (c :: (quotedRest ps ++ rest))).toOption = _
    rw [hread]
    exact toOption_map_of_eq ih (c :: ·)
  | case3 l c h ps ih =>
    have hu : l ≠ 'u' := by
      rintro rfl
      cases h
    exact toOption_readStringAfter_escape [l] (readEscape_letter hu h) ih
  | case4 a b c d n h ps hcloses =>
    apply toOption_readStringAfter_of_error
    exact (readEscape_codeUnit h _).trans (if_pos hcloses)
  | case5 a b c d n h hcloses hopens a' b' c' d' m h' ps hsecond ih =>
    have hread := readEscape_codeUnit h
      ('\\' :: 'u' :: a' :: b' :: c' :: d' :: (quotedRest ps ++ rest))
    rw [if_neg hcloses, if_pos hopens, readSecondUnit_codeUnit h', if_pos hsecond, ok_bind] at hread
    exact toOption_readStringAfter_escape ['u', a, b, c, d, '\\', 'u', a', b', c', d'] hread ih
  | case6 a b c d n h hcloses hopens a' b' c' d' m h' ps hsecond =>
    obtain ⟨f, hf⟩ := exists_readSecondUnit_eq_error (.codeUnit a' b' c' d' m h' :: ps) rest <| by
      rintro a b c d m hm ps ⟨⟩
      exact Bool.eq_false_iff.mpr hsecond
    apply toOption_readStringAfter_of_error
    refine (readEscape_codeUnit h _).trans ?_
    rw [if_neg hcloses, if_pos hopens]
    exact congrArg (· >>= _) hf
  | case7 a b c d n h ps hcloses hopens hother =>
    obtain ⟨f, hf⟩ := exists_readSecondUnit_eq_error ps rest fun a b c d m hm ps heq =>
      (hother a b c d m hm ps heq).elim
    apply toOption_readStringAfter_of_error
    refine (readEscape_codeUnit h _).trans ?_
    rw [if_neg hcloses, if_pos hopens]
    exact congrArg (· >>= _) hf
  | case8 a b c d n h ps hcloses hopens ih =>
    have hread := readEscape_codeUnit h (quotedRest ps ++ rest)
    rw [if_neg hcloses, if_neg hopens] at hread
    exact toOption_readStringAfter_escape ['u', a, b, c, d] hread ih

/-- Whether a character may stand in a string as it is. -/
def isPlain (c : Char) : Bool :=
  0x20 ≤ c.toNat ∧ c ≠ '"' ∧ c ≠ '\\'

/-- A string none of whose characters is escaped. -/
def unescaped (text : List Char) (h : text.all isPlain = true) : List Piece :=
  text.pmap Piece.plain fun c hc => of_decide_eq_true (List.all_eq_true.mp h c hc)

/-! ## The grammar of what is read -/

/-- What is read as an escape is written by the grammar: a letter, a code unit, or two. -/
theorem exists_pieces_of_readEscape_eq_ok {x : Char} (h : readEscape s = .ok (x, n)) :
    ∃ (ps : List Piece) (escaped rest : List Char), s = escaped ++ rest ∧ escaped.length = n ∧
      ps.flatMap Piece.text = '\\' :: escaped := by
  unfold readEscape at h
  split at h
  · cases h
  · next s =>
    -- the digits are told first, as what is left to be read is seen only behind them
    obtain ⟨⟨y, k⟩, hunit, h⟩ := exists_of_bind_eq_ok h
    cases h
    obtain ⟨m, hquad, -⟩ := exists_of_bind_eq_ok hunit
    obtain ⟨a, b, c, d, s, rfl, hm⟩ := exists_of_hexQuad_eq_ok hquad
    rw [readUnitEscape_cons hm] at hunit
    split_ifs at hunit
    · obtain ⟨m', hsecond, hchar⟩ := exists_of_bind_eq_ok hunit
      obtain ⟨a', b', c', d', s, rfl, hm'⟩ := exists_of_readSecondUnit_eq_ok hsecond
      obtain rfl : 10 = k := (Prod.mk.inj (Except.ok.inj hchar)).2
      exact ⟨[.codeUnit a b c d m hm, .codeUnit a' b' c' d' m' hm'],
        ['u', a, b, c, d, '\\', 'u', a', b', c', d'], s, rfl, rfl, rfl⟩
    · cases hunit
      exact ⟨[.codeUnit a b c d m hm], ['u', a, b, c, d], s, rfl, rfl, rfl⟩
  · next l s _ =>
    split at h
    · next c hl =>
      cases h
      exact ⟨[.letter l x hl], [l], s, rfl, rfl, rfl⟩
    · cases h

/-- What is read as a string is written by the grammar. -/
theorem exists_of_readString_eq_ok (h : readString s = .ok (text, rest)) :
    ∃ ps : List Piece, s = quotedRest ps ++ rest := by
  unfold readString at h
  induction hlen : s.length using Nat.strong_induction_on generalizing s text with
  | _ length ih =>
    subst hlen
    cases s with
    | nil => cases h
    | cons c s =>
      unfold readStringAfter at h
      split_ifs at h with hquote hbackslash hcontrol
      · cases h
        exact ⟨[], by rw [hquote]; rfl⟩
      · obtain ⟨⟨x, n⟩, hread, h⟩ := exists_of_bind_eq_ok h
        obtain ⟨⟨text, rest⟩, htext, h⟩ := exists_of_bind_eq_ok h
        cases h
        obtain ⟨ps, escaped, s, rfl, rfl, hps⟩ := exists_pieces_of_readEscape_eq_ok hread
        rw [readStringAfter_pending] at htext
        have hshorter : s.length < (c :: (escaped ++ s)).length := by
          rw [List.length_cons, List.length_append]
          omega
        obtain ⟨qs, rfl⟩ := ih _ hshorter htext rfl
        refine ⟨ps ++ qs, ?_⟩
        show _ = (ps ++ qs).flatMap Piece.text ++ ['"'] ++ rest
        rw [List.flatMap_append, hps, hbackslash, quotedRest]
        simp only [List.cons_append, List.append_assoc]
      · obtain ⟨⟨text, rest⟩, htext, h⟩ := exists_of_bind_eq_ok h
        cases h
        obtain ⟨qs, rfl⟩ := ih _ (Nat.lt_succ_self s.length) htext rfl
        exact ⟨.plain c ⟨not_lt.mp hcontrol, hquote, hbackslash⟩ :: qs, rfl⟩

end Identicon.Json
