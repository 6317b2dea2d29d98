import Identicon.Json.Scalar
import Identicon.Proofs.Channels

/-!
# Reading what has been printed

A printed part of a document is read back from the front of any text, and what follows it is left:
strings whatever characters they hold, and the members of an object, one after the other, as far as
a reader of members accepts them or up to the first that it refuses. Printed text has no blanks, so
that each step finds what it looks for right where the last one ended.
-/

namespace Identicon.Json

variable {σ : Type} {s rest text : List Char}

theorem skipBlanks_cons {c : Char} (h : isBlank c = false) : skipBlanks (c :: s) = c :: s :=
  List.dropWhile_cons_of_neg (by rw [h]; exact Bool.false_ne_true)

/-! ## Strings -/

theorem hexDigit?_digitChar : ∀ d < 16, hexDigit? (Nat.digitChar d) = some d := by
  decide

/-- Two digits are enough for the code of a control character. -/
theorem hexQuad_digitChar {n : ℕ} (h : n < 0x20) :
    hexQuad ('0' :: '0' :: Nat.digitChar (n / 16) :: Nat.digitChar (n % 16) :: s) = .ok n := by
  have hquad : hexQuad? ('0' :: '0' :: Nat.digitChar (n / 16) :: Nat.digitChar (n % 16) :: s) =
      some n := by
    rw [hexQuad?, hexDigit?_digitChar _ (by omega), hexDigit?_digitChar _ (by omega)]
    show some (((0 * 16 + 0) * 256 + n / 16 * 16 + n % 16)) = some n
    congr 1
    omega
  rw [hexQuad, hquad]

theorem readEscape_letter {letter c : Char} (hu : letter ≠ 'u')
    (h : simpleEscape? letter = some c) : readEscape (letter :: s) = .ok (c, 1) := by
  unfold readEscape
  split
  · contradiction
  · next heq =>
    cases heq
    contradiction
  · next heq =>
    cases heq
    rw [h]

theorem readEscape_control {c : Char} (h : c.toNat < 0x20) :
    readEscape
        ('u' :: '0' :: '0' :: Nat.digitChar (c.toNat / 16) :: Nat.digitChar (c.toNat % 16) :: s) =
      .ok (c, 5) := by
  have hcloses : ¬ closesPair c.toNat = true := by
    rw [closesPair, Bool.and_eq_true, decide_eq_true_iff]
    omega
  have hopens : ¬ opensPair c.toNat = true := by
    rw [opensPair, Bool.and_eq_true, decide_eq_true_iff]
    omega
  simp only [readEscape, readUnitEscape, hexQuad_digitChar h]
  show (if closesPair c.toNat = true then _ else _ : Except Fault (Char × ℕ)) >>= _ = _
  rw [if_neg hcloses, if_neg hopens, Char.ofNat_toNat]
  rfl

/-- A character is printed as a letter after a backslash, by its code, or as it is. -/
theorem escapeChar_cases (c : Char) :
    (∃ letter, escapeChar c = ['\\', letter] ∧ letter ≠ 'u' ∧ simpleEscape? letter = some c) ∨
    (c.toNat < 0x20 ∧ escapeChar c =
      ['\\', 'u', '0', '0', Nat.digitChar (c.toNat / 16), Nat.digitChar (c.toNat % 16)]) ∨
    (¬ c.toNat < 0x20 ∧ c ≠ '"' ∧ c ≠ '\\' ∧ escapeChar c = [c]) := by
  unfold escapeChar
  split
  case h_8 hquote hbackslash _ _ _ _ _ =>
    split
    case isTrue hcontrol => exact .inr (.inl ⟨hcontrol, rfl⟩)
    case isFalse hcontrol => exact .inr (.inr ⟨hcontrol, hquote, hbackslash, rfl⟩)
  all_goals exact .inl ⟨_, rfl, by decide, rfl⟩

/-- The characters of an escape that has been read are passed. -/
theorem readStringAfter_pending (pending s : List Char) :
    readStringAfter pending.length (pending ++ s) = readStringAfter 0 s := by
  induction pending with
  | nil => rfl
  | cons c pending ih => exact ih

/-- An escape is read in front of `escaped`, the characters that belong to it. -/
theorem readStringAfter_escape {c : Char} {escaped : List Char}
    (h : readEscape (escaped ++ s) = .ok (c, escaped.length)) :
    readStringAfter 0 ('\\' :: (escaped ++ s)) = do
      let (text, rest) ← readStringAfter 0 s
      return (c :: text, rest) := by
  rw [readStringAfter, if_neg (by decide), if_pos rfl, h, ok_bind]
  dsimp only
  rw [readStringAfter_pending]

theorem readStringAfter_plain {c : Char} (hcontrol : ¬ c.toNat < 0x20) (hquote : c ≠ '"')
    (hbackslash : c ≠ '\\') : readStringAfter 0 (c :: s) = do
      let (text, rest) ← readStringAfter 0 s
      return (c :: text, rest) := by
  rw [readStringAfter, if_neg hquote, if_neg hbackslash, if_neg hcontrol]

/-- A printed character is read back as the first of its string. -/
theorem readStringAfter_escapeChar (c : Char) (h : readStringAfter 0 s = .ok (text, rest)) :
    readStringAfter 0 (escapeChar c ++ s) = .ok (c :: text, rest) := by
  rcases escapeChar_cases c with ⟨letter, heq, hu, hletter⟩ | ⟨hcontrol, heq⟩ |
      ⟨hcontrol, hquote, hbackslash, heq⟩
  · have hread : readEscape ([letter] ++ s) = .ok (c, 1) := readEscape_letter hu hletter
    rw [heq, List.cons_append, readStringAfter_escape hread, h]
    rfl
  · have hread : readEscape
        (['u', '0', '0', Nat.digitChar (c.toNat / 16), Nat.digitChar (c.toNat % 16)] ++ s) =
          .ok (c, 5) := readEscape_control hcontrol
    rw [heq, List.cons_append, readStringAfter_escape hread, h]
    rfl
  · rw [heq, List.singleton_append, readStringAfter_plain hcontrol hquote hbackslash, h]
    rfl

/-- What is left after a printed string is what followed it. -/
theorem readString_printed (text rest : List Char) :
    readString (text.flatMap escapeChar ++ '"' :: rest) = .ok (text, rest) := by
  induction text with
  | nil => rfl
  | cons c text ih =>
    rw [List.flatMap_cons, List.append_assoc]
    exact readStringAfter_escapeChar c ih

/-! ## Members -/

theorem readColon_cons : readColon (':' :: s) = .ok s := rfl

theorem readKey_printed (key s : List Char) : readKey (printString key ++ s) = .ok (key, s) := by
  rw [printString, List.append_assoc]
  exact readString_printed key s

theorem nextKey_first (key s : List Char) :
    nextKey true (printString key ++ s) = .ok (some key, s) := by
  show (readKey (printString key ++ s) >>= fun p => pure (some p.1, p.2)) = _
  rw [readKey_printed]
  rfl

theorem nextKey_next (key s : List Char) :
    nextKey false (',' :: printString key ++ s) = .ok (some key, s) := by
  show (readKey (printString key ++ s) >>= fun p => pure (some p.1, p.2)) = _
  rw [readKey_printed]
  rfl

theorem nextKey_close (first : Bool) : nextKey first ('}' :: s) = .ok (none, '}' :: s) := rfl

/-- A printed member: what comes before its key, its key, and its value. -/
theorem compactMembers_cons_append (m : List Char × Value) (ms : List (List Char × Value))
    (s : List Char) :
    Value.compactMembers (m :: ms) ++ s =
      ',' :: printString m.1 ++ (':' :: m.2.compact ++ (Value.compactMembers ms ++ s)) := by
  rw [Value.compactMembers, List.append_assoc, List.append_assoc]

theorem length_le_length_compactMembers (ms : List (List Char × Value)) :
    ms.length ≤ (Value.compactMembers ms).length := by
  induction ms with
  | nil => exact Nat.zero_le _
  | cons m ms ih =>
    rw [Value.compactMembers]
    simp only [List.length_cons, List.length_append]
    omega

theorem compactMembers_append (ms ms' : List (List Char × Value)) :
    Value.compactMembers (ms ++ ms') = Value.compactMembers ms ++ Value.compactMembers ms' := by
  induction ms with
  | nil =>
    rw [Value.compactMembers]
    rfl
  | cons m ms ih =>
    rw [compactMembers_cons_append, List.cons_append, Value.compactMembers, ih]
    simp only [List.append_assoc]

section Fold

variable {member : σ → List Char → Reader σ} {add : σ → List Char × Value → σ} {state state' : σ}
  {ms : List (List Char × Value)} {key value : List Char}

theorem foldMembersUpTo_close (limit : ℕ) (first : Bool) :
    foldMembersUpTo member (limit + 1) state first ('}' :: s) = .ok (state, '}' :: s) := by
  rw [foldMembersUpTo, nextKey_close]
  rfl

theorem foldMembersUpTo_next (limit : ℕ) :
    foldMembersUpTo member (limit + 1) state false (',' :: printString key ++ s) =
      member state key s >>= fun (state, s) => foldMembersUpTo member limit state false s := by
  rw [foldMembersUpTo, nextKey_next]
  rfl

theorem foldMembersUpTo_first (limit : ℕ) :
    foldMembersUpTo member (limit + 1) state true (printString key ++ s) =
      member state key s >>= fun (state, s) => foldMembersUpTo member limit state false s := by
  rw [foldMembersUpTo, nextKey_first]
  rfl

/-- Members that are accepted are passed, and are counted off the limit. -/
theorem foldMembersUpTo_compactMembers (limit : ℕ) (state : σ)
    (h : ∀ m ∈ ms, ∀ state s, member state m.1 (':' :: m.2.compact ++ s) = .ok (add state m, s)) :
    foldMembersUpTo member (limit + ms.length) state false (Value.compactMembers ms ++ s) =
      foldMembersUpTo member limit (ms.foldl add state) false s := by
  induction ms generalizing state with
  | nil => rw [Value.compactMembers]; rfl
  | cons m ms ih =>
    obtain ⟨hm, hms⟩ := List.forall_mem_cons.mp h
    rw [compactMembers_cons_append, List.length_cons, ← Nat.add_assoc, foldMembersUpTo_next, hm]
    exact ih _ hms

/-- The first member is read, and there is room for the others and one more. -/
theorem foldMembers_first (member : σ → List Char → Reader σ) (state : σ) (key value : List Char)
    (ms : List (List Char × Value)) (s : List Char) :
    ∃ limit, foldMembers member state true
        (printString key ++ ':' :: value ++ (Value.compactMembers ms ++ s)) =
      member state key (':' :: value ++ (Value.compactMembers ms ++ s)) >>= fun (state, s) =>
        foldMembersUpTo member (limit + 1 + ms.length) state false s := by
  set text := printString key ++ ':' :: value ++ (Value.compactMembers ms ++ s) with htext
  have hroom : ms.length + 1 ≤ text.length := by
    have hms := length_le_length_compactMembers ms
    simp only [htext, printString, List.length_append, List.length_cons]
    omega
  obtain ⟨limit, hlimit⟩ : ∃ limit, text.length = limit + 1 + ms.length :=
    ⟨text.length - (ms.length + 1), by omega⟩
  rw [List.append_assoc] at htext
  exact ⟨limit, by rw [foldMembers, hlimit, htext, foldMembersUpTo_first]⟩

/-- The first member and others after it are passed, and there is room for one more. -/
theorem foldMembers_printed
    (hfirst : ∀ s, member state key (':' :: value ++ s) = .ok (state', s))
    (h : ∀ m ∈ ms, ∀ state s, member state m.1 (':' :: m.2.compact ++ s) = .ok (add state m, s))
    (s : List Char) :
    ∃ limit, foldMembers member state true
        (printString key ++ ':' :: value ++ (Value.compactMembers ms ++ s)) =
      foldMembersUpTo member (limit + 1) (ms.foldl add state') false s := by
  obtain ⟨limit, hread⟩ := foldMembers_first member state key value ms s
  refine ⟨limit, ?_⟩
  rw [hread, hfirst]
  exact foldMembersUpTo_compactMembers _ _ h

/-- All members of a printed object are read if each of them is. -/
theorem foldMembers_eq_ok
    (hfirst : ∀ s, member state key (':' :: value ++ s) = .ok (state', s))
    (h : ∀ m ∈ ms, ∀ state s, member state m.1 (':' :: m.2.compact ++ s) = .ok (add state m, s))
    (s : List Char) :
    foldMembers member state true
        (printString key ++ ':' :: value ++ (Value.compactMembers ms ++ '}' :: s)) =
      .ok (ms.foldl add state', '}' :: s) := by
  obtain ⟨limit, hpass⟩ := foldMembers_printed hfirst h ('}' :: s)
  rw [hpass, foldMembersUpTo_close]

/-- The first member that is refused is the one that is told. -/
theorem foldMembers_eq_error {bad : List Char × Value} {after : List (List Char × Value)}
    {f : Fault} (hfirst : ∀ s, member state key (':' :: value ++ s) = .ok (state', s))
    (h : ∀ m ∈ ms, ∀ state s, member state m.1 (':' :: m.2.compact ++ s) = .ok (add state m, s))
    (hbad : ∀ state, member state bad.1
      (':' :: bad.2.compact ++ (Value.compactMembers after ++ s)) = .error f) :
    foldMembers member state true
        (printString key ++ ':' :: value ++ (Value.compactMembers (ms ++ bad :: after) ++ s)) =
      .error f := by
  have htext : Value.compactMembers (ms ++ bad :: after) ++ s =
      Value.compactMembers ms ++ (',' :: printString bad.1 ++
        (':' :: bad.2.compact ++ (Value.compactMembers after ++ s))) := by
    rw [compactMembers_append, List.append_assoc, compactMembers_cons_append]
  rw [htext]
  obtain ⟨limit, hpass⟩ := foldMembers_printed hfirst h
    (',' :: printString bad.1 ++ (':' :: bad.2.compact ++ (Value.compactMembers after ++ s)))
  rw [hpass, foldMembersUpTo_next, hbad]
  rfl

end Fold

/-! ## Values -/

/-- A string is no bracket, and is read at any depth. -/
theorem readValue_printString (convert : Conversion) (depth : ℕ) (text s : List Char) :
    readValue convert depth (printString text ++ s) = .ok (.string text, s) := by
  have hstring : (readString (text.flatMap escapeChar ++ ['"'] ++ s)) = .ok (text, s) := by
    rw [List.append_assoc]
    exact readString_printed text s
  cases depth with
  | zero | succ =>
    show (readString (text.flatMap escapeChar ++ ['"'] ++ s) >>= fun p =>
      pure (Value.string p.1, p.2)) = _
    rw [hstring]
    rfl

theorem addMember_eq_ok {readPart : Reader Value} {members : Array (List Char × Value)}
    {key value : List Char} {v : Value} (h : readPart (value ++ s) = .ok (v, rest)) :
    addMember readPart members key (':' :: value ++ s) = .ok (members.push (key, v), rest) := by
  rw [addMember, List.cons_append, readColon_cons, ok_bind, h]
  rfl

theorem addMember_eq_error {readPart : Reader Value} {members : Array (List Char × Value)}
    {key value : List Char} {f : Fault} (h : readPart (value ++ s) = .error f) :
    addMember readPart members key (':' :: value ++ s) = .error f := by
  rw [addMember, List.cons_append, readColon_cons, ok_bind, h]
  rfl

/-! ## Names and fields -/

theorem readName_printed {α : Type} {names : List (String × α)} {name : List Char} {a : α}
    (h : ofName names name = .ok a) (s : List Char) :
    readName names (printString name ++ s) = .ok (a, s) := by
  have hname := readString_printed name s
  rw [printString, readName, List.cons_append, List.cons_append, skipBlanks_cons (by decide)]
  dsimp only
  rw [if_pos rfl, List.append_assoc, List.singleton_append, hname, ok_bind]
  dsimp only
  rw [h]
  rfl

/-- A field is read where it occurs for the first time. -/
theorem readField_eq_ok {α : Type} {name : String} {read : Reader α} {value : List Char} {a : α}
    (h : read (value ++ s) = .ok (a, rest)) :
    readField name none read (':' :: value ++ s) = .ok (some a, rest) := by
  rw [readField, List.cons_append, readColon_cons, ok_bind, h]
  rfl

theorem readField_eq_error {α : Type} {name : String} {read : Reader α} {value : List Char}
    {f : Fault} (h : read (value ++ s) = .error f) :
    readField name none read (':' :: value ++ s) = .error f := by
  rw [readField, List.cons_append, readColon_cons, ok_bind, h]
  rfl

end Identicon.Json
