import Identicon.Proofs.Json.Trees

/-!
# Trees of one kind

What the readers of one kind of value make of a tree. They look at its first character, which tells
its kind, and refuse every other kind.
-/

namespace Identicon.Json

variable {α : Type} {t : Tree} {rest : List Char} {c : Char}

namespace Tree

/-- The number that a tree is. -/
def number? : Tree → Option Number
  | .number x => x.number?
  | _ => none

/-- The nonnegative integer below `bound` that a tree is. -/
def unsigned? (bound : ℕ) (t : Tree) : Option ℕ :=
  t.number?.bind fun
    | .integer n => if 0 ≤ n ∧ n < bound then some n.toNat else none
    | .real _ => none

/-- The truth value that a tree is. -/
def boolean? : Tree → Option Bool
  | .boolean b => some b
  | _ => none

/-- What `null` stands for where nothing is asked for. -/
def null? : Tree → Option Unit
  | .null => some ()
  | _ => none

/-- What the tree of a string stands for as one of `names`. -/
def name? (names : List (String × α)) : Tree → Option α
  | .string ps => (decode ps).bind fun name => (ofName names name).toOption
  | _ => none

/-- What a tree stands for as one of `names`, on its own or as the only key of an object. -/
def choice? (names : List (String × α)) : Tree → Option α
  | .object [(ps, .null)] => name? names (.string ps)
  | t => name? names t

/-- What a tree stands for where `null` stands for no value and `o` is what it stands for else. -/
def optional? (o : Option α) : Tree → Option (Option α)
  | .null => some none
  | _ => o.map some

end Tree

/-- A number begins with no character but a minus and a digit. -/
theorem Numeral.exists_text_eq_cons_ne (x : Numeral) : ∃ c s, x.text = c :: s ∧ isBlank c = false ∧
    ∀ d, d ≠ '-' → d.isDigit = false → c ≠ d := by
  obtain ⟨c, s, heq, hc⟩ := x.exists_text_eq_cons
  refine ⟨c, s, heq, (Tree.BeginsWith.ne (t := .number x) hc).1, ?_⟩
  rintro d hminus hdigit rfl
  rcases hc with hc | hc
  · exact hminus hc
  · rw [hdigit] at hc
    cases hc

/-- A number is handed on if it is accepted. -/
theorem readsAs_readNumberAs (expected : String) (accept : Number → Except Mismatch α) (t : Tree) :
    ReadsAs (readNumberAs expected accept) t (t.number?.bind fun x => (accept x).toOption) := by
  intro text ht before rest hrest
  rw [readNumberAs, skipBlanks_blanks]
  cases ht with
  | number x =>
    obtain ⟨c, s, heq, hc⟩ := x.exists_text_eq_cons
    have hblank : isBlank c = false := (Tree.BeginsWith.ne (t := .number x) hc).1
    have hread := readNumber_text x hrest
    rw [heq] at hread ⊢
    rw [List.cons_append] at hread ⊢
    rw [skipBlanks_cons hblank]
    dsimp only
    rw [if_pos hc, toOption_bind_of_eq hread, Tree.number?]
    cases x.number? with
    | none => rfl
    | some number =>
      dsimp only [Option.bind_some]
      cases accept number with
      | error | ok => rfl
  | boolean b =>
    cases b with
    | false | true => rfl
  | null | string | array | object => rfl

theorem readsAs_readUnsigned (expected : String) (bound : ℕ) (t : Tree) :
    ReadsAs (readUnsigned expected bound) t (t.unsigned? bound) := by
  have haccept : t.unsigned? bound = t.number?.bind fun x =>
      (match x with
        | .integer n =>
          if 0 ≤ n ∧ n < bound then .ok n.toNat
          else .error (.wrongValue (.number (.integer n)) expected)
        | .real z => .error (.wrongType (.number (.real z)) expected) :
          Except Mismatch ℕ).toOption := by
    rw [Tree.unsigned?]
    cases t.number? with
    | none => rfl
    | some x =>
      cases x with
      | real => rfl
      | integer n =>
        dsimp only [Option.bind_some]
        split_ifs <;> rfl
  rw [haccept]
  exact readsAs_readNumberAs expected _ t

/-- A number is the integer that its digits denote. -/
theorem unsigned?_eq_some {n bound : ℕ} {x : Numeral} (hx : x.text = Decimal.digitsOf n)
    (hn : n < bound) (hbound : bound ≤ 2 ^ 64) : (Tree.number x).unsigned? bound = some n := by
  have hprint : printInteger n = Decimal.digitsOf n := if_neg (by omega)
  have hread : readNumber .scaled (printInteger n ++ []) = .ok (.integer n, []) :=
    readNumber_printInteger stops_nil (by omega) (by omega)
  rw [List.append_nil, hprint, ← hx] at hread
  have hnumber : (Tree.number x).number? = some (.integer n) := by
    rw [Tree.number?, Numeral.number?, hread]
    rfl
  rw [Tree.unsigned?, hnumber]
  dsimp only [Option.bind_some]
  rw [if_pos ⟨by omega, by omega⟩, Int.toNat_natCast]

theorem readsAs_readBoolean (t : Tree) : ReadsAs readBoolean t t.boolean? := by
  intro text ht before rest _
  rw [readBoolean, skipBlanks_blanks]
  cases ht with
  | number x =>
    obtain ⟨c, s, heq, hblank, hne⟩ := x.exists_text_eq_cons_ne
    rw [heq, List.cons_append, skipBlanks_cons hblank]
    dsimp only
    rw [if_neg (hne 't' (by decide) rfl), if_neg (hne 'f' (by decide) rfl)]
    rfl
  | boolean b =>
    cases b with
    | false | true => rfl
  | null | string | array | object => rfl

theorem readsAs_readNull (t : Tree) : ReadsAs readNull t t.null? := by
  intro text ht before rest _
  rw [readNull, skipBlanks_blanks]
  cases ht with
  | number x =>
    obtain ⟨c, s, heq, hblank, hne⟩ := x.exists_text_eq_cons_ne
    rw [heq, List.cons_append, skipBlanks_cons hblank]
    dsimp only
    rw [if_neg (hne 'n' (by decide) rfl)]
    rfl
  | boolean b =>
    cases b with
    | false | true => rfl
  | null | string | array | object => rfl

/-- A name is read from its opening quote on. -/
theorem toOption_readName (names : List (String × α)) (ps : List Piece) (rest : List Char) :
    (readName names ('"' :: (quotedRest ps ++ rest))).toOption =
      (Tree.name? names (.string ps)).map (·, rest) := by
  rw [readName, skipBlanks_cons rfl]
  dsimp only
  rw [if_pos rfl, toOption_bind_of_eq (readString_quotedRest ps rest), Tree.name?]
  cases decode ps with
  | none => rfl
  | some name =>
    dsimp only [Option.bind_some]
    cases ofName names name with
    | error | ok => rfl

theorem readName_congr (names : List (String × α)) {s s' : List Char}
    (h : skipBlanks s = skipBlanks s') : readName names s = readName names s' := by
  rw [readName, readName, h]

theorem readChoice_congr (names : List (String × α)) {s s' : List Char}
    (h : skipBlanks s = skipBlanks s') : readChoice names s = readChoice names s' := by
  rw [readChoice, readChoice, h]

theorem readsAs_readName (names : List (String × α)) (t : Tree) :
    ReadsAs (readName names) t (t.name? names) := by
  intro text ht before rest _
  rw [readName_congr names (skipBlanks_blanks before _)]
  cases ht with
  | string ps => exact toOption_readName names ps rest
  | number x =>
    obtain ⟨c, s, heq, hblank, hne⟩ := x.exists_text_eq_cons_ne
    rw [readName, heq, List.cons_append, skipBlanks_cons hblank]
    dsimp only
    rw [if_neg (hne '"' (by decide) rfl)]
    rfl
  | boolean b =>
    cases b with
    | false | true => rfl
  | null | array | object => rfl

/-- An object is a choice if its first member is one and there is no other. -/
theorem choice?_object_cons (names : List (String × α)) (ps : List Piece) (t : Tree)
    (ms : List (List Piece × Tree)) :
    Tree.choice? names (.object ((ps, t) :: ms)) = (Tree.name? names (.string ps)).bind fun a =>
      t.null?.bind fun _ => if ms.isEmpty then some a else none := by
  have hrefused : ∀ o : Option α, (o.bind fun _ => none) = (none : Option α) := by
    intro o
    cases o with
    | none | some => rfl
  cases t with
  | null =>
    cases ms with
    | nil => exact (Option.bind_fun_some _).symm
    | cons => exact (hrefused _).symm
  | boolean | number | string | array | object => exact (hrefused _).symm

theorem readChoice_brace (names : List (String × α)) (s : List Char) :
    readChoice names ('{' :: s) = (do
      let (a, rest) ← readName names s
      let ((), rest) ← readNull (← readColon rest)
      match skipBlanks rest with
      | [] => throw (.here .endInObject [])
      | c :: rest =>
        if c = '}' then return (a, rest) else throw (.here .expectedValue (c :: rest))) := rfl

/-- The rest of a choice that is written as an object: the name, and `null` for what it holds. -/
theorem toOption_readChoice_object (names : List (String × α)) {members : List Member}
    (hmembers : ∀ m ∈ members, m.slot.tree.WrittenAs m.slot.text) (inside : Blanks)
    (rest : List Char) :
    (readChoice names
        ('{' :: (inside.text ++ (separated (members.map Member.padded) ++ '}' :: rest)))).toOption =
      (Tree.choice? names (.object (members.map Member.entry))).map (·, rest) := by
  rw [readChoice_brace]
  cases members with
  | nil =>
    rw [readName, List.map_nil, separated, List.nil_append, skipBlanks_blanks]
    rfl
  | cons m members =>
    have hm := hmembers m List.mem_cons_self
    set others := (members.map Member.padded).flatMap (',' :: ·) ++ '}' :: rest with hothers
    -- the name may have blanks in front of it, which its own reader skips
    have hkey : readName names (inside.text ++ (separated ((m :: members).map Member.padded) ++
        '}' :: rest)) = readName names ('"' :: (quotedRest m.key ++ (m.fromColon ++ others))) := by
      apply readName_congr
      rw [skipBlanks_blanks, List.map_cons, separated, List.append_assoc, skipBlanks_member,
        skipBlanks_cons rfl]
    have hnull := readsAs_readNull m.slot.tree m.slot.text hm m.slot.before
      (m.slot.after.text ++ others) (m.slot.after.stops (stops_members _ rest))
    have hcolon : readColon (m.fromColon ++ others) =
        .ok (m.slot.before.text ++ (m.slot.text ++ (m.slot.after.text ++ others))) := by
      simp only [Member.fromColon, Slot.padded, List.append_assoc, List.cons_append,
        readColon_blanks]
    rw [hkey, toOption_bind_of_eq (toOption_readName names m.key _), List.map_cons, Member.entry,
      choice?_object_cons]
    cases Tree.name? names (.string m.key) with
    | none => rfl
    | some a =>
      dsimp only [Option.bind_some]
      rw [hcolon, ok_bind, toOption_bind_of_eq hnull]
      cases m.slot.tree.null? with
      | none => rfl
      | some _ =>
        dsimp only [Option.bind_some]
        rw [skipBlanks_blanks, hothers]
        cases members with
        | nil | cons => rfl

/-- A name is read on its own, or as the only key of an object that holds nothing. -/
theorem readsAs_readChoice (names : List (String × α)) (t : Tree) :
    ReadsAs (readChoice names) t (t.choice? names) := by
  intro text ht before rest hrest
  rw [readChoice_congr names (skipBlanks_blanks before _)]
  cases ht with
  | string ps => exact toOption_readName names ps rest
  | number x =>
    obtain ⟨c, s, heq, hblank, hne⟩ := x.exists_text_eq_cons_ne
    rw [readChoice, heq, List.cons_append, skipBlanks_cons hblank]
    dsimp only
    rw [if_neg (hne '"' (by decide) rfl), if_neg (hne '{' (by decide) rfl)]
    rfl
  | boolean b =>
    cases b with
    | false | true => rfl
  | null | array => rfl
  | object inside members hmembers =>
    rw [List.cons_append, List.append_assoc, List.append_assoc, List.singleton_append]
    exact toOption_readChoice_object names hmembers inside rest

theorem Tree.BeginsWith.eq_null (h : t.BeginsWith 'n') : t = .null := by
  cases t with
  | null => rfl
  | boolean b => cases b <;> exact absurd (Char.toNat_inj.mpr h) (by decide)
  | number x =>
    have hdigit : ¬ ('n' = '-' ∨ 'n'.isDigit = true) := by decide
    exact absurd h hdigit
  | string | array | object => exact absurd (Char.toNat_inj.mpr h) (by decide)

/-- `null` is read as no value, and anything else as it is read without that choice. -/
theorem readsAs_readOptional {read : Reader α} {o : Option α} (h : ReadsAs read t o) :
    ReadsAs (readOptional read) t (t.optional? o) := by
  intro text ht before rest hrest
  have hvalue : t ≠ .null → t.optional? o = o.map some := by
    intro hnull
    cases t with
    | null => exact absurd rfl hnull
    | boolean | number | string | array | object => rfl
  by_cases hnull : t = .null
  · subst hnull
    cases ht
    rw [readOptional, skipBlanks_blanks]
    rfl
  · obtain ⟨c, s, heq, hc, hskip⟩ := ht.exists_skipBlanks before rest
    -- no tree but `null` begins with its first letter
    have hn : c ≠ 'n' := by
      rintro rfl
      exact hnull hc.eq_null
    have hread := toOption_map_of_eq (h.start ht hrest) some
    rw [heq, List.cons_append] at hread
    rw [readOptional, hskip, hvalue hnull, ← hread]
    split
    · next heq' => exact absurd (List.cons.inj heq').1 hn
    · rfl

/-! ## Fields -/

/-- The value for a field, if it has not been read before. -/
def once (seen o : Option α) : Option (Option α) :=
  if seen.isNone then o.map some else none

theorem once_eq_some {seen : Option α} {a : α} (h : seen.isSome = false) :
    once seen (some a) = some (some a) := by
  rw [Option.isSome_eq_false_iff] at h
  exact if_pos h

theorem exists_of_once_eq_some {seen o a : Option α} (h : once seen o = some a) :
    seen.isSome = false ∧ ∃ b, o = some b ∧ a = some b := by
  unfold once at h
  split_ifs at h with hnone
  obtain ⟨b, ho, rfl⟩ := Option.map_eq_some_iff.mp h
  exact ⟨Option.isSome_eq_false_iff.mpr hnone, b, ho, rfl⟩

/-- A field that has not been read before is read from the text after its key. -/
theorem readsAfterKey_readField {read : Reader α} {o : Option α} (h : ReadsAs read t o)
    (name : String) (seen : Option α) :
    ReadsAfterKey (readField name seen read) t (once seen o) := by
  intro text ht after before rest hrest
  cases seen with
  | some a => rfl
  | none =>
    rw [readField, readColon_blanks, ok_bind]
    exact toOption_map_of_eq (h text ht before rest hrest) some

/-! ## Items and records -/

/-- The first item of an array is read if there is one. -/
theorem readItem?_slot {read : Reader α} {o : Option α} {p : Slot} (h : ReadsAs read p.tree o)
    (hp : p.tree.WrittenAs p.text) (inside : Blanks) {s : List Char} (hs : Stops s) :
    (readItem? read true (inside.text ++ (p.padded ++ s))).toOption =
      (o.map some).map (·, p.after.text ++ s) := by
  rw [readItem?, nextItem_slot_first inside hp, ok_bind]
  exact toOption_map_of_eq (h.start hp (p.after.stops hs)) some

section Records

variable {ofArray ofObject : Reader α} {o : Option α} {expected : String}

theorem readRecord_brace (expected : String) (ofArray ofObject : Reader α) (s : List Char) :
    readRecord expected ofArray ofObject ('{' :: s) = do
      let (a, rest) ← ofObject s
      return (a, rest.drop 1) := rfl

theorem readRecord_bracket (expected : String) (ofArray ofObject : Reader α) (s : List Char) :
    readRecord expected ofArray ofObject ('[' :: s) = do
      let (a, rest) ← ofArray s
      return (a, ← closeArray rest) := rfl

/-- An object is read as a record from its first member up to its closing brace. -/
theorem readsAs_readRecord_object {ms : List (List Piece × Tree)}
    (h : ∀ members : List Member, members.map Member.entry = ms →
      (∀ m ∈ members, m.slot.tree.WrittenAs m.slot.text) → ∀ (inside : Blanks) (s : List Char),
      (ofObject (inside.text ++ (separated (members.map Member.padded) ++ '}' :: s))).toOption =
        o.map (·, '}' :: s)) :
    ReadsAs (readRecord expected ofArray ofObject) (.object ms) o := by
  intro text ht before rest _
  rw [readRecord, skipBlanks_blanks]
  cases ht with
  | object inside members hmembers =>
    rw [List.cons_append, List.append_assoc, List.append_assoc, List.singleton_append]
    refine (congrArg Except.toOption (readRecord_brace expected ofArray ofObject _)).trans ?_
    rw [toOption_bind_of_eq (h members rfl hmembers inside rest)]
    cases o with
    | none | some => rfl

/-- An array is read as a record from its first item up to its closing bracket. -/
theorem readsAs_readRecord_array {ts : List Tree}
    (h : ∀ slots : List Slot, slots.map Slot.tree = ts →
      (∀ p ∈ slots, p.tree.WrittenAs p.text) → ∀ (inside : Blanks) (s : List Char),
      (ofArray (inside.text ++ (separated (slots.map Slot.padded) ++ ']' :: s))).toOption =
        o.map (·, ']' :: s)) :
    ReadsAs (readRecord expected ofArray ofObject) (.array ts) o := by
  intro text ht before rest _
  rw [readRecord, skipBlanks_blanks]
  cases ht with
  | array inside slots hslots =>
    rw [List.cons_append, List.append_assoc, List.append_assoc, List.singleton_append]
    refine (congrArg Except.toOption (readRecord_bracket expected ofArray ofObject _)).trans ?_
    rw [toOption_bind_of_eq (h slots rfl hslots inside rest)]
    cases o with
    | none | some => rfl

/-- What is neither an object nor an array is no record. -/
theorem readsAs_readRecord_none (hobject : ∀ ms, t ≠ .object ms) (harray : ∀ ts, t ≠ .array ts) :
    ReadsAs (readRecord expected ofArray ofObject) t none := by
  intro text ht before rest _
  rw [readRecord, skipBlanks_blanks]
  cases ht with
  | number x =>
    obtain ⟨c, s, heq, hblank, hne⟩ := x.exists_text_eq_cons_ne
    rw [heq, List.cons_append, skipBlanks_cons hblank]
    dsimp only
    rw [if_neg (hne '[' (by decide) rfl), if_neg (hne '{' (by decide) rfl)]
    rfl
  | boolean b =>
    cases b with
    | false | true => rfl
  | null | string => rfl
  | array => exact absurd rfl (harray _)
  | object => exact absurd rfl (hobject _)

end Records

end Identicon.Json
