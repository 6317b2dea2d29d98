import Identicon.Proofs.Json.Numerals
import Identicon.Proofs.Json.Values

/-!
# Reading trees

What a reader makes of a text that the grammar allows is said on the tree: `ReadsAs read t o` says
that from the front of any text the tree `t` is read as `o`, whatever blanks are written in it and
before it, and refused if `o` is nothing. So the reader of values finds `Tree.value?`.

Arrays and objects are read part by part. If each part takes the state a step further, all of them
take it as far as the steps one after the other do, in `Option`: the first part that is refused
refuses the whole.

## Main statements

* `foldItems_slots`, `foldMembers_members`: arrays and objects part by part.
* `readsAs_readValue`: the reader of values.
* `toOption_document`: documents.
-/

namespace Identicon.Json

variable {α σ : Type} {t : Tree} {text s rest : List Char} {c : Char} {n : ℕ}

/-! ## Blanks -/

theorem skipBlanks_blanks (b : Blanks) (s : List Char) : skipBlanks (b.text ++ s) = skipBlanks s :=
  skipBlanks_append b.blank

/-- No blanks at all. -/
def Blanks.none : Blanks :=
  ⟨[], List.forall_mem_nil _⟩

/-- One blank. -/
def Blanks.space : Blanks :=
  ⟨[' '], List.forall_mem_singleton.mpr rfl⟩

/-- Blanks carry on no number. -/
theorem Blanks.stops (b : Blanks) (h : Stops s) : Stops (b.text ++ s) := by
  obtain ⟨blanks, hblanks⟩ := b
  cases blanks with
  | nil => exact h
  | cons c blanks =>
    have hc := hblanks c List.mem_cons_self
    simp only [isBlank, Bool.or_eq_true, beq_iff_eq] at hc
    rcases hc with ((rfl | rfl) | rfl) | rfl <;>
      exact stops_cons rfl (by decide) (by decide) (by decide)

theorem stops_bracket : Stops (']' :: s) := stops_cons rfl (by decide) (by decide) (by decide)

/-- The first character of a value is no blank and closes nothing. -/
theorem Tree.BeginsWith.ne (h : t.BeginsWith c) : isBlank c = false ∧ c ≠ ']' ∧ c ≠ '}' := by
  cases t with
  | null | string | array | object =>
    cases h
    decide
  | boolean b =>
    cases h
    cases b with
    | false | true => decide
  | number x =>
    rcases h with rfl | h
    · decide
    · refine ⟨isBlank_of_isDigit h, ?_, ?_⟩ <;> rintro rfl <;> cases h

theorem Tree.WrittenAs.exists_skipBlanks (h : t.WrittenAs text) (before : Blanks)
    (rest : List Char) :
    ∃ c s, text = c :: s ∧ t.BeginsWith c ∧
      skipBlanks (before.text ++ (text ++ rest)) = c :: (s ++ rest) := by
  obtain ⟨c, s, rfl, hc⟩ := h.exists_cons
  exact ⟨c, s, rfl, hc, (skipBlanks_blanks before _).trans (skipBlanks_cons hc.ne.1)⟩

/-! ## Parts -/

/-- From the front of any text a tree is read as `o`, or refused if that is nothing. -/
def ReadsAs (read : Reader α) (t : Tree) (o : Option α) : Prop :=
  ∀ text, t.WrittenAs text → ∀ (before : Blanks) (rest : List Char), Stops rest →
    (read (before.text ++ (text ++ rest))).toOption = o.map (·, rest)

/-- From the text after a key a tree is read as `o`, or refused if that is nothing. -/
def ReadsAfterKey (read : Reader α) (t : Tree) (o : Option α) : Prop :=
  ∀ text, t.WrittenAs text → ∀ (after before : Blanks) (rest : List Char), Stops rest →
    (read (after.text ++ ':' :: (before.text ++ (text ++ rest)))).toOption = o.map (·, rest)

theorem readColon_blanks (b : Blanks) (s : List Char) : readColon (b.text ++ ':' :: s) = .ok s := by
  rw [readColon, skipBlanks_blanks, skipBlanks_cons rfl]
  rfl

/-- What has been made of a tree is handed on with the text behind it. -/
theorem ReadsAs.map {β : Type} {read : Reader α} {o : Option α} (h : ReadsAs read t o)
    (f : α → β) :
    ReadsAs (fun s => do
      let (a, s) ← read s
      return (f a, s)) t (o.map f) := by
  intro text ht before rest hrest
  exact toOption_map_of_eq (h text ht before rest hrest) f

/-- A value is read where it begins. -/
theorem ReadsAs.start {read : Reader α} {o : Option α} (h : ReadsAs read t o)
    (ht : t.WrittenAs text) (hrest : Stops rest) :
    (read (text ++ rest)).toOption = o.map (·, rest) :=
  h text ht .none rest hrest

/-! ## Items -/

section Items

variable {item : σ → Reader σ} {step : σ → Tree → Option σ} {slots : List Slot} {limit : ℕ}

theorem nextItem_slot_first (inside : Blanks) {p : Slot} (hp : p.tree.WrittenAs p.text)
    (s : List Char) :
    nextItem true (inside.text ++ (p.padded ++ s)) = .ok (true, p.text ++ (p.after.text ++ s)) := by
  obtain ⟨c, text, heq, hc, hskip⟩ := hp.exists_skipBlanks p.before (p.after.text ++ s)
  rw [nextItem, skipBlanks_blanks, Slot.padded, List.append_assoc, List.append_assoc, hskip, heq]
  dsimp only
  rw [if_neg hc.ne.2.1]
  rfl

theorem nextItem_slot (blanks : Blanks) {p : Slot} (hp : p.tree.WrittenAs p.text) (s : List Char) :
    nextItem false (blanks.text ++ ',' :: (p.padded ++ s)) =
      .ok (true, p.text ++ (p.after.text ++ s)) := by
  obtain ⟨c, text, heq, hc, hskip⟩ := hp.exists_skipBlanks p.before (p.after.text ++ s)
  rw [nextItem, skipBlanks_blanks, skipBlanks_cons rfl]
  dsimp only
  rw [if_neg (by decide), if_neg Bool.false_ne_true, if_pos rfl, Slot.padded, List.append_assoc,
    List.append_assoc, hskip, heq]
  dsimp only
  rw [if_neg hc.ne.2.1]
  rfl

theorem nextItem_bracket (first : Bool) (blanks : Blanks) (s : List Char) :
    nextItem first (blanks.text ++ ']' :: s) = .ok (false, ']' :: s) := by
  rw [nextItem, skipBlanks_blanks, skipBlanks_cons rfl]
  rfl

theorem stops_items (items : List (List Char)) (s : List Char) :
    Stops (items.flatMap (',' :: ·) ++ ']' :: s) := by
  cases items with
  | nil => exact stops_bracket
  | cons => exact stops_comma

/-- The item that has been found takes the state a step further. -/
theorem foldItemsUpTo_step (h : ∀ state t, ReadsAs (item state) t (step state t)) {p : Slot}
    (hp : p.tree.WrittenAs p.text) {first : Bool} {s' : List Char}
    (hnext : nextItem first s = .ok (true, p.text ++ (p.after.text ++ s'))) (hs' : Stops s')
    (limit : ℕ) (state : σ) :
    (foldItemsUpTo item (limit + 1) state first s).toOption = (step state p.tree).bind fun state =>
      (foldItemsUpTo item limit state false (p.after.text ++ s')).toOption := by
  rw [foldItemsUpTo, hnext, ok_bind]
  dsimp only
  rw [if_pos rfl, toOption_bind_of_eq ((h state _).start hp (p.after.stops hs'))]

/-- Items after the first take the state on one after the other. -/
theorem foldItemsUpTo_slots (h : ∀ state t, ReadsAs (item state) t (step state t))
    (hslots : ∀ p ∈ slots, p.tree.WrittenAs p.text) (hlimit : slots.length < limit) (state : σ)
    (blanks : Blanks) (s : List Char) :
    (foldItemsUpTo item limit state false
        (blanks.text ++ ((slots.map Slot.padded).flatMap (',' :: ·) ++ ']' :: s))).toOption =
      ((slots.map Slot.tree).foldlM step state).map (·, ']' :: s) := by
  -- on the items: the blanks behind one item are those in front of the next comma
  induction slots generalizing limit state blanks with
  | nil =>
    obtain ⟨limit, rfl⟩ := Nat.exists_eq_succ_of_ne_zero (Nat.ne_of_gt hlimit)
    rw [foldItemsUpTo, List.map_nil, List.flatMap_nil, List.nil_append, nextItem_bracket, ok_bind]
    rfl
  | cons p slots ih =>
    obtain ⟨limit, rfl⟩ := Nat.exists_eq_succ_of_ne_zero (Nat.ne_zero_of_lt hlimit)
    obtain ⟨hp, hslots⟩ := List.forall_mem_cons.mp hslots
    rw [List.map_cons, List.flatMap_cons, List.append_assoc, List.cons_append,
      foldItemsUpTo_step h hp (nextItem_slot blanks hp _) (stops_items _ s), List.map_cons,
      List.foldlM_cons]
    cases step state p.tree with
    | none => rfl
    | some state => exact ih hslots (Nat.lt_of_succ_lt_succ hlimit) state p.after

theorem length_le_length_flatMap_comma (ss : List (List Char)) :
    ss.length ≤ (ss.flatMap (',' :: ·)).length := by
  induction ss with
  | nil => exact Nat.zero_le _
  | cons s ss ih =>
    rw [List.flatMap_cons, List.length_append, List.length_cons, List.length_cons]
    omega

/-- The rest of an array takes the state on, from an item after the first. -/
theorem foldItems_slots_rest (h : ∀ state t, ReadsAs (item state) t (step state t))
    (hslots : ∀ p ∈ slots, p.tree.WrittenAs p.text) (state : σ) (blanks : Blanks)
    (s : List Char) :
    (foldItems item state false
        (blanks.text ++ ((slots.map Slot.padded).flatMap (',' :: ·) ++ ']' :: s))).toOption =
      ((slots.map Slot.tree).foldlM step state).map (·, ']' :: s) := by
  refine foldItemsUpTo_slots h hslots ?_ state blanks s
  have := length_le_length_flatMap_comma (slots.map Slot.padded)
  rw [List.length_map] at this
  rw [List.length_append, List.length_append]
  omega

/-- The items of an array take the state on one after the other. -/
theorem foldItems_slots (h : ∀ state t, ReadsAs (item state) t (step state t))
    (hslots : ∀ p ∈ slots, p.tree.WrittenAs p.text) (state : σ) (inside : Blanks)
    (s : List Char) :
    (foldItems item state true
        (inside.text ++ (separated (slots.map Slot.padded) ++ ']' :: s))).toOption =
      ((slots.map Slot.tree).foldlM step state).map (·, ']' :: s) := by
  cases slots with
  | nil =>
    rw [foldItems, foldItemsUpTo, List.map_nil, separated, List.nil_append, nextItem_bracket,
      ok_bind]
    rfl
  | cons p slots =>
    obtain ⟨hp, hslots⟩ := List.forall_mem_cons.mp hslots
    have hlimit : slots.length <
        (inside.text ++ (separated ((p :: slots).map Slot.padded) ++ ']' :: s)).length := by
      have := length_le_length_flatMap_comma (slots.map Slot.padded)
      simp only [List.map_cons, separated, List.length_append, List.length_cons,
        List.length_map] at this ⊢
      omega
    rw [foldItems, List.map_cons, separated, List.append_assoc,
      foldItemsUpTo_step h hp (nextItem_slot_first inside hp _) (stops_items _ s), List.map_cons,
      List.foldlM_cons]
    cases step state p.tree with
    | none => rfl
    | some state =>
      rw [List.map_cons, separated, List.append_assoc] at hlimit
      exact foldItemsUpTo_slots h hslots hlimit state p.after s

end Items

/-! ## Members -/

/-- Takes the state on with the members of an object, whose keys have to stand for characters. -/
def foldEntries (step : σ → List Char → Tree → Option σ) (state : σ)
    (ms : List (List Piece × Tree)) : Option σ :=
  ms.foldlM (fun state m => do step state (← decode m.1) m.2) state

theorem foldEntries_cons (step : σ → List Char → Tree → Option σ) (state : σ)
    (m : List Piece × Tree) (ms : List (List Piece × Tree)) :
    foldEntries step state (m :: ms) = ((decode m.1).bind fun key => step state key m.2).bind
      fun state => foldEntries step state ms := rfl

section Members

variable {member : σ → List Char → Reader σ} {step : σ → List Char → Tree → Option σ}
  {members : List Member} {limit : ℕ}

/-- The text of a member from its first blank to the text after its key. -/
theorem skipBlanks_member (m : Member) (s : List Char) :
    skipBlanks (m.padded ++ s) = '"' :: (quotedRest m.key ++ (m.fromColon ++ s)) := by
  rw [Member.padded, List.append_assoc, skipBlanks_blanks, List.cons_append, skipBlanks_cons rfl,
    List.append_assoc]

/-- A key is read as the characters it stands for. -/
theorem toOption_readKey (ps : List Piece) (s : List Char) :
    (do
      let (k, s) ← readKey ('"' :: (quotedRest ps ++ s))
      return (some k, s) : Except Fault (Option (List Char) × List Char)).toOption =
      ((decode ps).map some).map (·, s) :=
  toOption_map_of_eq (readString_quotedRest ps s) some

theorem nextKey_member_first (inside : Blanks) (m : Member) (s : List Char) :
    (nextKey true (inside.text ++ (m.padded ++ s))).toOption =
      ((decode m.key).map some).map (·, m.fromColon ++ s) := by
  rw [nextKey, skipBlanks_blanks, skipBlanks_member]
  exact toOption_readKey m.key _

theorem nextKey_member (blanks : Blanks) (m : Member) (s : List Char) :
    (nextKey false (blanks.text ++ ',' :: (m.padded ++ s))).toOption =
      ((decode m.key).map some).map (·, m.fromColon ++ s) := by
  rw [nextKey, skipBlanks_blanks, skipBlanks_cons rfl]
  dsimp only
  rw [if_neg (by decide), if_neg Bool.false_ne_true, if_pos rfl, skipBlanks_member]
  exact toOption_readKey m.key _

theorem nextKey_brace (first : Bool) (blanks : Blanks) (s : List Char) :
    nextKey first (blanks.text ++ '}' :: s) = .ok (none, '}' :: s) := by
  rw [nextKey, skipBlanks_blanks, skipBlanks_cons rfl]
  rfl

theorem stops_members (members : List (List Char)) (s : List Char) :
    Stops (members.flatMap (',' :: ·) ++ '}' :: s) := by
  cases members with
  | nil => exact stops_brace
  | cons => exact stops_comma

/-- The member that has been found takes the state a step further. -/
theorem foldMembersUpTo_step
    (h : ∀ state key t, ReadsAfterKey (member state key) t (step state key t))
    {m : Member} (hm : m.slot.tree.WrittenAs m.slot.text) {first : Bool} {s' : List Char}
    (hnext : (nextKey first s).toOption = ((decode m.key).map some).map (·, m.fromColon ++ s'))
    (hs' : Stops s') (limit : ℕ) (state : σ) :
    (foldMembersUpTo member (limit + 1) state first s).toOption =
      ((decode m.entry.1).bind fun key => step state key m.entry.2).bind fun state =>
        (foldMembersUpTo member limit state false (m.slot.after.text ++ s')).toOption := by
  rw [foldMembersUpTo, toOption_bind_of_eq hnext, Member.entry]
  cases decode m.key with
  | none => rfl
  | some key =>
    have hread := h state key _ _ hm m.after m.slot.before (m.slot.after.text ++ s')
      (m.slot.after.stops hs')
    have htext : m.fromColon ++ s' = m.after.text ++ ':' :: (m.slot.before.text ++
        (m.slot.text ++ (m.slot.after.text ++ s'))) := by
      simp only [Member.fromColon, Slot.padded, List.append_assoc, List.cons_append]
    rw [← htext] at hread
    exact toOption_bind_of_eq hread _

/-- Members after the first take the state on one after the other. -/
theorem foldMembersUpTo_members
    (h : ∀ state key t, ReadsAfterKey (member state key) t (step state key t))
    (hmembers : ∀ m ∈ members, m.slot.tree.WrittenAs m.slot.text) (hlimit : members.length < limit)
    (state : σ) (blanks : Blanks) (s : List Char) :
    (foldMembersUpTo member limit state false
        (blanks.text ++ ((members.map Member.padded).flatMap (',' :: ·) ++ '}' :: s))).toOption =
      (foldEntries step state (members.map Member.entry)).map (·, '}' :: s) := by
  induction members generalizing limit state blanks with
  | nil =>
    obtain ⟨limit, rfl⟩ := Nat.exists_eq_succ_of_ne_zero (Nat.ne_of_gt hlimit)
    rw [foldMembersUpTo, List.map_nil, List.flatMap_nil, List.nil_append, nextKey_brace, ok_bind]
    rfl
  | cons m members ih =>
    obtain ⟨limit, rfl⟩ := Nat.exists_eq_succ_of_ne_zero (Nat.ne_zero_of_lt hlimit)
    obtain ⟨hm, hmembers⟩ := List.forall_mem_cons.mp hmembers
    rw [List.map_cons, List.flatMap_cons, List.append_assoc, List.cons_append,
      foldMembersUpTo_step h hm (nextKey_member blanks m _) (stops_members _ s), List.map_cons,
      foldEntries_cons]
    cases (decode m.entry.1).bind fun key => step state key m.entry.2 with
    | none => rfl
    | some state => exact ih hmembers (Nat.lt_of_succ_lt_succ hlimit) state m.slot.after

/-- The members of an object take the state on one after the other. -/
theorem foldMembers_members
    (h : ∀ state key t, ReadsAfterKey (member state key) t (step state key t))
    (hmembers : ∀ m ∈ members, m.slot.tree.WrittenAs m.slot.text) (state : σ) (inside : Blanks)
    (s : List Char) :
    (foldMembers member state true
        (inside.text ++ (separated (members.map Member.padded) ++ '}' :: s))).toOption =
      (foldEntries step state (members.map Member.entry)).map (·, '}' :: s) := by
  cases members with
  | nil =>
    rw [foldMembers, foldMembersUpTo, List.map_nil, separated, List.nil_append, nextKey_brace,
      ok_bind]
    rfl
  | cons m members =>
    obtain ⟨hm, hmembers⟩ := List.forall_mem_cons.mp hmembers
    rw [List.map_cons, separated, List.append_assoc]
    have hlimit : members.length < (inside.text ++
        (m.padded ++ ((members.map Member.padded).flatMap (',' :: ·) ++ '}' :: s))).length := by
      have := length_le_length_flatMap_comma (members.map Member.padded)
      simp only [List.length_append, List.length_cons, List.length_map] at this ⊢
      omega
    rw [foldMembers, foldMembersUpTo_step h hm (nextKey_member_first inside m _)
      (stops_members _ s), List.map_cons, foldEntries_cons]
    cases (decode m.entry.1).bind fun key => step state key m.entry.2 with
    | none => rfl
    | some state => exact foldMembersUpTo_members h hmembers hlimit state m.slot.after s

end Members

/-! ## Values -/

/-- Items that are added one after the other are the items of the array. -/
theorem foldlM_push_value? (n : ℕ) (ts : List Tree) (items : Array Value) :
    (ts.foldlM (fun items (t : Tree) => (t.value? n).map items.push) items).map Array.toList =
      (Tree.itemValues? n ts).map (items.toList ++ ·) := by
  induction ts generalizing items with
  | nil =>
    rw [Tree.itemValues?]
    exact congrArg some (List.append_nil _).symm
  | cons t ts ih =>
    rw [List.foldlM_cons, Tree.itemValues?]
    cases t.value? n with
    | none => rfl
    | some v =>
      refine (ih (items.push v)).trans ?_
      rw [Array.toList_push]
      cases Tree.itemValues? n ts with
      | none => rfl
      | some vs => exact congrArg some (List.append_assoc _ _ _)

/-- Members that are added one after the other are the members of the object. -/
theorem foldEntries_push_value? (n : ℕ) (ms : List (List Piece × Tree))
    (members : Array (List Char × Value)) :
    (foldEntries (fun members key t => (t.value? n).map fun v => members.push (key, v))
        members ms).map Array.toList =
      (Tree.memberValues? n ms).map (members.toList ++ ·) := by
  induction ms generalizing members with
  | nil =>
    rw [Tree.memberValues?]
    exact congrArg some (List.append_nil _).symm
  | cons m ms ih =>
    obtain ⟨ps, t⟩ := m
    rw [foldEntries_cons, Tree.memberValues?]
    cases decode ps with
    | none => rfl
    | some key =>
      cases t.value? n with
      | none => rfl
      | some v =>
        refine (ih (members.push (key, v))).trans ?_
        rw [Array.toList_push]
        cases Tree.memberValues? n ms with
        | none => rfl
        | some vs => exact congrArg some (List.append_assoc _ _ _)

theorem itemValues?_eq (n : ℕ) (ts : List Tree) : Tree.itemValues? n ts =
    (ts.foldlM (fun items (t : Tree) => (t.value? n).map items.push) #[]).map Array.toList := by
  rw [foldlM_push_value?]
  cases Tree.itemValues? n ts with
  | none | some => rfl

theorem memberValues?_eq (n : ℕ) (ms : List (List Piece × Tree)) : Tree.memberValues? n ms =
    (foldEntries (fun members key t => (t.value? n).map fun v => members.push (key, v))
      #[] ms).map Array.toList := by
  rw [foldEntries_push_value?]
  cases Tree.memberValues? n ms with
  | none | some => rfl

theorem readsAs_addItem {read : Reader Value} {o : Option Value} (h : ReadsAs read t o)
    (items : Array Value) : ReadsAs (addItem read items) t (o.map items.push) :=
  h.map items.push

theorem readsAfterKey_addMember {read : Reader Value} {o : Option Value} (h : ReadsAs read t o)
    (members : Array (List Char × Value)) (key : List Char) :
    ReadsAfterKey (addMember read members key) t (o.map fun v => members.push (key, v)) := by
  intro text ht after before rest hrest
  rw [addMember, readColon_blanks, ok_bind]
  exact toOption_map_of_eq (h text ht before rest hrest) fun v => members.push (key, v)

theorem readValue_quote (n : ℕ) (s : List Char) : readValue .scaled n ('"' :: s) = do
    let (text, rest) ← readString s
    return (.string text, rest) := by
  cases n with
  | zero | succ => rfl

theorem readValue_bracket (n : ℕ) (s : List Char) : readValue .scaled (n + 1) ('[' :: s) = do
    let (items, rest) ← foldItems (addItem (readValue .scaled n)) #[] true s
    return (.array items.toList, rest.drop 1) := rfl

theorem readValue_brace (n : ℕ) (s : List Char) : readValue .scaled (n + 1) ('{' :: s) = do
    let (members, rest) ← foldMembers (addMember (readValue .scaled n)) #[] true s
    return (.object members.toList, rest.drop 1) := rfl

/-- The items of an array are read as its values, and its brackets are passed. -/
theorem readValue_array (h : ∀ t, ReadsAs (readValue .scaled n) t (t.value? n)) {slots : List Slot}
    (hslots : ∀ p ∈ slots, p.tree.WrittenAs p.text) (inside : Blanks) (rest : List Char) :
    (readValue .scaled (n + 1)
        ('[' :: (inside.text ++ (separated (slots.map Slot.padded) ++ ']' :: rest)))).toOption =
      (Tree.value? (n + 1) (.array (slots.map Slot.tree))).map (·, rest) := by
  have hitems := foldItems_slots (fun items t => readsAs_addItem (h t) items) hslots #[] inside rest
  rw [readValue_bracket, toOption_bind_of_eq hitems, Tree.value?, itemValues?_eq]
  cases (slots.map Slot.tree).foldlM
      (fun items (t : Tree) => (t.value? n).map items.push) #[] with
  | none | some => rfl

/-- The members of an object are read with their values, and its braces are passed. -/
theorem readValue_object (h : ∀ t, ReadsAs (readValue .scaled n) t (t.value? n))
    {members : List Member} (hmembers : ∀ m ∈ members, m.slot.tree.WrittenAs m.slot.text) (inside : Blanks)
    (rest : List Char) :
    (readValue .scaled (n + 1)
        ('{' :: (inside.text ++ (separated (members.map Member.padded) ++ '}' :: rest)))).toOption =
      (Tree.value? (n + 1) (.object (members.map Member.entry))).map (·, rest) := by
  have hentries := foldMembers_members
    (fun members key t => readsAfterKey_addMember (h t) members key) hmembers #[] inside rest
  rw [readValue_brace, toOption_bind_of_eq hentries, Tree.value?, memberValues?_eq]
  cases foldEntries _ #[] (members.map Member.entry) with
  | none | some => rfl

/-- **Each tree is read as its value** by the reader that may open so many brackets. -/
theorem readsAs_readValue (n : ℕ) (t : Tree) : ReadsAs (readValue .scaled n) t (t.value? n) := by
  intro text ht before rest hrest
  rw [readValue_congr (skipBlanks_blanks before _)]
  cases ht with
  | null =>
    cases n with
    | zero | succ => rfl
  | boolean b =>
    cases b with
    | false | true =>
      cases n with
      | zero | succ => rfl
  | number x =>
    -- only a number needs a text behind it that does not carry it on
    obtain ⟨c, s, heq, hc⟩ := x.exists_text_eq_cons
    have hread := readNumber_text x hrest
    rw [heq] at hread ⊢
    rw [List.cons_append, readValue_eq_readNumber _ hc, Tree.value?]
    exact toOption_map_of_eq hread Value.number
  | string ps =>
    rw [List.cons_append, readValue_quote, Tree.value?]
    exact toOption_map_of_eq (readString_quotedRest ps rest) Value.string
  | array inside slots hslots =>
    rw [List.cons_append, List.append_assoc, List.append_assoc, List.singleton_append]
    cases n with
    | zero => rfl
    | succ n => exact readValue_array (readsAs_readValue n) hslots inside rest
  | object inside members hmembers =>
    rw [List.cons_append, List.append_assoc, List.append_assoc, List.singleton_append]
    cases n with
    | zero => rfl
    | succ n => exact readValue_object (readsAs_readValue n) hmembers inside rest

/-! ## Documents -/

/-- A document that holds a tree is read as the tree is. -/
theorem toOption_document {read : Reader α} {o : Option α} (h : ReadsAs read t o) {text : String}
    (ht : t.WrittenIn text.toList) : (document read text).toOption = o := by
  obtain ⟨before, after, s, hs, htext⟩ := ht
  have hread := h s hs before (after.text ++ []) (after.stops stops_nil)
  rw [List.append_nil, ← htext] at hread
  have hblanks : skipBlanks after.text = [] := by
    have hskip := skipBlanks_blanks after []
    rwa [List.append_nil] at hskip
  cases o with
  | none =>
    cases hresult : read text.toList with
    | error f =>
      rw [document, hresult]
      rfl
    | ok p =>
      rw [hresult] at hread
      cases hread
  | some a =>
    have hok : read text.toList = .ok (a, after.text) := toOption_eq_some_iff.mp hread
    rw [document, hok]
    dsimp only
    rw [hblanks]
    rfl

end Identicon.Json
