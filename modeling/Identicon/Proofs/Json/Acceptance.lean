import Identicon.Proofs.Json.Trees

/-!
# The grammar of what is read

A reader accepts nothing but what the grammar allows: the text that it passes is some tree with
blanks before it. Arrays and objects are put together from their parts, where the blanks that the
reader skips in front of a comma or a closing bracket belong to the part before.
-/

namespace Identicon.Json

variable {α σ : Type} {s s' rest : List Char} {n limit : ℕ}

/-! ## Blanks and words -/

/-- The blanks that are skipped. -/
theorem exists_blanks (s : List Char) : ∃ b : Blanks, s = b.text ++ skipBlanks s :=
  ⟨⟨s.takeWhile isBlank, fun _ => List.mem_takeWhile_imp⟩, List.takeWhile_append_dropWhile.symm⟩

/-- Blanks on both sides of no text are blanks. -/
def Blanks.append (b b' : Blanks) : Blanks :=
  ⟨b.text ++ b'.text, fun c hc => (List.mem_append.mp hc).elim (b.blank c) (b'.blank c)⟩

theorem eq_append_of_readWord {word : List Char} (h : readWord word s = .ok rest) :
    s = word ++ rest := by
  fun_induction readWord word s with
  | case1 s => exact Except.ok.inj h
  | case2 => cases h
  | case3 w ws s ih => rw [ih h, List.cons_append]
  | case4 => cases h

theorem exists_of_readColon_eq_ok (h : readColon s = .ok rest) :
    ∃ after : Blanks, s = after.text ++ ':' :: rest := by
  obtain ⟨b, hs⟩ := exists_blanks s
  refine ⟨b, ?_⟩
  unfold readColon at h
  split at h
  · cases h
  · next c s' hskip =>
    rw [hskip] at hs
    split_ifs at h with hc
    cases h
    rw [hs, hc]

/-! ## Parts -/

/-- A reader passes nothing but trees with blanks before them. -/
def Accepts (read : Reader α) : Prop :=
  ∀ s a rest, read s = .ok (a, rest) → ∃ (before : Blanks) (text : List Char) (t : Tree),
    s = before.text ++ (text ++ rest) ∧ t.WrittenAs text

/-- A reader passes nothing but colons and trees, with blanks before them. -/
def AcceptsAfterKey (read : Reader α) : Prop :=
  ∀ s a rest, read s = .ok (a, rest) → ∃ (after before : Blanks) (text : List Char) (t : Tree),
    s = after.text ++ ':' :: (before.text ++ (text ++ rest)) ∧ t.WrittenAs text

/-- What is done with a value that has been read does not matter. -/
theorem Accepts.map {β : Type} {read : Reader α} (h : Accepts read) (f : α → β) :
    Accepts fun s => do
      let (a, s) ← read s
      return (f a, s) := by
  intro s b rest hread
  obtain ⟨⟨a, s'⟩, ha, hb⟩ := exists_of_bind_eq_ok hread
  cases hb
  exact h s a rest ha

theorem Accepts.afterKey {β : Type} {read : Reader α} (h : Accepts read) (f : α → β) :
    AcceptsAfterKey fun s => do
      let (a, s) ← read (← readColon s)
      return (f a, s) := by
  intro s b rest hread
  obtain ⟨s', hcolon, hread⟩ := exists_of_bind_eq_ok hread
  obtain ⟨⟨a, s''⟩, ha, hb⟩ := exists_of_bind_eq_ok hread
  cases hb
  obtain ⟨after, rfl⟩ := exists_of_readColon_eq_ok hcolon
  obtain ⟨before, text, t, rfl, ht⟩ := h s' a rest ha
  exact ⟨after, before, text, t, rfl, ht⟩

/-! ## Items -/

section Items

variable {item : σ → Reader σ} {state state' : σ}

theorem exists_of_nextItem_first (h : nextItem true s = .ok (true, rest)) :
    ∃ inside : Blanks, s = inside.text ++ rest := by
  obtain ⟨b, hs⟩ := exists_blanks s
  refine ⟨b, ?_⟩
  unfold nextItem at h
  split at h
  · cases h
  · next c s' hskip =>
    rw [hskip] at hs
    by_cases hbracket : c = ']'
    · rw [if_pos hbracket] at h
      cases h
    · rw [if_neg hbracket, if_pos rfl] at h
      cases h
      exact hs

theorem exists_of_nextItem_next (h : nextItem false s = .ok (true, rest)) :
    ∃ blanks before : Blanks, s = blanks.text ++ ',' :: (before.text ++ rest) := by
  obtain ⟨b, hs⟩ := exists_blanks s
  unfold nextItem at h
  split at h
  · cases h
  · next c s' hskip =>
    rw [hskip] at hs
    obtain ⟨b', hs'⟩ := exists_blanks s'
    by_cases hbracket : c = ']'
    · rw [if_pos hbracket] at h
      cases h
    rw [if_neg hbracket, if_neg Bool.false_ne_true] at h
    by_cases hcomma : c = ','
    · rw [if_pos hcomma] at h
      split at h
      · cases h
      · next d s'' hskip' =>
        rw [hskip'] at hs'
        split_ifs at h
        cases h
        exact ⟨b, b', by rw [hs, hcomma, ← hs']⟩
    · rw [if_neg hcomma] at h
      cases h

theorem exists_of_nextItem_end {first : Bool} (h : nextItem first s = .ok (false, rest)) :
    ∃ (blanks : Blanks) (s' : List Char), s = blanks.text ++ rest ∧ rest = ']' :: s' := by
  obtain ⟨b, hs⟩ := exists_blanks s
  unfold nextItem at h
  split at h
  · cases h
  · next c s' hskip =>
    rw [hskip] at hs
    split_ifs at h with hbracket hfirst hcomma
    · cases h
      exact ⟨b, s', hs, by rw [hbracket]⟩
    · cases h
    · split at h
      · cases h
      · split_ifs at h
        cases h

/-- The rest of an array has been passed as items after the first. -/
theorem exists_of_foldItemsUpTo_eq_ok (hitem : ∀ state, Accepts (item state))
    (h : foldItemsUpTo item limit state false s = .ok (state', rest)) :
    ∃ (blanks : Blanks) (slots : List Slot) (s' : List Char), rest = ']' :: s' ∧
      s = blanks.text ++ ((slots.map Slot.padded).flatMap (',' :: ·) ++ rest) ∧
      ∀ p ∈ slots, p.tree.WrittenAs p.text := by
  induction limit generalizing state s with
  | zero => cases h
  | succ limit ih =>
    rw [foldItemsUpTo] at h
    obtain ⟨⟨more, s₁⟩, hnext, h⟩ := exists_of_bind_eq_ok h
    cases more with
    | false =>
      cases h
      obtain ⟨blanks, s', hs, hrest⟩ := exists_of_nextItem_end hnext
      exact ⟨blanks, [], s', hrest, hs, List.forall_mem_nil _⟩
    | true =>
      obtain ⟨⟨state₁, s₂⟩, hread, hfold⟩ := exists_of_bind_eq_ok h
      obtain ⟨blanks, before, rfl⟩ := exists_of_nextItem_next hnext
      -- the reader of the item may have skipped more blanks
      obtain ⟨before', text, t, rfl, ht⟩ := hitem state s₁ state₁ s₂ hread
      obtain ⟨after, slots, s', hrest, rfl, hslots⟩ := ih hfold
      refine ⟨blanks, ⟨before.append before', t, text, after⟩ :: slots, s', hrest, ?_,
        List.forall_mem_cons.mpr ⟨ht, hslots⟩⟩
      simp only [List.map_cons, List.flatMap_cons, Slot.padded, Blanks.append, List.cons_append,
        List.append_assoc]

/-- The text `s` is the items of an array up to `rest`, which begins with its closing bracket. -/
def ItemsUpTo (s rest : List Char) : Prop :=
  ∃ (inside : Blanks) (slots : List Slot) (s' : List Char), rest = ']' :: s' ∧
    s = inside.text ++ (separated (slots.map Slot.padded) ++ rest) ∧
    ∀ p ∈ slots, p.tree.WrittenAs p.text

/-- An array has been passed as its first item and those after it. -/
theorem itemsUpTo_of_nextItem {s₁ s₂ : List Char} (hitem : ∀ state, Accepts (item state))
    (hnext : nextItem true s = .ok (true, s₁))
    (hfirst : ∃ (before : Blanks) (text : List Char) (t : Tree),
      s₁ = before.text ++ (text ++ s₂) ∧ t.WrittenAs text)
    (hfold : foldItemsUpTo item limit state false s₂ = .ok (state', rest)) :
    ItemsUpTo s rest := by
  obtain ⟨inside, rfl⟩ := exists_of_nextItem_first hnext
  obtain ⟨before, text, t, rfl, ht⟩ := hfirst
  obtain ⟨after, slots, s', hrest, rfl, hslots⟩ := exists_of_foldItemsUpTo_eq_ok hitem hfold
  refine ⟨inside, ⟨before, t, text, after⟩ :: slots, s', hrest, ?_,
    List.forall_mem_cons.mpr ⟨ht, hslots⟩⟩
  simp only [List.map_cons, separated, Slot.padded, List.append_assoc]

/-- An array has been passed as its items. -/
theorem itemsUpTo_of_foldItems_eq_ok (hitem : ∀ state, Accepts (item state))
    (h : foldItems item state true s = .ok (state', rest)) : ItemsUpTo s rest := by
  rw [foldItems, foldItemsUpTo] at h
  obtain ⟨⟨more, s₁⟩, hnext, h⟩ := exists_of_bind_eq_ok h
  cases more with
  | false =>
    cases h
    obtain ⟨inside, s', hs, hrest⟩ := exists_of_nextItem_end hnext
    exact ⟨inside, [], s', hrest, hs, List.forall_mem_nil _⟩
  | true =>
    obtain ⟨⟨state₁, s₂⟩, hread, hfold⟩ := exists_of_bind_eq_ok h
    exact itemsUpTo_of_nextItem hitem hnext (hitem state s₁ state₁ s₂ hread) hfold

end Items

/-- Between its brackets, the items make an array. -/
theorem ItemsUpTo.exists_writtenAs (h : ItemsUpTo s rest) :
    ∃ (text : List Char) (t : Tree), '[' :: s = text ++ rest.drop 1 ∧ t.WrittenAs text := by
  obtain ⟨inside, slots, s', rfl, rfl, hslots⟩ := h
  refine ⟨_, _, ?_, .array inside slots hslots⟩
  simp only [List.cons_append, List.append_assoc, List.nil_append, List.drop_one, List.tail_cons]

/-! ## Members -/

section Members

variable {member : σ → List Char → Reader σ} {state state' : σ} {key : List Char}

theorem exists_of_readKey_eq_ok (h : readKey s = .ok (key, rest)) :
    ∃ ps : List Piece, s = '"' :: (quotedRest ps ++ rest) := by
  unfold readKey at h
  split at h
  · obtain ⟨ps, rfl⟩ := exists_of_readString_eq_ok h
    exact ⟨ps, rfl⟩
  · cases h

theorem exists_of_nextKey_first (h : nextKey true s = .ok (some key, rest)) :
    ∃ (inside : Blanks) (ps : List Piece), s = inside.text ++ '"' :: (quotedRest ps ++ rest) := by
  obtain ⟨b, hs⟩ := exists_blanks s
  unfold nextKey at h
  dsimp only at h
  split at h
  · cases h
  · next c s' hskip =>
    rw [hskip] at hs
    by_cases hbrace : c = '}'
    · rw [if_pos hbrace] at h
      cases h
    · rw [if_neg hbrace, if_pos rfl] at h
      obtain ⟨⟨k, s₁⟩, hkey, h⟩ := exists_of_bind_eq_ok h
      cases h
      obtain ⟨ps, hps⟩ := exists_of_readKey_eq_ok hkey
      exact ⟨b, ps, by rw [hs, hps]⟩

theorem exists_of_nextKey_next (h : nextKey false s = .ok (some key, rest)) :
    ∃ (blanks before : Blanks) (ps : List Piece),
      s = blanks.text ++ ',' :: (before.text ++ '"' :: (quotedRest ps ++ rest)) := by
  obtain ⟨b, hs⟩ := exists_blanks s
  unfold nextKey at h
  dsimp only at h
  split at h
  · cases h
  · next c s' hskip =>
    rw [hskip] at hs
    obtain ⟨b', hs'⟩ := exists_blanks s'
    by_cases hbrace : c = '}'
    · rw [if_pos hbrace] at h
      cases h
    rw [if_neg hbrace, if_neg Bool.false_ne_true] at h
    by_cases hcomma : c = ','
    · rw [if_pos hcomma] at h
      split at h
      · cases h
      · next d s'' hskip' =>
        rw [hskip'] at hs'
        by_cases hbrace' : d = '}'
        · rw [if_pos hbrace'] at h
          cases h
        rw [if_neg hbrace'] at h
        obtain ⟨⟨k, s₁⟩, hkey, h⟩ := exists_of_bind_eq_ok h
        cases h
        obtain ⟨ps, hps⟩ := exists_of_readKey_eq_ok hkey
        exact ⟨b, b', ps, by rw [hs, hcomma, ← hps, ← hs']⟩
    · rw [if_neg hcomma] at h
      cases h

/-- Reading a key never ends in the closing brace. -/
theorem readKey_bind_ne_none (s rest : List Char) :
    (do let (key, s') ← readKey s
        return (some key, s') : Except Fault (Option (List Char) × List Char)) ≠
      .ok (none, rest) := by
  intro h
  obtain ⟨p, -, h⟩ := exists_of_bind_eq_ok h
  cases h

theorem exists_of_nextKey_end {first : Bool} (h : nextKey first s = .ok (none, rest)) :
    ∃ (blanks : Blanks) (s' : List Char), s = blanks.text ++ rest ∧ rest = '}' :: s' := by
  obtain ⟨b, hs⟩ := exists_blanks s
  unfold nextKey at h
  dsimp only at h
  split at h
  · cases h
  · next c s' hskip =>
    rw [hskip] at hs
    split_ifs at h with hbrace hfirst hcomma
    · cases h
      exact ⟨b, s', hs, by rw [hbrace]⟩
    · exact absurd h (readKey_bind_ne_none _ _)
    · split at h
      · cases h
      · split_ifs at h
        exact absurd h (readKey_bind_ne_none _ _)

/-- The rest of an object has been passed as members after the first. -/
theorem exists_of_foldMembersUpTo_eq_ok
    (hmember : ∀ state key, AcceptsAfterKey (member state key))
    (h : foldMembersUpTo member limit state false s = .ok (state', rest)) :
    ∃ (blanks : Blanks) (members : List Member) (s' : List Char), rest = '}' :: s' ∧
      s = blanks.text ++ ((members.map Member.padded).flatMap (',' :: ·) ++ rest) ∧
      ∀ m ∈ members, m.slot.tree.WrittenAs m.slot.text := by
  induction limit generalizing state s with
  | zero => cases h
  | succ limit ih =>
    rw [foldMembersUpTo] at h
    obtain ⟨⟨key, s₁⟩, hnext, h⟩ := exists_of_bind_eq_ok h
    cases key with
    | none =>
      cases h
      obtain ⟨blanks, s', hs, hrest⟩ := exists_of_nextKey_end hnext
      exact ⟨blanks, [], s', hrest, hs, List.forall_mem_nil _⟩
    | some key =>
      obtain ⟨⟨state₁, s₂⟩, hread, hfold⟩ := exists_of_bind_eq_ok h
      obtain ⟨blanks, before, ps, rfl⟩ := exists_of_nextKey_next hnext
      obtain ⟨after, before', text, t, rfl, ht⟩ := hmember state key s₁ state₁ s₂ hread
      obtain ⟨after', members, s', hrest, rfl, hmembers⟩ := ih hfold
      refine ⟨blanks, ⟨before, ps, after, ⟨before', t, text, after'⟩⟩ :: members, s', hrest, ?_,
        List.forall_mem_cons.mpr ⟨ht, hmembers⟩⟩
      simp only [List.map_cons, List.flatMap_cons, Member.padded, Member.fromColon, Slot.padded,
        List.cons_append, List.append_assoc]

/-- The text `s` is the members of an object up to `rest`, which begins with its closing brace. -/
def MembersUpTo (s rest : List Char) : Prop :=
  ∃ (inside : Blanks) (members : List Member) (s' : List Char), rest = '}' :: s' ∧
    s = inside.text ++ (separated (members.map Member.padded) ++ rest) ∧
    ∀ m ∈ members, m.slot.tree.WrittenAs m.slot.text

/-- An object has been passed as its members. -/
theorem membersUpTo_of_foldMembers_eq_ok
    (hmember : ∀ state key, AcceptsAfterKey (member state key))
    (h : foldMembers member state true s = .ok (state', rest)) : MembersUpTo s rest := by
  rw [foldMembers, foldMembersUpTo] at h
  obtain ⟨⟨key, s₁⟩, hnext, h⟩ := exists_of_bind_eq_ok h
  cases key with
  | none =>
    cases h
    obtain ⟨inside, s', hs, hrest⟩ := exists_of_nextKey_end hnext
    exact ⟨inside, [], s', hrest, hs, List.forall_mem_nil _⟩
  | some key =>
    obtain ⟨⟨state₁, s₂⟩, hread, hfold⟩ := exists_of_bind_eq_ok h
    obtain ⟨inside, ps, rfl⟩ := exists_of_nextKey_first hnext
    obtain ⟨after, before, text, t, rfl, ht⟩ := hmember state key s₁ state₁ s₂ hread
    obtain ⟨after', members, s', hrest, rfl, hmembers⟩ :=
      exists_of_foldMembersUpTo_eq_ok hmember hfold
    refine ⟨inside, ⟨.none, ps, after, ⟨before, t, text, after'⟩⟩ :: members, s', hrest, ?_,
      List.forall_mem_cons.mpr ⟨ht, hmembers⟩⟩
    simp only [List.map_cons, separated, Member.padded, Member.fromColon, Slot.padded,
      Blanks.none, List.nil_append, List.cons_append, List.append_assoc]

end Members

/-- Between its braces, the members make an object. -/
theorem MembersUpTo.exists_writtenAs (h : MembersUpTo s rest) :
    ∃ (text : List Char) (t : Tree), '{' :: s = text ++ rest.drop 1 ∧ t.WrittenAs text := by
  obtain ⟨inside, members, s', rfl, rfl, hmembers⟩ := h
  refine ⟨_, _, ?_, .object inside members hmembers⟩
  simp only [List.cons_append, List.append_assoc, List.nil_append, List.drop_one, List.tail_cons]

/-! ## Values -/

/-- A word that has been passed after its first letter. -/
theorem exists_of_word {w : Char} {word : List Char} {a b : α}
    (h : (do return (a, ← readWord word s) : Except Fault (α × List Char)) = .ok (b, rest)) :
    w :: s = w :: word ++ rest := by
  obtain ⟨s₁, hword, h⟩ := exists_of_bind_eq_ok h
  cases h
  rw [eq_append_of_readWord hword, List.cons_append]

theorem accepts_addItem {read : Reader Value} (h : Accepts read) (items : Array Value) :
    Accepts (addItem read items) :=
  h.map items.push

theorem acceptsAfterKey_addMember {read : Reader Value} (h : Accepts read)
    (members : Array (List Char × Value)) (key : List Char) :
    AcceptsAfterKey (addMember read members key) :=
  h.afterKey fun v => members.push (key, v)

theorem accepts_readValueWith (convert : Conversion) {nested : Option (Reader Value)}
    (h : ∀ read ∈ nested, Accepts read) : Accepts (readValueWith convert nested) := by
  intro s v rest hread
  obtain ⟨before, hs⟩ := exists_blanks s
  unfold readValueWith at hread
  split at hread
  · cases hread
  next c s₁ hskip =>
  rw [hskip] at hs
  suffices hvalue : ∃ text t, c :: s₁ = text ++ rest ∧ Tree.WrittenAs t text by
    obtain ⟨text, t, htext, ht⟩ := hvalue
    exact ⟨before, text, t, by rw [hs, htext], ht⟩
  clear hs hskip
  split_ifs at hread with hn ht hf hnumber hstring harray hobject
  · exact ⟨_, _, by rw [hn]; exact exists_of_word hread, .null⟩
  · exact ⟨_, _, by rw [ht]; exact exists_of_word hread, .boolean true⟩
  · exact ⟨_, _, by rw [hf]; exact exists_of_word hread, .boolean false⟩
  · obtain ⟨⟨x, s₂⟩, hx, hread⟩ := exists_of_bind_eq_ok hread
    cases hread
    obtain ⟨x, heq⟩ := exists_of_readNumber_eq_ok hx
    exact ⟨_, _, heq, .number x⟩
  · obtain ⟨⟨text, s₂⟩, htext, hread⟩ := exists_of_bind_eq_ok hread
    cases hread
    obtain ⟨ps, rfl⟩ := exists_of_readString_eq_ok htext
    exact ⟨_, _, by rw [hstring]; rfl, .string ps⟩
  · split at hread
    · cases hread
    · next read =>
      obtain ⟨⟨items, s₂⟩, hitems, hread⟩ := exists_of_bind_eq_ok hread
      cases hread
      obtain ⟨text, t, heq, ht⟩ :=
        (itemsUpTo_of_foldItems_eq_ok (accepts_addItem (h read rfl)) hitems).exists_writtenAs
      exact ⟨text, t, by rw [harray, heq], ht⟩
  · split at hread
    · cases hread
    · next read =>
      obtain ⟨⟨members, s₂⟩, hfold, hread⟩ := exists_of_bind_eq_ok hread
      cases hread
      obtain ⟨text, t, heq, ht⟩ :=
        (membersUpTo_of_foldMembers_eq_ok (acceptsAfterKey_addMember (h read rfl))
          hfold).exists_writtenAs
      exact ⟨text, t, by rw [hobject, heq], ht⟩

/-- **Nothing is read as a value but trees.** -/
theorem accepts_readValue (convert : Conversion) (n : ℕ) : Accepts (readValue convert n) := by
  induction n with
  | zero => exact accepts_readValueWith convert nofun
  | succ n ih =>
    apply accepts_readValueWith convert
    rintro read ⟨⟩
    exact ih

/-! ## Names and records -/

theorem accepts_readName (names : List (String × α)) : Accepts (readName names) := by
  intro s a rest h
  obtain ⟨before, hs⟩ := exists_blanks s
  unfold readName at h
  split at h
  · cases h
  · next c s' hskip =>
    rw [hskip] at hs
    split_ifs at h with hc
    obtain ⟨⟨name, s₁⟩, hname, hmeaning⟩ := exists_of_bind_eq_ok h
    obtain ⟨ps, rfl⟩ := exists_of_readString_eq_ok hname
    dsimp only at hmeaning
    split at hmeaning
    · cases hmeaning
      exact ⟨before, _, _, by rw [hs, hc]; rfl, .string ps⟩
    · cases hmeaning

theorem acceptsAfterKey_readField {read : Reader α} (h : Accepts read) (name : String)
    (seen : Option α) : AcceptsAfterKey (readField name seen read) := by
  cases seen with
  | none => exact h.afterKey some
  | some =>
    intro s a rest hread
    cases hread

/-- A record passes nothing but arrays and objects, if its readers do within the brackets. -/
theorem accepts_readRecord {expected : String} {ofArray ofObject : Reader α}
    (harray : ∀ s a rest, ofArray s = .ok (a, rest) → ItemsUpTo s rest)
    (hobject : ∀ s a rest, ofObject s = .ok (a, rest) → MembersUpTo s rest) :
    Accepts (readRecord expected ofArray ofObject) := by
  intro s a rest h
  obtain ⟨before, hs⟩ := exists_blanks s
  unfold readRecord at h
  split at h
  · cases h
  next c s₁ hskip =>
  rw [hskip] at hs
  split_ifs at h with hbracket hbrace
  · obtain ⟨⟨a', s₂⟩, hread, h⟩ := exists_of_bind_eq_ok h
    obtain ⟨s₃, hclose, h⟩ := exists_of_bind_eq_ok h
    cases h
    have hitems := harray _ _ _ hread
    obtain ⟨text, t, heq, ht⟩ := hitems.exists_writtenAs
    obtain ⟨-, -, s₄, rfl, -⟩ := hitems
    -- the closing bracket comes next, so nothing is skipped before it
    cases hclose
    exact ⟨before, text, t, by rw [hs, hbracket, heq]; rfl, ht⟩
  · obtain ⟨⟨a', s₂⟩, hread, h⟩ := exists_of_bind_eq_ok h
    cases h
    obtain ⟨text, t, heq, ht⟩ := (hobject _ _ _ hread).exists_writtenAs
    exact ⟨before, text, t, by rw [hs, hbrace, heq], ht⟩

/-! ## Documents -/

/-- Nothing is read from a document that holds anything but a tree. -/
theorem exists_writtenIn_of_document {read : Reader α} (h : Accepts read) {text : String} {a : α}
    (hread : document read text = .ok a) : ∃ t : Tree, t.WrittenIn text.toList := by
  unfold document at hread
  dsimp only at hread
  split at hread
  · cases hread
  · next a' rest hok =>
    obtain ⟨before, s, t, hs, ht⟩ := h _ _ _ hok
    obtain ⟨after, hafter⟩ := exists_blanks rest
    split at hread
    · next hnil =>
      rw [hnil, List.append_nil] at hafter
      exact ⟨t, before, after, s, ht, by rw [hs, hafter]⟩
    · cases hread

end Identicon.Json
