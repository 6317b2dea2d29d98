import Identicon.Proofs.Json.Doubles

/-!
# Values read back

The indented form of a value is read back as that value. The proof is by induction on `Readable`,
which says of a value that its numbers can be written and that its brackets are nested no deeper
than the reader allows: scalars are read by their own readers, and the parts of an array or object
are read one after the other, with line breaks in front of them that the reader passes.
-/

namespace Identicon.Json

variable {n depth : ℕ} {v : Value} {s t text rest key : List Char} {c : Char} {number : Number}
  {convert : Conversion}
  {items : List Value} {ms : List (List Char × Value)}

/-- The values that a reader which may open `n` brackets reads back: integers have to lie in the
64-bit ranges, doubles have to be finite, and brackets may not be nested deeper. -/
inductive Readable : ℕ → Value → Prop
  | null {n : ℕ} : Readable n .null
  | boolean {n : ℕ} (b : Bool) : Readable n (.boolean b)
  | integer {n : ℕ} {k : ℤ} (hlo : -2 ^ 63 ≤ k) (hhi : k < 2 ^ 64) :
    Readable n (.number (.integer k))
  | real {n : ℕ} {z : Float} (hfin : z.isFinite = true) : Readable n (.number (.real z))
  | string {n : ℕ} (text : List Char) : Readable n (.string text)
  | array {n : ℕ} {items : List Value} (h : ∀ v ∈ items, Readable n v) :
    Readable (n + 1) (.array items)
  | object {n : ℕ} {ms : List (List Char × Value)} (h : ∀ m ∈ ms, Readable n m.2) :
    Readable (n + 1) (.object ms)

/-! ## Blanks -/

theorem skipBlanks_append (h : ∀ c ∈ text, isBlank c = true) :
    skipBlanks (text ++ s) = skipBlanks s :=
  List.dropWhile_append_of_pos h

theorem skipBlanks_lineBreak (depth : ℕ) (s : List Char) :
    skipBlanks (Value.lineBreak depth ++ s) = skipBlanks s := by
  apply skipBlanks_append
  intro c hc
  rcases List.mem_cons.mp hc with rfl | hc
  · rfl
  · rw [List.eq_of_mem_replicate hc]
    rfl

theorem skipBlanks_skipBlanks (s : List Char) : skipBlanks (skipBlanks s) = skipBlanks s :=
  List.dropWhile_idempotent isBlank s

/-- Blanks in front of a value change nothing. -/
theorem readValue_congr (h : skipBlanks s = skipBlanks t) :
    readValue convert n s = readValue convert n t := by
  cases n with
  | zero | succ => rw [readValue, readValueWith, readValueWith, h]

theorem readValue_skipBlanks (n : ℕ) (s : List Char) :
    readValue convert n (skipBlanks s) = readValue convert n s :=
  readValue_congr (skipBlanks_skipBlanks s)

/-- What is read as a value does not begin with a closing bracket. -/
theorem exists_cons_of_readValue_eq_ok (h : readValue convert n s = .ok (v, rest)) :
    ∃ c t, skipBlanks s = c :: t ∧ c ≠ ']' := by
  cases hs : skipBlanks s with
  | nil =>
    cases n with
    | zero | succ =>
      rw [readValue, readValueWith, hs] at h
      cases h
  | cons c t =>
    refine ⟨c, t, rfl, ?_⟩
    rintro rfl
    cases n with
    | zero | succ =>
      rw [readValue, readValueWith, hs] at h
      cases h

/-! ## Scalars -/

/-- A minus or a digit begins a number, at any depth. -/
theorem readValue_eq_readNumber (n : ℕ) (hc : c = '-' ∨ c.isDigit = true) (s : List Char) :
    readValue convert n (c :: s) = do
      let (number, rest) ← readNumber convert (c :: s)
      return (.number number, rest) := by
  have hne : isBlank c = false ∧ c ≠ 'n' ∧ c ≠ 't' ∧ c ≠ 'f' := by
    rcases hc with rfl | hc
    · decide
    · refine ⟨isBlank_of_isDigit hc, ?_, ?_, ?_⟩ <;> rintro rfl <;> exact absurd hc (by decide)
  obtain ⟨hblank, hn, ht, hf⟩ := hne
  cases n with
  | zero | succ =>
    rw [readValue, readValueWith, skipBlanks_cons hblank]
    dsimp only
    rw [if_neg hn, if_neg ht, if_neg hf, if_pos hc]

theorem readValue_of_readNumber (n : ℕ) (h : readNumber convert s = .ok (number, rest)) :
    readValue convert n s = .ok (.number number, rest) := by
  obtain ⟨c, t, rfl, hc⟩ := exists_cons_of_readNumber_eq_ok h
  rw [readValue_eq_readNumber n hc, h]
  rfl

/-! ## Items -/

theorem nextItem_first (h : readValue convert n t = .ok (v, rest)) :
    nextItem true (Value.lineBreak depth ++ t) = .ok (true, skipBlanks t) := by
  obtain ⟨c, t', heq, hc⟩ := exists_cons_of_readValue_eq_ok h
  rw [nextItem, skipBlanks_lineBreak, heq]
  dsimp only
  rw [if_neg hc, if_pos rfl]

theorem nextItem_next (h : readValue convert n t = .ok (v, rest)) :
    nextItem false (',' :: Value.lineBreak depth ++ t) = .ok (true, skipBlanks t) := by
  obtain ⟨c, t', heq, hc⟩ := exists_cons_of_readValue_eq_ok h
  rw [nextItem, List.cons_append, skipBlanks_cons rfl]
  dsimp only
  rw [if_neg (by decide), if_neg Bool.false_ne_true, if_pos rfl, skipBlanks_lineBreak, heq]
  dsimp only
  rw [if_neg hc]

theorem nextItem_close (first : Bool) (depth : ℕ) (s : List Char) :
    nextItem first (Value.lineBreak depth ++ ']' :: s) = .ok (false, ']' :: s) := by
  rw [nextItem, skipBlanks_lineBreak]
  rfl

/-- Behind a part of an array or object there is a comma or a line break. -/
theorem stops_lineBreak (depth : ℕ) (s : List Char) : Stops (Value.lineBreak depth ++ s) :=
  stops_cons rfl (by decide) (by decide) (by decide)

theorem stops_indentedItems (depth depth' : ℕ) (items : List Value) (s : List Char) :
    Stops (Value.indentedItems depth items ++ (Value.lineBreak depth' ++ s)) := by
  cases items with
  | nil =>
    rw [Value.indentedItems]
    exact stops_lineBreak depth' s
  | cons v items =>
    rw [Value.indentedItems]
    exact stops_comma

theorem addItem_skipBlanks (h : readValue convert n t = .ok (v, rest)) (items : Array Value) :
    addItem (readValue convert n) items (skipBlanks t) = .ok (items.push v, rest) := by
  rw [addItem, readValue_skipBlanks, h]
  rfl

/-- Items that are read by themselves are read one after the other. -/
theorem foldItemsUpTo_indentedItems (depth' limit : ℕ) (state : Array Value) (s : List Char)
    (h : ∀ v ∈ items, ∀ s, Stops s → readValue convert n (v.indented depth ++ s) = .ok (v, s)) :
    foldItemsUpTo (addItem (readValue convert n)) (limit + 1 + items.length) state false
        (Value.indentedItems depth items ++ (Value.lineBreak depth' ++ ']' :: s)) =
      .ok (items.foldl Array.push state, ']' :: s) := by
  induction items generalizing state with
  | nil =>
    rw [Value.indentedItems, List.nil_append, List.length_nil, foldItemsUpTo, nextItem_close]
    rfl
  | cons v items ih =>
    obtain ⟨hv, hitems⟩ := List.forall_mem_cons.mp h
    have hread := hv _ (stops_indentedItems depth depth' items (']' :: s))
    have htext : Value.indentedItems depth (v :: items) ++ (Value.lineBreak depth' ++ ']' :: s) =
        ',' :: Value.lineBreak depth ++ (v.indented depth ++
          (Value.indentedItems depth items ++ (Value.lineBreak depth' ++ ']' :: s))) := by
      rw [Value.indentedItems]
      simp only [List.append_assoc, List.cons_append]
    rw [htext, List.length_cons, ← Nat.add_assoc, foldItemsUpTo, nextItem_next hread, ok_bind]
    dsimp only
    rw [if_pos rfl, addItem_skipBlanks hread, ok_bind]
    exact ih _ hitems

theorem length_le_length_indentedItems (depth : ℕ) (items : List Value) :
    items.length ≤ (Value.indentedItems depth items).length := by
  induction items with
  | nil => exact Nat.zero_le _
  | cons v items ih =>
    rw [Value.indentedItems]
    simp only [List.length_cons, List.length_append]
    omega

theorem readValue_indented_array (depth : ℕ)
    (h : ∀ v ∈ items, ∀ s, Stops s →
      readValue convert n (v.indented (depth + 1) ++ s) = .ok (v, s)) :
    readValue convert (n + 1) ((Value.array items).indented depth ++ s) =
      .ok (.array items, s) := by
  cases items with
  | nil =>
    rw [Value.indented]
    rfl
  | cons v items =>
    obtain ⟨hv, hitems⟩ := List.forall_mem_cons.mp h
    have hread := hv _ (stops_indentedItems (depth + 1) depth items (']' :: s))
    set text := Value.lineBreak (depth + 1) ++ (v.indented (depth + 1) ++
      (Value.indentedItems (depth + 1) items ++ (Value.lineBreak depth ++ ']' :: s))) with htext
    have hfold : foldItems (addItem (readValue convert n)) #[] true text =
        .ok (items.foldl Array.push #[v], ']' :: s) := by
      obtain ⟨limit, hlimit⟩ : ∃ limit, text.length = limit + 1 + items.length := by
        have := length_le_length_indentedItems (depth + 1) items
        refine ⟨text.length - 1 - items.length, ?_⟩
        simp only [htext, Value.lineBreak, List.length_append, List.length_cons]
        omega
      rw [foldItems, hlimit, foldItemsUpTo, htext, nextItem_first hread, ok_bind]
      dsimp only
      rw [if_pos rfl, addItem_skipBlanks hread, ok_bind]
      exact foldItemsUpTo_indentedItems depth limit _ s hitems
    have hopen : (Value.array (v :: items)).indented depth ++ s = '[' :: text := by
      rw [Value.indented, htext]
      simp only [List.append_assoc, List.cons_append, List.nil_append]
    rw [hopen]
    show (foldItems (addItem (readValue convert n)) #[] true text >>= fun p =>
      pure (Value.array p.1.toList, p.2.drop 1)) = _
    rw [hfold]
    show Except.ok (Value.array (items.foldl Array.push #[v]).toList, s) = _
    simp

/-! ## Members -/

theorem nextKey_first_lineBreak (depth : ℕ) (key s : List Char) :
    nextKey true (Value.lineBreak depth ++ (printString key ++ s)) = .ok (some key, s) := by
  have hblanks : nextKey true (Value.lineBreak depth ++ (printString key ++ s)) =
      nextKey true (printString key ++ s) := by
    rw [nextKey, nextKey, skipBlanks_lineBreak]
  rw [hblanks, nextKey_first]

theorem nextKey_next_lineBreak (depth : ℕ) (key s : List Char) :
    nextKey false (',' :: Value.lineBreak depth ++ (printString key ++ s)) = .ok (some key, s) := by
  have hblanks : nextKey false (',' :: Value.lineBreak depth ++ (printString key ++ s)) =
      nextKey false (',' :: printString key ++ s) := by
    rw [nextKey, nextKey, List.cons_append, List.cons_append, skipBlanks_cons rfl,
      skipBlanks_cons rfl]
    dsimp only
    rw [skipBlanks_lineBreak]
    rfl
  rw [hblanks, nextKey_next]

theorem nextKey_close_lineBreak (first : Bool) (depth : ℕ) (s : List Char) :
    nextKey first (Value.lineBreak depth ++ '}' :: s) = .ok (none, '}' :: s) := by
  rw [nextKey, skipBlanks_lineBreak]
  rfl

theorem stops_indentedMembers (depth depth' : ℕ) (ms : List (List Char × Value)) (s : List Char) :
    Stops (Value.indentedMembers depth ms ++ (Value.lineBreak depth' ++ s)) := by
  cases ms with
  | nil =>
    rw [Value.indentedMembers]
    exact stops_lineBreak depth' s
  | cons m ms =>
    rw [Value.indentedMembers]
    exact stops_comma

/-- The blank behind a colon is passed. -/
theorem addMember_blank (h : readValue convert n t = .ok (v, rest))
    (members : Array (List Char × Value)) (key : List Char) :
    addMember (readValue convert n) members key (':' :: ' ' :: t) =
      .ok (members.push (key, v), rest) := by
  rw [addMember, readColon_cons, ok_bind, readValue_congr (s := ' ' :: t) (t := t) rfl, h]
  rfl

/-- Members whose values are read by themselves are read one after the other. -/
theorem foldMembersUpTo_indentedMembers (depth' limit : ℕ) (state : Array (List Char × Value))
    (s : List Char)
    (h : ∀ m ∈ ms, ∀ s, Stops s → readValue convert n (m.2.indented depth ++ s) = .ok (m.2, s)) :
    foldMembersUpTo (addMember (readValue convert n)) (limit + 1 + ms.length) state false
        (Value.indentedMembers depth ms ++ (Value.lineBreak depth' ++ '}' :: s)) =
      .ok (ms.foldl Array.push state, '}' :: s) := by
  induction ms generalizing state with
  | nil =>
    rw [Value.indentedMembers, List.nil_append, List.length_nil, foldMembersUpTo,
      nextKey_close_lineBreak]
    rfl
  | cons m ms ih =>
    obtain ⟨hm, hms⟩ := List.forall_mem_cons.mp h
    have hread := hm _ (stops_indentedMembers depth depth' ms ('}' :: s))
    have htext : Value.indentedMembers depth (m :: ms) ++ (Value.lineBreak depth' ++ '}' :: s) =
        ',' :: Value.lineBreak depth ++ (printString m.1 ++ (':' :: ' ' :: (m.2.indented depth ++
          (Value.indentedMembers depth ms ++ (Value.lineBreak depth' ++ '}' :: s))))) := by
      rw [Value.indentedMembers]
      simp only [List.append_assoc, List.cons_append]
    rw [htext, List.length_cons, ← Nat.add_assoc, foldMembersUpTo, nextKey_next_lineBreak, ok_bind]
    dsimp only
    rw [addMember_blank hread, ok_bind]
    exact ih _ hms

theorem length_le_length_indentedMembers (depth : ℕ) (ms : List (List Char × Value)) :
    ms.length ≤ (Value.indentedMembers depth ms).length := by
  induction ms with
  | nil => exact Nat.zero_le _
  | cons m ms ih =>
    rw [Value.indentedMembers]
    simp only [List.length_cons, List.length_append]
    omega

theorem readValue_indented_object (depth : ℕ)
    (h : ∀ m ∈ ms, ∀ s, Stops s →
      readValue convert n (m.2.indented (depth + 1) ++ s) = .ok (m.2, s)) :
    readValue convert (n + 1) ((Value.object ms).indented depth ++ s) = .ok (.object ms, s) := by
  cases ms with
  | nil =>
    rw [Value.indented]
    rfl
  | cons m ms =>
    obtain ⟨hm, hms⟩ := List.forall_mem_cons.mp h
    have hread := hm _ (stops_indentedMembers (depth + 1) depth ms ('}' :: s))
    set text := Value.lineBreak (depth + 1) ++ (printString m.1 ++ (':' :: ' ' ::
      (m.2.indented (depth + 1) ++ (Value.indentedMembers (depth + 1) ms ++
        (Value.lineBreak depth ++ '}' :: s))))) with htext
    have hfold : foldMembers (addMember (readValue convert n)) #[] true text =
        .ok (ms.foldl Array.push #[m], '}' :: s) := by
      obtain ⟨limit, hlimit⟩ : ∃ limit, text.length = limit + 1 + ms.length := by
        have := length_le_length_indentedMembers (depth + 1) ms
        refine ⟨text.length - 1 - ms.length, ?_⟩
        simp only [htext, Value.lineBreak, List.length_append, List.length_cons]
        omega
      rw [foldMembers, hlimit, foldMembersUpTo, htext, nextKey_first_lineBreak, ok_bind]
      dsimp only
      rw [addMember_blank hread, ok_bind]
      exact foldMembersUpTo_indentedMembers depth limit _ s hms
    have hopen : (Value.object (m :: ms)).indented depth ++ s = '{' :: text := by
      rw [Value.indented, htext]
      simp only [List.append_assoc, List.cons_append, List.nil_append]
    rw [hopen]
    show (foldMembers (addMember (readValue convert n)) #[] true text >>= fun p =>
      pure (Value.object p.1.toList, p.2.drop 1)) = _
    rw [hfold]
    show Except.ok (Value.object (ms.foldl Array.push #[m]).toList, s) = _
    simp

/-! ## Values -/

/-- **Values are read back from their indented form**, whatever follows them in a document. -/
theorem Readable.readValue_indented (h : Readable n v) (depth : ℕ) (hs : Stops s) :
    readValue .nearest n (v.indented depth ++ s) = .ok (v, s) := by
  induction h generalizing depth s with
  | @null n =>
    rw [Value.indented]
    cases n <;> rfl
  | @boolean n b =>
    rw [Value.indented]
    cases n <;> cases b <;> rfl
  | integer hlo hhi =>
    rw [Value.indented]
    exact readValue_of_readNumber _ (readNumber_printInteger hs hlo hhi)
  | real hfin =>
    rw [Value.indented]
    exact readValue_of_readNumber _ (readNumber_nearest hfin hs)
  | string text =>
    rw [Value.indented]
    exact readValue_printString _ _ text s
  | array _ ih => exact readValue_indented_array depth fun v hv s hs => ih v hv _ hs
  | object _ ih => exact readValue_indented_object depth fun m hm s hs => ih m hm _ hs

/-- A document that ends with a line is read back. -/
theorem Readable.document_indented (h : Readable greatestDepth v) :
    document (readValue .nearest greatestDepth) (String.ofList (v.indented 0) ++ "\n") = .ok v := by
  have htext : (String.ofList (v.indented 0) ++ "\n").toList = v.indented 0 ++ ['\n'] := by
    rw [String.toList_append, String.toList_ofList]
    rfl
  have hstops : Stops ['\n'] := stops_lineBreak 0 []
  rw [document, htext, h.readValue_indented 0 hstops]
  rfl

end Identicon.Json
