import Identicon.Expr.Document
import Identicon.Proofs.Json.Printed
import Identicon.Proofs.Levels

/-!
# Expressions read back

The document of an expression has one object for each node, so that its brackets are nested one
level deeper than the expression. A reader that may still open `n` brackets therefore reads the
document of an expression back if the expression is less than `n` deep, and otherwise stops at a
bracket; both are proved by induction on `n`, for all texts that can follow. The bracket is the one
that a walk over the text finds by counting (`Json.bracketBeyond`): the first one that is nested
deeper than the reader allows.

Grown expressions are at most six levels deep and are read back.
-/

namespace Identicon

open Json (Value Fault)

namespace Json

/-! ## Brackets -/

/-- Whether a character opens or closes an array or an object. -/
def isBracket (c : Char) : Bool :=
  c == '{' || c == '[' || c == '}' || c == ']'

/-- The text from the first bracket nested deeper than `limit`, with `opened` brackets open before
the text, for a text without brackets in its strings. -/
def bracketBeyond (limit : ℕ) : ℕ → List Char → Option (List Char)
  | _, [] => none
  | opened, c :: s =>
    if c = '{' ∨ c = '[' then
      if opened = limit then some (c :: s) else bracketBeyond limit (opened + 1) s
    else if c = '}' ∨ c = ']' then bracketBeyond limit (opened - 1) s
    else bracketBeyond limit opened s

variable {limit opened : ℕ} {s t text rest : List Char}

/-- Where there are no brackets nothing is opened or closed. -/
theorem bracketBeyond_append (h : s.all (!isBracket ·) = true) :
    bracketBeyond limit opened (s ++ t) = bracketBeyond limit opened t := by
  induction s with
  | nil => rfl
  | cons c s ih =>
    rw [List.all_cons, Bool.and_eq_true] at h
    have hc : ¬ (c = '{' ∨ c = '[') ∧ ¬ (c = '}' ∨ c = ']') := by
      constructor <;> rintro (rfl | rfl) <;> exact absurd h.1 (by decide)
    rw [List.cons_append, bracketBeyond, if_neg hc.1, if_neg hc.2, ih h.2]

theorem suffix_of_bracketBeyond (h : bracketBeyond limit opened text = some rest) :
    rest <:+ text ∧ rest ≠ [] := by
  induction text generalizing opened with
  | nil => cases h
  | cons c text ih =>
    rw [bracketBeyond] at h
    split_ifs at h with hopen hlimit
    · cases h
      exact ⟨List.suffix_rfl, by simp⟩
    all_goals
      obtain ⟨hsuffix, hrest⟩ := ih h
      exact ⟨hsuffix.trans (List.suffix_cons c text), hrest⟩

/-! ## Positions -/

/-- The characters are of ASCII, with one byte each, and stay on one line. -/
def OneLine (text : List Char) : Prop :=
  ∀ c ∈ text, c.toNat ≤ 127 ∧ c ≠ '\n'

instance : Decidable (OneLine text) :=
  List.decidableBAll _ text

theorem utf8Size_of_toNat_le {c : Char} (h : c.toNat ≤ 127) : c.utf8Size = 1 :=
  Char.utf8Size_eq_one_iff.mpr (UInt32.le_iff_toNat_le.mpr h)

theorem OneLine.append (hs : OneLine s) (ht : OneLine t) : OneLine (s ++ t) :=
  List.forall_mem_append.mpr ⟨hs, ht⟩

theorem OneLine.byteLength_eq (h : OneLine text) : Text.byteLength text = text.length := by
  have hfold : ∀ bytes,
      text.foldl (fun bytes c => bytes + c.utf8Size) bytes = bytes + text.length := by
    induction text with
    | nil => exact fun _ => rfl
    | cons c text ih =>
      intro bytes
      obtain ⟨hc, htext⟩ := List.forall_mem_cons.mp h
      rw [List.foldl_cons, ih htext, utf8Size_of_toNat_le hc.1, List.length_cons]
      omega
  rw [Text.byteLength, hfold, Nat.zero_add]

theorem OneLine.advance_eq (h : OneLine text) {line column bytes : ℕ}
    (hbytes : bytes ≤ text.length) :
    Position.advance ⟨line, column⟩ bytes text = ⟨line, column + bytes⟩ := by
  induction text generalizing column bytes with
  | nil =>
    obtain rfl := Nat.le_zero.mp hbytes
    rfl
  | cons c text ih =>
    obtain ⟨⟨hsize, hline⟩, htext⟩ := List.forall_mem_cons.mp h
    rw [Position.advance]
    cases bytes with
    | zero => rfl
    | succ bytes =>
      rw [List.length_cons] at hbytes
      rw [if_neg (Nat.succ_ne_zero bytes), if_neg hline, utf8Size_of_toNat_le hsize,
        ih htext (by omega)]
      simp only [Position.mk.injEq, true_and]
      omega

/-- In one line of text a place is told by the number of characters up to it. -/
theorem OneLine.position_eq (h : OneLine text) (hrest : rest <:+ text) (hne : rest ≠ []) :
    Spot.position text ⟨rest, 1⟩ = ⟨1, text.length - rest.length + 1⟩ := by
  have hlen := hrest.length_le
  have hpos := List.length_pos_iff.mpr hne
  have hplain : OneLine rest := fun c hc => h c (hrest.subset hc)
  rw [Spot.position, h.byteLength_eq, hplain.byteLength_eq]
  dsimp only
  rw [h.advance_eq (by omega), Nat.zero_add]

end Json

/-! ## Expressions as objects -/

/-- The name of a kind in a document. -/
def Op.name : Op → List Char
  | terminal => "terminal".toList
  | product => "product".toList
  | sine => "sine".toList
  | cosine => "cosine".toList

namespace Expr

/-- The kind of the root. -/
def op : Expr → Op
  | leaf _ => .terminal
  | product _ _ => .product
  | sine _ => .sine
  | cosine _ => .cosine

/-- The members of the object for an expression after the one that tells its kind. -/
def members : Expr → List (List Char × Value)
  | leaf l => [("kind".toList, .string l.name)]
  | product lhs rhs => [("lhs".toList, lhs.toJson), ("rhs".toList, rhs.toJson)]
  | sine arg => [("arg".toList, arg.toJson)]
  | cosine arg => [("arg".toList, arg.toJson)]

variable {e : Expr} {n : ℕ}

theorem toJson_eq (e : Expr) :
    e.toJson = .object ((opKey, .string e.op.name) :: e.members) := by
  cases e <;> rfl

/-- The text of the object from the value of its first member on. -/
theorem compact_toJson (e : Expr) (s : List Char) :
    e.toJson.compact ++ s = '{' :: (Json.printString opKey ++ ':' :: Json.printString e.op.name ++
      (Value.compactMembers e.members ++ '}' :: s)) := by
  rw [toJson_eq, Value.compact, Value.compact]
  simp only [List.cons_append, List.append_assoc, List.nil_append]

theorem ofJson_toJson (e : Expr) : ofJson e.toJson = .ok e := by
  induction e with
  | leaf l => cases l <;> rfl
  | product lhs rhs ihl ihr =>
    simp only [toJson, ofJson, membersOfJson, ihl, ihr]
    rfl
  | sine arg ih | cosine arg ih =>
    simp only [toJson, ofJson, membersOfJson, ih]
    rfl

/-- The parts of an expression make the expression. -/
theorem assemble_members (e : Expr) :
    assemble e.op (.members (membersOfJson e.members)) = .ok e := by
  cases e with
  | leaf l => cases l <;> rfl
  | product lhs rhs =>
    simp only [op, members, membersOfJson, ofJson_toJson]
    rfl
  | sine arg | cosine arg =>
    simp only [op, members, membersOfJson, ofJson_toJson]
    rfl

theorem depth_lt_of_mem_branches {b : Expr} (h : b ∈ e.branches) : b.depth < e.depth := by
  cases e <;> simp [branches] at h
  case product =>
    rw [depth]
    rcases h with rfl | rfl <;> omega
  case sine | cosine =>
    rw [depth, h]
    omega

/-- The keys of members other than the one that tells the kind. -/
def memberKeys : List (List Char) :=
  ["kind".toList, "lhs".toList, "rhs".toList, "arg".toList]

theorem memberKeys_ne_opKey : ∀ key ∈ memberKeys, key ≠ opKey := by
  decide

/-- A member holds the name of a leaf or a branch. -/
theorem mem_members {m : List Char × Value} (h : m ∈ e.members) :
    m.1 ∈ memberKeys ∧
      ((∃ l : Leaf, m.2 = .string l.name) ∨ ∃ b ∈ e.branches, m.2 = b.toJson) := by
  cases e with
  | leaf l =>
    simp only [members, List.mem_singleton] at h
    subst h
    exact ⟨by simp [memberKeys], .inl ⟨l, rfl⟩⟩
  | product lhs rhs =>
    simp only [members, List.mem_cons, List.not_mem_nil, or_false] at h
    rcases h with rfl | rfl
    · exact ⟨by simp [memberKeys], .inr ⟨lhs, by simp [branches], rfl⟩⟩
    · exact ⟨by simp [memberKeys], .inr ⟨rhs, by simp [branches], rfl⟩⟩
  | sine arg | cosine arg =>
    simp only [members, List.mem_singleton] at h
    subst h
    exact ⟨by simp [memberKeys], .inr ⟨arg, by simp [branches], rfl⟩⟩

/-- The first branch that is more than `n` deep, in an expression that has one. -/
theorem exists_deep_branch (h : n + 1 ≤ e.depth) :
    ∃ (before after : List (List Char × Value)) (key : List Char) (b : Expr),
      e.members = before ++ (key, b.toJson) :: after ∧ n ≤ b.depth ∧
        ∀ m ∈ before, ∃ b' : Expr, m.2 = b'.toJson ∧ b'.depth < n := by
  cases e with
  | leaf l => cases h
  | product lhs rhs =>
    rw [depth] at h
    by_cases hlhs : n ≤ lhs.depth
    · exact ⟨[], _, _, lhs, rfl, hlhs, by simp⟩
    · refine ⟨[_], [], _, rhs, rfl, by omega, ?_⟩
      intro m hm
      rw [List.mem_singleton] at hm
      exact ⟨lhs, by rw [hm], by omega⟩
  | sine arg | cosine arg =>
    rw [depth] at h
    exact ⟨[], [], _, arg, rfl, by omega, by simp⟩

/-! ## The walk over the brackets -/

theorem noBracket_opName (op : Op) : (Json.printString op.name).all (!Json.isBracket ·) = true := by
  cases op <;> decide

theorem noBracket_leafName (l : Leaf) :
    (Json.printString l.name).all (!Json.isBracket ·) = true := by
  cases l <;> decide

theorem noBracket_memberKeys :
    ∀ key ∈ memberKeys, (Json.printString key).all (!Json.isBracket ·) = true := by
  decide

section Walk

variable {limit opened : ℕ} {ms : List (List Char × Value)} {s : List Char}

/-- The walk comes to the value of a member. -/
theorem bracketBeyond_member {key : List Char} (hkey : key ∈ memberKeys) (value s : List Char) :
    Json.bracketBeyond limit opened (',' :: Json.printString key ++ (':' :: value ++ s)) =
      Json.bracketBeyond limit opened (value ++ s) := by
  have hcolon : (',' :: Json.printString key ++ [':']).all (!Json.isBracket ·) = true := by
    rw [List.all_append, List.all_cons, noBracket_memberKeys key hkey]
    rfl
  have htext : ',' :: Json.printString key ++ (':' :: value ++ s) =
      (',' :: Json.printString key ++ [':']) ++ (value ++ s) := by
    rw [List.append_assoc]
    rfl
  rw [htext, Json.bracketBeyond_append hcolon]

/-- The walk passes members whose values it passes. -/
theorem bracketBeyond_compactMembers (hkeys : ∀ m ∈ ms, m.1 ∈ memberKeys)
    (h : ∀ m ∈ ms, ∀ s, Json.bracketBeyond limit opened (m.2.compact ++ s) =
      Json.bracketBeyond limit opened s) :
    Json.bracketBeyond limit opened (Value.compactMembers ms ++ s) =
      Json.bracketBeyond limit opened s := by
  induction ms with
  | nil => rw [Value.compactMembers]; rfl
  | cons m ms ih =>
    obtain ⟨hkey, hkeys⟩ := List.forall_mem_cons.mp hkeys
    obtain ⟨hm, hms⟩ := List.forall_mem_cons.mp h
    rw [Json.compactMembers_cons_append, bracketBeyond_member hkey, hm, ih hkeys hms]

/-- The walk opens the bracket of a node and comes to its members. -/
theorem bracketBeyond_toJson (e : Expr) (s : List Char) :
    Json.bracketBeyond limit opened (e.toJson.compact ++ s) =
      if opened = limit then some (e.toJson.compact ++ s)
      else Json.bracketBeyond limit (opened + 1) (Value.compactMembers e.members ++ '}' :: s) := by
  have hop : Json.bracketBeyond limit (opened + 1)
      (Json.printString opKey ++ ':' :: Json.printString e.op.name ++
        (Value.compactMembers e.members ++ '}' :: s)) =
      Json.bracketBeyond limit (opened + 1) (Value.compactMembers e.members ++ '}' :: s) := by
    apply Json.bracketBeyond_append
    rw [List.all_append, List.all_cons, noBracket_opName]
    rfl
  rw [compact_toJson, ← hop]
  rfl

/-- An expression that is not too deep is passed. -/
theorem bracketBeyond_of_depth_lt (h : opened + e.depth < limit) (s : List Char) :
    Json.bracketBeyond limit opened (e.toJson.compact ++ s) =
      Json.bracketBeyond limit opened s := by
  induction hd : e.depth using Nat.strong_induction_on generalizing e opened s with
  | _ d ih =>
    subst hd
    have hmembers : ∀ m ∈ e.members, ∀ s,
        Json.bracketBeyond limit (opened + 1) (m.2.compact ++ s) =
          Json.bracketBeyond limit (opened + 1) s := by
      intro m hm s
      rcases (mem_members hm).2 with ⟨l, hl⟩ | ⟨b, hb, hvalue⟩
      · rw [hl, Value.compact, Json.bracketBeyond_append (noBracket_leafName l)]
      · have hdepth := depth_lt_of_mem_branches hb
        rw [hvalue, ih _ hdepth (by omega) s rfl]
    rw [bracketBeyond_toJson, if_neg (by omega),
      bracketBeyond_compactMembers (fun m hm => (mem_members hm).1) hmembers]
    rfl

/-- The walk comes to the first branch that is too deep. -/
theorem bracketBeyond_split {n : ℕ} {before after : List (List Char × Value)} {key : List Char}
    {b : Expr} (hsplit : e.members = before ++ (key, b.toJson) :: after)
    (hbefore : ∀ m ∈ before, ∃ b' : Expr, m.2 = b'.toJson ∧ b'.depth < n) :
    Json.bracketBeyond (opened + n) opened
        (Value.compactMembers (before ++ (key, b.toJson) :: after) ++ s) =
      Json.bracketBeyond (opened + n) opened
        (b.toJson.compact ++ (Value.compactMembers after ++ s)) := by
  have hkeys : ∀ m ∈ before ++ (key, b.toJson) :: after, m.1 ∈ memberKeys := by
    intro m hm
    exact (mem_members (hsplit ▸ hm)).1
  rw [Json.compactMembers_append, List.append_assoc, Json.compactMembers_cons_append,
    bracketBeyond_compactMembers, bracketBeyond_member (hkeys (key, b.toJson) (by simp))]
  · exact fun m hm => hkeys m (List.mem_append_left _ hm)
  · intro m hm s
    obtain ⟨b', hvalue, hdepth⟩ := hbefore m hm
    rw [hvalue, bracketBeyond_of_depth_lt (by omega)]

end Walk

/-! ## Reading -/

/-- A reader of values comes to the members of a node after its kind. -/
theorem readValue_toJson_eq (n : ℕ) (e : Expr) (s : List Char) :
    Json.readValue .scaled (n + 1) (e.toJson.compact ++ s) = do
      let (members, rest) ← Json.foldMembers (Json.addMember (Json.readValue .scaled n)) #[] true
        (Json.printString opKey ++ ':' :: Json.printString e.op.name ++
          (Value.compactMembers e.members ++ '}' :: s))
      return (.object members.toList, rest.drop 1) := by
  rw [compact_toJson]
  rfl

/-- Values that are read by themselves are read as members. -/
theorem addMember_members {ms : List (List Char × Value)}
    (h : ∀ m ∈ ms, ∀ s, Json.readValue .scaled n (m.2.compact ++ s) = .ok (m.2, s)) :
    ∀ m ∈ ms, ∀ members s,
      Json.addMember (Json.readValue .scaled n) members m.1 (':' :: m.2.compact ++ s) =
        .ok (members.push m, s) :=
  fun m hm _ s => Json.addMember_eq_ok (h m hm s)

/-- The kind of a node is read as a member like any other. -/
theorem addMember_op (op : Op) (s : List Char) :
    Json.addMember (Json.readValue .scaled n) #[] opKey (':' :: Json.printString op.name ++ s) =
      .ok (#[(opKey, .string op.name)], s) :=
  Json.addMember_eq_ok (Json.readValue_printString .scaled n op.name s)

/-- The members of an expression are read as far as its branches are. -/
theorem readValue_member
    (h : ∀ b ∈ e.branches, ∀ s,
      Json.readValue .scaled n (b.toJson.compact ++ s) = .ok (b.toJson, s)) :
    ∀ m ∈ e.members, ∀ s, Json.readValue .scaled n (m.2.compact ++ s) = .ok (m.2, s) := by
  intro m hm s
  rcases (mem_members hm).2 with ⟨l, hl⟩ | ⟨b, hb, hvalue⟩
  · rw [hl, Value.compact, Json.readValue_printString]
  · rw [hvalue, h b hb]

/-- An expression that is no deeper than the reader allows is read back as a value. -/
theorem readValue_toJson (h : e.depth < n) (s : List Char) :
    Json.readValue .scaled n (e.toJson.compact ++ s) = .ok (e.toJson, s) := by
  induction n generalizing e s with
  | zero => cases h
  | succ n ih =>
    have hmembers := readValue_member fun b hb =>
      ih (lt_of_lt_of_le (depth_lt_of_mem_branches hb) (Nat.le_of_lt_succ h))
    rw [readValue_toJson_eq,
      Json.foldMembers_eq_ok (addMember_op e.op) (addMember_members hmembers), toJson_eq]
    show Except.ok (Value.object (List.foldl Array.push _ e.members).toList, s) = _
    simp

/-- A document that is too deep is refused at the first bracket that is. -/
theorem readValue_of_le_depth (h : n ≤ e.depth) (opened : ℕ) (s : List Char) :
    ∃ rest, Json.bracketBeyond (opened + n) opened (e.toJson.compact ++ s) = some rest ∧
      Json.readValue .scaled n (e.toJson.compact ++ s) = .error (.next .tooDeep rest) := by
  induction n generalizing e opened s with
  | zero =>
    refine ⟨_, (bracketBeyond_toJson e s).trans (if_pos rfl), ?_⟩
    rw [compact_toJson]
    rfl
  | succ n ih =>
    obtain ⟨before, after, key, b, hsplit, hdeep, hbefore⟩ := exists_deep_branch h
    obtain ⟨rest, hwalk, hread⟩ :=
      ih hdeep (opened + 1) (Value.compactMembers after ++ '}' :: s)
    have hlimit : opened + (n + 1) = opened + 1 + n := by omega
    refine ⟨rest, ?_, ?_⟩
    · rw [bracketBeyond_toJson, if_neg (by omega), hsplit, hlimit]
      exact (bracketBeyond_split hsplit hbefore).trans hwalk
    · have hpass : ∀ m ∈ before, ∀ s,
          Json.readValue .scaled n (m.2.compact ++ s) = .ok (m.2, s) := by
        intro m hm s
        obtain ⟨b', hvalue, hdepth⟩ := hbefore m hm
        rw [hvalue, readValue_toJson hdepth]
      rw [readValue_toJson_eq, hsplit, Json.foldMembers_eq_error (addMember_op e.op)
        (addMember_members hpass) fun _ => Json.addMember_eq_error hread]
      rfl

/-! ## Documents -/

/-- The kind of the outermost node is read at once. -/
theorem readMember_op (op : Op) (s : List Char) :
    readMember (none, #[]) opKey (':' :: Json.printString op.name ++ s) =
      .ok ((some op, #[]), s) := by
  have hname : Json.ofName Op.names op.name = .ok op := by cases op <;> rfl
  rw [readMember, if_pos rfl, Json.readField_eq_ok (Json.readName_printed hname s)]
  rfl

/-- The other members of the outermost node are read like those of any other. -/
theorem readMember_of_ne {key : List Char} (hkey : key ≠ opKey) (seen : RawMembers)
    (s : List Char) :
    readMember seen key s = do
      let (members, s) ← Json.addMember readInner seen.2 key s
      return ((seen.1, members), s) := by
  rw [readMember, if_neg hkey]

theorem readMember_members {ms : List (List Char × Value)} (hkeys : ∀ m ∈ ms, m.1 ∈ memberKeys)
    (h : ∀ m ∈ ms, ∀ s, readInner (m.2.compact ++ s) = .ok (m.2, s)) :
    ∀ m ∈ ms, ∀ seen s, readMember seen m.1 (':' :: m.2.compact ++ s) =
      .ok ((seen.1, seen.2.push m), s) := by
  intro m hm seen s
  rw [readMember_of_ne (memberKeys_ne_opKey _ (hkeys m hm)), Json.addMember_eq_ok (h m hm s)]
  rfl

section Reader

variable {body rest : List Char}

theorem reader_eq_ok {members : Array (List Char × Value)}
    (hfold : Json.foldMembers readMember (none, #[]) true body = .ok ((some e.op, members), rest))
    (hassemble : assemble e.op (.members (membersOfJson members.toList)) = .ok e) :
    reader ('{' :: body) = .ok (e, rest.drop 1) := by
  have hmembers : readMembers body =
      .ok (⟨e.op, .members (membersOfJson members.toList)⟩, rest) := by
    rw [readMembers, hfold]
    rfl
  have hrecord : Json.readRecord expected readItems readMembers ('{' :: body) =
      .ok (⟨e.op, .members (membersOfJson members.toList)⟩, rest.drop 1) := by
    show (readMembers body >>= fun p => pure (p.1, p.2.drop 1)) = _
    rw [hmembers]
    rfl
  rw [reader, hrecord, ok_bind]
  dsimp only
  rw [hassemble]
  rfl

theorem reader_eq_error {f : Fault}
    (hfold : Json.foldMembers readMember (none, #[]) true body = .error f) :
    reader ('{' :: body) = .error f := by
  have hmembers : readMembers body = .error f := by
    rw [readMembers, hfold, error_bind]
  have hrecord : Json.readRecord expected readItems readMembers ('{' :: body) = .error f := by
    show (readMembers body >>= fun p => pure (p.1, p.2.drop 1)) = _
    rw [hmembers, error_bind]
  rw [reader, hrecord, error_bind]

end Reader

theorem foldl_push_members (ms : List (List Char × Value)) (seen : RawMembers) :
    ms.foldl (fun seen m => (seen.1, seen.2.push m)) seen = (seen.1, seen.2 ++ ms.toArray) := by
  induction ms generalizing seen with
  | nil => simp
  | cons m ms ih => simp [ih]

/-- An expression that is not too deep is read back. -/
theorem reader_toJson (h : e.depth ≤ 126) (s : List Char) :
    reader (e.toJson.compact ++ s) = .ok (e, s) := by
  have hbranches : ∀ b ∈ e.branches, ∀ s,
      readInner (b.toJson.compact ++ s) = .ok (b.toJson, s) :=
    fun b hb => readValue_toJson (lt_of_lt_of_le (depth_lt_of_mem_branches hb) h)
  have hfold := Json.foldMembers_eq_ok (readMember_op e.op)
    (readMember_members (fun m hm => (mem_members hm).1) (readValue_member hbranches)) s
  rw [foldl_push_members] at hfold
  rw [compact_toJson, reader_eq_ok hfold]
  · rfl
  · rw [Array.empty_append, List.toList_toArray, assemble_members]

/-- An expression that is too deep is refused at the bracket that is. -/
theorem reader_of_lt_depth (h : 127 ≤ e.depth) (s : List Char) :
    ∃ rest, Json.bracketBeyond 127 0 (e.toJson.compact ++ s) = some rest ∧
      reader (e.toJson.compact ++ s) = .error (.next .tooDeep rest) := by
  obtain ⟨before, after, key, b, hsplit, hdeep, hbefore⟩ := exists_deep_branch h
  obtain ⟨rest, hwalk, hread⟩ :=
    readValue_of_le_depth hdeep 1 (Value.compactMembers after ++ '}' :: s)
  have hkeys : ∀ m ∈ before ++ (key, b.toJson) :: after, m.1 ∈ memberKeys :=
    fun m hm => (mem_members (hsplit ▸ hm)).1
  refine ⟨rest, ?_, ?_⟩
  · rw [bracketBeyond_toJson, if_neg (by omega), hsplit]
    exact (bracketBeyond_split hsplit hbefore).trans hwalk
  · have hpass : ∀ m ∈ before, ∀ s, readInner (m.2.compact ++ s) = .ok (m.2, s) := by
      intro m hm s
      obtain ⟨b', hvalue, hdepth⟩ := hbefore m hm
      rw [hvalue]
      exact readValue_toJson hdepth s
    have hbad : ∀ seen, readMember seen key
        (':' :: b.toJson.compact ++ (Value.compactMembers after ++ '}' :: s)) =
          .error (.next .tooDeep rest) := by
      intro seen
      have hadd : Json.addMember readInner seen.2 key
          (':' :: b.toJson.compact ++ (Value.compactMembers after ++ '}' :: s)) = .error _ :=
        Json.addMember_eq_error hread
      rw [readMember_of_ne (memberKeys_ne_opKey _ (hkeys (key, b.toJson) (by simp))), hadd]
      rfl
    rw [compact_toJson, hsplit]
    exact reader_eq_error (Json.foldMembers_eq_error (readMember_op e.op)
      (readMember_members (fun m hm => hkeys m (List.mem_append_left _ hm)) hpass) hbad)

theorem oneLine_opName (op : Op) : Json.OneLine (Json.printString op.name) := by
  cases op <;> decide

theorem oneLine_leafName (l : Leaf) : Json.OneLine (Json.printString l.name) := by
  cases l <;> decide

theorem oneLine_memberKeys : ∀ key ∈ memberKeys, Json.OneLine (Json.printString key) := by
  decide

/-- Members stay on the line if their values do. -/
theorem oneLine_compactMembers {ms : List (List Char × Value)} (hkeys : ∀ m ∈ ms, m.1 ∈ memberKeys)
    (h : ∀ m ∈ ms, Json.OneLine m.2.compact) : Json.OneLine (Value.compactMembers ms) := by
  induction ms with
  | nil =>
    rw [Value.compactMembers]
    exact List.forall_mem_nil _
  | cons m ms ih =>
    obtain ⟨hkey, hkeys⟩ := List.forall_mem_cons.mp hkeys
    obtain ⟨hm, hms⟩ := List.forall_mem_cons.mp h
    have hcomma : Json.OneLine [','] := by decide
    have hcolon : Json.OneLine [':'] := by decide
    rw [Value.compactMembers]
    exact ((hcomma.append (oneLine_memberKeys _ hkey)).append (hcolon.append hm)).append
      (ih hkeys hms)

theorem oneLine_toJson (e : Expr) : Json.OneLine e.toJson.compact := by
  induction hd : e.depth using Nat.strong_induction_on generalizing e with
  | _ d ih =>
    subst hd
    have hmembers : Json.OneLine (Value.compactMembers e.members) := by
      apply oneLine_compactMembers fun m hm => (mem_members hm).1
      intro m hm
      rcases (mem_members hm).2 with ⟨l, hl⟩ | ⟨b, hb, hvalue⟩
      · rw [hl, Value.compact]
        exact oneLine_leafName l
      · rw [hvalue]
        exact ih _ (depth_lt_of_mem_branches hb) b rfl
    have htext : e.toJson.compact = ('{' :: Json.printString opKey ++ [':']) ++
        (Json.printString e.op.name ++ (Value.compactMembers e.members ++ ['}'])) := by
      rw [← List.append_nil e.toJson.compact, compact_toJson]
      simp only [List.cons_append, List.append_assoc, List.nil_append]
    have hopen : Json.OneLine ('{' :: Json.printString opKey ++ [':']) := by decide
    have hclose : Json.OneLine ['}'] := by decide
    rw [htext]
    exact hopen.append ((oneLine_opName e.op).append (hmembers.append hclose))

/-- **An expression is read back from its document exactly if it is at most 126 deep.** In the
document of a deeper one there is a bracket that is opened while 127 are open, and the first of them
is the place of the error. Grown expressions are read back, whatever value they are grown from and
wherever they begin. -/
theorem read_toJson :
    (∀ e : Expr,
      (e.depth ≤ 126 → Json.bracketBeyond 127 0 e.toJson.compact = none ∧
        read (String.ofList e.toJson.compact) = .ok e) ∧
      (127 ≤ e.depth → ∃ rest, Json.bracketBeyond 127 0 e.toJson.compact = some rest ∧
        read (String.ofList e.toJson.compact) =
          .error ⟨.tooDeep, some ⟨1, e.toJson.compact.length - rest.length + 1⟩⟩)) ∧
    ∀ (value : Float) (depth : ℕ),
      read (String.ofList (growAt value depth).toJson.compact) = .ok (growAt value depth) := by
  have hread : ∀ e : Expr, e.depth ≤ 126 →
      read (String.ofList e.toJson.compact) = .ok e := by
    intro e h
    have hreader := reader_toJson h []
    rw [List.append_nil] at hreader
    rw [read, Json.document, String.toList_ofList, hreader]
    rfl
  refine ⟨fun e => ⟨fun h => ⟨?_, hread e h⟩, ?_⟩, ?_⟩
  · have hwalk : Json.bracketBeyond 127 0 (e.toJson.compact ++ []) = none :=
      bracketBeyond_of_depth_lt (by omega) []
    rwa [List.append_nil] at hwalk
  · intro h
    obtain ⟨rest, hwalk, hreader⟩ := reader_of_lt_depth h []
    rw [List.append_nil] at hwalk hreader
    obtain ⟨hsuffix, hne⟩ := Json.suffix_of_bracketBeyond hwalk
    refine ⟨rest, hwalk, ?_⟩
    rw [read, Json.document, String.toList_ofList, hreader]
    show Except.error (Fault.inText _ (.next .tooDeep rest)) = _
    rw [Fault.inText, Fault.next, Option.map_some, (oneLine_toJson e).position_eq hsuffix hne]
  · intro value depth
    apply hread
    rw [(layered_growAt value depth).depth_eq]
    exact (Nat.sub_le _ _).trans (by decide)

theorem depth_iterate_sine (n : ℕ) (l : Leaf) : (sine^[n] (leaf l)).depth = n := by
  induction n with
  | zero => rfl
  | succ n ih => rw [Function.iterate_succ_apply', depth, ih, Nat.add_comm]

/-- The limit is met by sines of sines: 127 of them are one too many. -/
theorem read_toJson_sines :
    read (String.ofList (sine^[126] (leaf .x)).toJson.compact) = .ok (sine^[126] (leaf .x)) ∧
    ∃ position, read (String.ofList (sine^[127] (leaf .x)).toJson.compact) =
      .error ⟨.tooDeep, some position⟩ := by
  have hread := (read_toJson.1 (sine^[126] (leaf .x))).1 (depth_iterate_sine 126 .x).le
  obtain ⟨rest, -, hrefused⟩ :=
    (read_toJson.1 (sine^[127] (leaf .x))).2 (depth_iterate_sine 127 .x).ge
  exact ⟨hread.2, _, hrefused⟩

end Expr

end Identicon
