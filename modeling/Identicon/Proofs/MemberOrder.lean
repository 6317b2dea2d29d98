import Identicon.Proofs.Json.Acceptance
import Identicon.Proofs.Json.Kinds
import Identicon.Proofs.Nodes

/-!
# Expressions with members in any order

The outermost object or array of an expression is read piece by piece: its kind as a name, the rest
as values whose parts are looked at afterwards. Further in, everything is read as a value first. Yet
nothing else comes out than if the whole text were read as a value and the expression that the value
stands for were taken, except that the outermost kind may not be told by its number
(`read_eq_ok_iff`). As a value stands for the same expression in any order of its members, so does a
text.

## Main statements

* `read_eq_ok_iff`: the expression of a text is the one that its value stands for.
* `read_rearranged`: the order of members does not matter, at any depth.
-/

namespace Identicon.Expr

open Json (Value Piece Tree Blanks Slot Member ReadsAs ReadsAfterKey foldEntries decode)

variable {t : Tree} {e : Expr} {op : Op} {o : Option Op} {v v' : Value}

/-! ## Reading the outermost node -/

/-- What a member of the outermost object adds to what has been read. -/
def memberStep (seen : RawMembers) (key : List Char) (t : Tree) : Option RawMembers :=
  if key = opKey then
    (Json.once seen.1 (t.name? Op.names)).map fun op => (op, seen.2)
  else (t.value? (Json.greatestDepth - 1)).map fun v => (seen.1, seen.2.push (key, v))

/-- The node of a tree, if it is one, whose parts have not been looked at. -/
def rawNode? : Tree → Option RawNode
  | .object ms => (foldEntries memberStep (none, #[]) ms).bind fun seen =>
    seen.1.map fun op => ⟨op, .members (membersOfJson seen.2.toList)⟩
  | .array (t :: ts) => (t.name? Op.names).bind fun op =>
    (Tree.itemValues? (Json.greatestDepth - 1) ts).map fun vs => ⟨op, .items (itemsOfJson vs)⟩
  | _ => none

/-- The reader of members takes the step that the tree of the value tells. -/
theorem readsAfterKey_readMember (seen : RawMembers) (key : List Char) (t : Tree) :
    ReadsAfterKey (readMember seen key) t (memberStep seen key t) := by
  intro text ht after before rest hrest
  rw [readMember, memberStep]
  by_cases hop : key = opKey
  · have hfield := Json.readsAfterKey_readField (Json.readsAs_readName Op.names t) "op" seen.1
    rw [if_pos hop, if_pos hop]
    exact Json.toOption_map_of_eq (hfield text ht after before rest hrest) fun op => (op, seen.2)
  · have hmember := Json.readsAfterKey_addMember (Json.readsAs_readValue (Json.greatestDepth - 1) t)
      seen.2 key
    have hmap := Json.toOption_map_of_eq (hmember text ht after before rest hrest)
      fun members => (seen.1, members)
    rw [if_neg hop, if_neg hop]
    exact hmap.trans (congrArg (Option.map (·, rest)) (Option.map_map _ _ _))

theorem toOption_readMembers {members : List Member}
    (hmembers : ∀ m ∈ members, m.slot.tree.WrittenAs m.slot.text) (inside : Blanks)
    (s : List Char) :
    (readMembers
        (inside.text ++ (Json.separated (members.map Member.padded) ++ '}' :: s))).toOption =
      (rawNode? (.object (members.map Member.entry))).map (·, '}' :: s) := by
  rw [readMembers, Json.toOption_bind_of_eq
    (Json.foldMembers_members readsAfterKey_readMember hmembers (none, #[]) inside s), rawNode?]
  cases foldEntries memberStep (none, #[]) (members.map Member.entry) with
  | none => rfl
  | some seen =>
    obtain ⟨op, seen⟩ := seen
    cases op with
    | none | some => rfl

theorem toOption_readItems {slots : List Slot} (hslots : ∀ p ∈ slots, p.tree.WrittenAs p.text)
    (inside : Blanks) (s : List Char) :
    (readItems
        (inside.text ++ (Json.separated (slots.map Slot.padded) ++ ']' :: s))).toOption =
      (rawNode? (.array (slots.map Slot.tree))).map (·, ']' :: s) := by
  cases slots with
  | nil =>
    rw [readItems, Json.readItem?, List.map_nil, Json.separated, List.nil_append,
      Json.nextItem_bracket]
    rfl
  | cons p slots =>
    obtain ⟨hp, hslots⟩ := List.forall_mem_cons.mp hslots
    have hop := Json.readItem?_slot (Json.readsAs_readName Op.names p.tree) hp inside
      (Json.stops_items (slots.map Slot.padded) s)
    have hitems := Json.foldItems_slots_rest (fun items t => Json.readsAs_addItem
      (Json.readsAs_readValue (Json.greatestDepth - 1) t) items) hslots #[] p.after s
    rw [readItems, List.map_cons, Json.separated, List.append_assoc, Json.toOption_bind_of_eq hop,
      List.map_cons, rawNode?]
    cases p.tree.name? Op.names with
    | none => rfl
    | some op =>
      rw [Option.bind_some, Json.itemValues?_eq]
      refine (Json.toOption_bind_of_eq hitems _).trans ?_
      cases (slots.map Slot.tree).foldlM (fun items (t : Tree) =>
          (t.value? (Json.greatestDepth - 1)).map items.push) #[] with
      | none | some => rfl

theorem readsAs_readRecord (t : Tree) :
    ReadsAs (Json.readRecord expected readItems readMembers) t (rawNode? t) := by
  cases t with
  | object ms =>
    apply Json.readsAs_readRecord_object
    rintro members rfl hmembers inside s
    exact toOption_readMembers hmembers inside s
  | array ts =>
    apply Json.readsAs_readRecord_array
    rintro slots rfl hslots inside s
    exact toOption_readItems hslots inside s
  | null | boolean | number | string => exact Json.readsAs_readRecord_none nofun nofun

/-- An expression is put together from the outermost node. -/
theorem toOption_read {text : String} (h : t.WrittenIn text.toList) :
    (read text).toOption =
      (rawNode? t).bind fun node => (assemble node.op node.parts).toOption := by
  refine Json.toOption_document ?_ h
  intro text ht before rest hrest
  rw [reader, Json.toOption_bind_of_eq (readsAs_readRecord t text ht before rest hrest)]
  cases rawNode? t with
  | none => rfl
  | some node =>
    dsimp only [Option.bind_some]
    cases assemble node.op node.parts with
    | error | ok => rfl

/-! ## Reading values instead -/

/-- Whether a value is a string. -/
def IsName (v : Value) : Prop :=
  ∃ name, v = .string name

/-- The kind of the outermost node is told by its name, not by its number. -/
def NamesOp : Value → Prop
  | .object vs => ∀ v, (opKey, v) ∈ vs → IsName v
  | .array vs => ∀ v ∈ vs.head?, IsName v
  | _ => True

/-- A name is a kind if the string is. -/
theorem name?_eq_some_iff {n : ℕ} : t.name? Op.names = some op ↔
    ∃ v, t.value? n = some v ∧ IsName v ∧ Op.ofJson v = .ok op := by
  constructor
  · intro h
    cases t with
    | string ps =>
      obtain ⟨name, hname, hop⟩ := Option.bind_eq_some_iff.mp h
      refine ⟨.string name, ?_, ⟨name, rfl⟩, Json.toOption_eq_some_iff.mp hop⟩
      rw [Tree.value?, hname]
      rfl
    | null | boolean | number | array | object => cases h
  · rintro ⟨v, hv, ⟨name, rfl⟩, hop⟩
    obtain ⟨ps, rfl, hname⟩ := Json.exists_of_value?_eq_string hv
    rw [Tree.name?, hname, Option.bind_some]
    exact Json.toOption_eq_some_iff.mpr hop

theorem besidesOp_membersOfJson (vs : List (List Char × Value)) :
    besidesOp (membersOfJson vs) = membersOfJson (besidesOp vs) := by
  rw [membersOfJson_eq_map, membersOfJson_eq_map, besidesOp, besidesOp, List.filter_map]
  rfl

theorem namesOp_object_cons {key : List Char} {vs : List (List Char × Value)} :
    NamesOp (.object ((key, v) :: vs)) ↔ (key = opKey → IsName v) ∧ NamesOp (.object vs) := by
  constructor
  · intro h
    exact ⟨fun hop => h v (hop ▸ List.mem_cons_self), fun w hw => h w (List.mem_cons_of_mem _ hw)⟩
  · rintro ⟨hv, hvs⟩ w hw
    rcases List.mem_cons.mp hw with heq | hw
    · cases heq
      exact hv rfl
    · exact hvs w hw

/-- The kind is read once, from a string. -/
theorem memberStep_opKey_eq_some_iff {members : Array (List Char × Value)} {seen : RawMembers} :
    memberStep (o, members) opKey t = some seen ↔
      o = none ∧ ∃ v op, t.value? (Json.greatestDepth - 1) = some v ∧ IsName v ∧
        Op.ofJson v = .ok op ∧ seen = (some op, members) := by
  rw [memberStep, if_pos rfl]
  constructor
  · intro h
    obtain ⟨_, hkind, rfl⟩ := Option.map_eq_some_iff.mp h
    obtain ⟨hnew, op, hname, rfl⟩ := Json.exists_of_once_eq_some hkind
    obtain ⟨v, hv, hstring, hop⟩ := name?_eq_some_iff.mp hname
    exact ⟨Option.not_isSome_iff_eq_none.mp (Bool.eq_false_iff.mp hnew), v, op, hv, hstring, hop,
      rfl⟩
  · rintro ⟨rfl, v, op, hv, hstring, hop, rfl⟩
    rw [name?_eq_some_iff.mpr ⟨v, hv, hstring, hop⟩, Json.once_eq_some rfl]
    rfl

/-- Any other member is read as a value and kept. -/
theorem memberStep_ne_eq_some_iff {members : Array (List Char × Value)} {seen : RawMembers}
    {key : List Char} (h : key ≠ opKey) :
    memberStep (o, members) key t = some seen ↔
      ∃ v, t.value? (Json.greatestDepth - 1) = some v ∧ seen = (o, members.push (key, v)) := by
  rw [memberStep, if_neg h, Option.map_eq_some_iff]
  exact exists_congr fun v => and_congr_right fun _ => eq_comm

/-- Members that are read one after the other are those of the value, and the kind is the one that
is found among them. -/
theorem foldEntries_memberStep_eq_some_iff {ms : List (List Piece × Tree)}
    {members members' : Array (List Char × Value)} :
    foldEntries memberStep (o, members) ms = some (some op, members') ↔
      ∃ vs, Tree.memberValues? (Json.greatestDepth - 1) ms = some vs ∧ NamesOp (.object vs) ∧
        soleMember "op" (Op.ofJson ·.value) o (membersOfJson vs) = .ok op ∧
        members'.toList = members.toList ++ besidesOp vs := by
  -- The reader is ahead by the kind and the members so far, `o` and `members`, so that the values
  -- speak of the members that are left only.
  induction ms generalizing o members with
  | nil =>
    constructor
    · intro h
      cases h
      exact ⟨[], rfl, fun _ => nofun, rfl, (List.append_nil _).symm⟩
    · rintro ⟨vs, hvs, -, hsole, hmembers⟩
      cases hvs
      cases o with
      | none => cases hsole
      | some op' =>
        cases hsole
        rw [Array.toList_inj.mp (hmembers.trans (List.append_nil _))]
        rfl
  | cons m ms ih =>
    obtain ⟨ps, t⟩ := m
    have hpush : ∀ (key : List Char) (v : Value) (vs : List (List Char × Value)),
        (members.push (key, v)).toList ++ vs = members.toList ++ (key, v) :: vs := by
      intro key v vs
      rw [Array.toList_push, List.append_assoc, List.singleton_append]
    rw [Json.foldEntries_cons, Tree.memberValues?]
    constructor
    · intro h
      obtain ⟨seen, hstep, hfold⟩ := Option.bind_eq_some_iff.mp h
      obtain ⟨key, hkey, hstep⟩ := Option.bind_eq_some_iff.mp hstep
      by_cases hkind : key = opKey
      · subst hkind
        obtain ⟨rfl, v, op', hv, hstring, hop, rfl⟩ := memberStep_opKey_eq_some_iff.mp hstep
        obtain ⟨vs, hvs, hnames, hsole, hmembers⟩ := ih.mp hfold
        refine ⟨(opKey, v) :: vs, ?_, namesOp_object_cons.mpr ⟨fun _ => hstring, hnames⟩,
          soleMember_cons_self_eq_ok_iff.mpr ⟨rfl, op', hop, hsole⟩, ?_⟩
        · rw [hkey, hv, hvs]
          rfl
        · rw [hmembers, besidesOp_cons_op]
      · obtain ⟨v, hv, rfl⟩ := (memberStep_ne_eq_some_iff hkind).mp hstep
        obtain ⟨vs, hvs, hnames, hsole, hmembers⟩ := ih.mp hfold
        refine ⟨(key, v) :: vs, ?_, namesOp_object_cons.mpr ⟨fun h => absurd h hkind, hnames⟩,
          (soleMember_cons_ne hkind o).trans hsole, ?_⟩
        · rw [hkey, hv, hvs]
          rfl
        · rw [hmembers, besidesOp_cons_ne hkind, hpush]
    · rintro ⟨_, hvalues, hnames, hsole, hmembers⟩
      obtain ⟨key, hkey, hvalues⟩ := Option.bind_eq_some_iff.mp hvalues
      obtain ⟨v, hv, hvalues⟩ := Option.bind_eq_some_iff.mp hvalues
      obtain ⟨vs, hvs, heq⟩ := Option.bind_eq_some_iff.mp hvalues
      cases heq
      obtain ⟨hstring, hothers⟩ := namesOp_object_cons.mp hnames
      rw [hkey, Option.bind_some]
      by_cases hkind : key = opKey
      · subst hkind
        obtain ⟨rfl, op', hop, hsole⟩ := soleMember_cons_self_eq_ok_iff.mp hsole
        rw [besidesOp_cons_op] at hmembers
        rw [memberStep_opKey_eq_some_iff.mpr ⟨rfl, v, op', hv, hstring rfl, hop, rfl⟩]
        exact ih.mpr ⟨vs, hvs, hothers, hsole, hmembers⟩
      · rw [besidesOp_cons_ne hkind, ← hpush] at hmembers
        rw [(memberStep_ne_eq_some_iff hkind).mpr ⟨v, hv, rfl⟩]
        exact ih.mpr ⟨vs, hvs, hothers, (soleMember_cons_ne hkind o).symm.trans hsole, hmembers⟩

theorem value?_object (ms : List (List Piece × Tree)) :
    (Tree.object ms).value? Json.greatestDepth =
      (Tree.memberValues? (Json.greatestDepth - 1) ms).map .object := rfl

theorem value?_array (ts : List Tree) :
    (Tree.array ts).value? Json.greatestDepth =
      (Tree.itemValues? (Json.greatestDepth - 1) ts).map .array := rfl

/-- The node of an object is the one that its value stands for. -/
theorem rawNode?_object_eq_some_iff {ms : List (List Piece × Tree)} :
    ((rawNode? (.object ms)).bind fun node => (assemble node.op node.parts).toOption) = some e ↔
      ∃ v, (Tree.object ms).value? Json.greatestDepth = some v ∧ NamesOp v ∧ ofJson v = .ok e := by
  rw [value?_object, rawNode?]
  constructor
  · intro h
    obtain ⟨node, hnode, he⟩ := Option.bind_eq_some_iff.mp h
    obtain ⟨⟨o, members⟩, hfold, hnode⟩ := Option.bind_eq_some_iff.mp hnode
    obtain ⟨op, rfl, rfl⟩ := Option.map_eq_some_iff.mp hnode
    obtain ⟨vs, hvs, hnames, hsole, hmembers⟩ := foldEntries_memberStep_eq_some_iff.mp hfold
    refine ⟨.object vs, by rw [hvs, Option.map_some], hnames, ?_⟩
    rw [ofJson, ofMembers_eq_ok_iff]
    refine ⟨op, hsole, ?_⟩
    rw [besidesOp_membersOfJson, ← List.nil_append (besidesOp vs), ← hmembers]
    exact Json.toOption_eq_some_iff.mp he
  · rintro ⟨v, hv, hnames, he⟩
    obtain ⟨vs, hvs, rfl⟩ := Option.map_eq_some_iff.mp hv
    rw [ofJson, ofMembers_eq_ok_iff] at he
    obtain ⟨op, hsole, he⟩ := he
    have hfold : foldEntries memberStep (none, #[]) ms = some (some op, (besidesOp vs).toArray) :=
      foldEntries_memberStep_eq_some_iff.mpr ⟨vs, hvs, hnames, hsole, rfl⟩
    rw [besidesOp_membersOfJson] at he
    rw [hfold]
    exact Json.toOption_eq_some_iff.mpr he

/-- The node of an array is the one that its value stands for. -/
theorem rawNode?_array_eq_some_iff {ts : List Tree} :
    ((rawNode? (.array ts)).bind fun node => (assemble node.op node.parts).toOption) = some e ↔
      ∃ v, (Tree.array ts).value? Json.greatestDepth = some v ∧ NamesOp v ∧ ofJson v = .ok e := by
  rw [value?_array]
  cases ts with
  | nil =>
    refine ⟨nofun, ?_⟩
    rintro ⟨v, hv, -, he⟩
    cases hv
    cases he
  | cons t ts =>
    rw [rawNode?, Tree.itemValues?]
    constructor
    · intro h
      obtain ⟨node, hnode, he⟩ := Option.bind_eq_some_iff.mp h
      obtain ⟨op, hname, hnode⟩ := Option.bind_eq_some_iff.mp hnode
      obtain ⟨vs, hvs, rfl⟩ := Option.map_eq_some_iff.mp hnode
      obtain ⟨v, hv, hstring, hop⟩ := name?_eq_some_iff.mp hname
      refine ⟨.array (v :: vs), by rw [hv, hvs]; rfl, ?_, ?_⟩
      · rintro w ⟨⟩
        exact hstring
      · rw [ofJson, itemsOfJson, ofItems, hop]
        exact Json.toOption_eq_some_iff.mp he
    · rintro ⟨_, hvalue, hnames, he⟩
      obtain ⟨_, hitems, rfl⟩ := Option.map_eq_some_iff.mp hvalue
      obtain ⟨v, hv, hitems⟩ := Option.bind_eq_some_iff.mp hitems
      obtain ⟨vs, hvs, heq⟩ := Option.bind_eq_some_iff.mp hitems
      cases heq
      obtain ⟨op, hop, hnode⟩ := exists_of_bind_eq_ok he
      rw [name?_eq_some_iff.mpr ⟨v, hv, hnames v rfl, hop⟩, hvs]
      exact Json.toOption_eq_some_iff.mpr hnode

/-- **The expression of a text is the one that its value stands for**, if the outermost kind is told
by its name. -/
theorem read_eq_ok_iff {text : String} (h : t.WrittenIn text.toList) : read text = .ok e ↔
    ∃ v, t.value? Json.greatestDepth = some v ∧ NamesOp v ∧ ofJson v = .ok e := by
  rw [← Json.toOption_eq_some_iff, toOption_read h]
  cases t with
  | object => exact rawNode?_object_eq_some_iff
  | array => exact rawNode?_array_eq_some_iff
  | null | boolean =>
    refine ⟨nofun, ?_⟩
    rintro ⟨v, hv, -, he⟩
    cases hv
    cases he
  | number | string =>
    refine ⟨nofun, ?_⟩
    rintro ⟨v, hv, -, he⟩
    obtain ⟨_, -, rfl⟩ := Option.map_eq_some_iff.mp hv
    cases he

/-! ## Nothing but trees -/

theorem acceptsAfterKey_readMember (seen : RawMembers) (key : List Char) :
    Json.AcceptsAfterKey (readMember seen key) := by
  intro s seen' rest h
  rw [readMember] at h
  by_cases hop : key = opKey
  · rw [if_pos hop] at h
    obtain ⟨⟨op, s'⟩, hread, h⟩ := exists_of_bind_eq_ok h
    cases h
    exact Json.acceptsAfterKey_readField (Json.accepts_readName Op.names) "op" seen.1 _ _ _ hread
  · rw [if_neg hop] at h
    obtain ⟨⟨members, s'⟩, hread, h⟩ := exists_of_bind_eq_ok h
    cases h
    exact Json.acceptsAfterKey_addMember (Json.accepts_readValue .scaled (Json.greatestDepth - 1))
      seen.2 key _ _ _ hread

theorem itemsUpTo_of_readItems {s rest : List Char} {node : RawNode}
    (h : readItems s = .ok (node, rest)) : Json.ItemsUpTo s rest := by
  obtain ⟨⟨op, s₁⟩, hop, h⟩ := exists_of_bind_eq_ok h
  obtain ⟨⟨more, s₂⟩, hnext, hop⟩ := exists_of_bind_eq_ok hop
  cases more with
  | false =>
    -- an array without items has no kind
    cases hop
    cases h
  | true =>
    obtain ⟨⟨op', s₃⟩, hname, hop⟩ := exists_of_bind_eq_ok hop
    cases hop
    obtain ⟨⟨items, s₄⟩, hfold, h⟩ := exists_of_bind_eq_ok h
    cases h
    exact Json.itemsUpTo_of_nextItem
      (Json.accepts_addItem (Json.accepts_readValue .scaled (Json.greatestDepth - 1))) hnext
      (Json.accepts_readName Op.names _ _ _ hname) hfold

theorem membersUpTo_of_readMembers {s rest : List Char} {node : RawNode}
    (h : readMembers s = .ok (node, rest)) : Json.MembersUpTo s rest := by
  obtain ⟨⟨seen, s₁⟩, hfold, h⟩ := exists_of_bind_eq_ok h
  obtain ⟨op, -, h⟩ := exists_of_bind_eq_ok h
  cases h
  exact Json.membersUpTo_of_foldMembers_eq_ok acceptsAfterKey_readMember hfold

/-- Nothing is read as an expression but trees. -/
theorem accepts_reader : Json.Accepts reader := by
  intro s e rest h
  obtain ⟨⟨node, s₁⟩, hread, h⟩ := exists_of_bind_eq_ok h
  have haccepts : Json.Accepts (Json.readRecord expected readItems readMembers) :=
    Json.accepts_readRecord (fun _ _ _ => itemsUpTo_of_readItems)
      fun _ _ _ => membersUpTo_of_readMembers
  dsimp only at h
  split at h
  · cases h
    exact haccepts s node rest hread
  · cases h

/-! ## Members in another order -/

/-- A name has nothing to rearrange. -/
theorem isName_rearranged (h : v.Rearranged v') (hv : IsName v) : IsName v' := by
  obtain ⟨name, rfl⟩ := hv
  exact ⟨name, h.eq_of_hasParts rfl⟩

theorem namesOp_rearranged (h : v.Rearranged v') (hv : NamesOp v) : NamesOp v' := by
  induction h with
  | refl => exact hv
  | trans _ _ ih ih' => exact ih' (ih hv)
  | members hperm => exact fun w hw => hv w (hperm.mem_iff.mpr hw)
  | member before after key h =>
    intro w hw
    rcases List.mem_append.mp hw with hw | hw
    · exact hv w (List.mem_append_left _ hw)
    rcases List.mem_cons.mp hw with heq | hw
    · cases heq
      exact isName_rearranged h (hv _ (List.mem_append_right _ List.mem_cons_self))
    · exact hv w (List.mem_append_right _ (List.mem_cons_of_mem _ hw))
  | item before after h =>
    cases before with
    | nil =>
      rintro w ⟨⟩
      exact isName_rearranged h (hv _ rfl)
    | cons => exact hv

/-- **Expressions are read with their members in any order.** What is read as an expression is the
text of a tree, and every text of the tree with the members of any objects in it in another order,
at any depth and with any blanks, is read as the same expression. -/
theorem read_rearranged :
    (∀ (text : String) (e : Expr), read text = .ok e → ∃ t : Tree, t.WrittenIn text.toList) ∧
    ∀ (t t' : Tree) (text text' : String) (e : Expr), t.WrittenIn text.toList →
      t'.WrittenIn text'.toList → t.Rearranged t' → read text = .ok e → read text' = .ok e := by
  constructor
  · intro text e h
    exact Json.exists_writtenIn_of_document accepts_reader h
  · intro t t' text text' e ht ht' hrearranged h
    obtain ⟨v, hv, hnames, he⟩ := (read_eq_ok_iff ht).mp h
    obtain ⟨v', hv', hvv'⟩ := hrearranged.exists_value? hv
    -- a kind that is told by its name stays a name wherever its member goes
    exact (read_eq_ok_iff ht').mpr
      ⟨v', hv', namesOp_rearranged hvv' hnames, ofJson_rearranged hvv' he⟩

/-- A member without blanks. -/
def bareMember (key : String) (h : key.toList.all Json.isPlain = true) (t : Tree)
    (text : List Char) : Member :=
  ⟨.none, Json.unescaped key.toList h, .none, ⟨.none, t, text, .none⟩⟩

/-- A member without blanks whose value is a string. -/
def nameMember (key name : String) (hkey : key.toList.all Json.isPlain = true)
    (hname : name.toList.all Json.isPlain = true) : Member :=
  bareMember key hkey (.string (Json.unescaped name.toList hname))
    ('"' :: Json.quotedRest (Json.unescaped name.toList hname))

/-- The members of a leaf, and one that belongs to products. -/
def leafMembers : List Member :=
  [nameMember "op" "terminal" rfl rfl, nameMember "kind" "X" rfl rfl,
    bareMember "lhs" rfl .null "null".toList]

/-- The members of the sine of a node with these members. -/
def sineMembers (arg : List Member) : List Member :=
  [nameMember "op" "sine" rfl rfl, bareMember "arg" rfl (.object (arg.map Member.entry))
    ('{' :: (Json.separated (arg.map Member.padded) ++ ['}']))]

theorem writtenAs_leafMembers : ∀ m ∈ leafMembers, m.slot.tree.WrittenAs m.slot.text :=
  List.forall_mem_cons.mpr ⟨.string _, List.forall_mem_cons.mpr ⟨.string _,
    List.forall_mem_singleton.mpr .null⟩⟩

theorem writtenAs_sineMembers {arg : List Member}
    (h : ∀ m ∈ arg, m.slot.tree.WrittenAs m.slot.text) :
    ∀ m ∈ sineMembers arg, m.slot.tree.WrittenAs m.slot.text :=
  List.forall_mem_cons.mpr ⟨.string _, List.forall_mem_singleton.mpr (.object .none arg h)⟩

/-- The sine of a leaf, with the kinds of the nodes first. -/
def sineText : String :=
  "\x7b\"op\":\"sine\",\"arg\":\x7b\"op\":\"terminal\",\"kind\":\"X\",\"lhs\":null\x7d\x7d"

/-- The sine of a leaf, with the kinds of the nodes last and a blank in front. -/
def sineTextReversed : String :=
  " \x7b\"arg\":\x7b\"lhs\":null,\"kind\":\"X\",\"op\":\"terminal\"\x7d,\"op\":\"sine\"\x7d"

/-- The value of the sine of a leaf. -/
def sineValue : Value :=
  .object [(opKey, .string "sine".toList), ("arg".toList,
    .object [(opKey, .string "terminal".toList), ("kind".toList, .string "X".toList),
      ("lhs".toList, .null)])]

theorem namesOp_sineValue : NamesOp sineValue :=
  namesOp_object_cons.mpr ⟨fun _ => ⟨_, rfl⟩,
    namesOp_object_cons.mpr ⟨fun h => absurd h (by decide), fun _ => nofun⟩⟩

/-- The kind of a node may come first or last, outside and inside. -/
theorem read_rearranged_sine :
    read sineText = .ok (.sine (.leaf .x)) ∧ read sineTextReversed = .ok (.sine (.leaf .x)) := by
  have hleaf := writtenAs_leafMembers
  have hleaf' : ∀ m ∈ leafMembers.reverse, m.slot.tree.WrittenAs m.slot.text := fun m hm =>
    hleaf m (List.mem_reverse.mp hm)
  have htext : (Tree.object ((sineMembers leafMembers).map Member.entry)).WrittenIn
      sineText.toList :=
    ⟨.none, .none, _, .object .none _ (writtenAs_sineMembers hleaf), rfl⟩
  have htext' : (Tree.object ((sineMembers leafMembers.reverse).reverse.map Member.entry)).WrittenIn
      sineTextReversed.toList :=
    ⟨.space, .none, _, .object .none _ fun m hm =>
      writtenAs_sineMembers hleaf' m (List.mem_reverse.mp hm), rfl⟩
  have hread : read sineText = .ok (.sine (.leaf .x)) :=
    (read_eq_ok_iff htext).mpr ⟨sineValue, rfl, namesOp_sineValue, rfl⟩
  have hinside : (Tree.object (leafMembers.map Member.entry)).Rearranged
      (.object (leafMembers.reverse.map Member.entry)) := .members (List.reverse_perm _).symm
  have hrearranged : (Tree.object ((sineMembers leafMembers).map Member.entry)).Rearranged
      (.object ((sineMembers leafMembers.reverse).reverse.map Member.entry)) :=
    .trans (.member [_] [] _ hinside) (.members (List.reverse_perm _).symm)
  exact ⟨hread, read_rearranged.2 _ _ _ _ _ htext htext' hrearranged hread⟩

end Identicon.Expr
