import Identicon.Expr.Document
import Identicon.Proofs.Channels
import Identicon.Proofs.Json.Rearranging

/-!
# Nodes from members in any order

A node is put together from the members of an object, one after the other. That it can be put
together, and what comes out, depends on the members only through `named`: each part has to be the
only one with its key, and members with other keys do not matter. So neither the order of the
members shows nor anything about a part but what it stands for. As rearranging a value keeps what
its parts stand for (`Part.Kept`), it keeps what the value stands for.

## Main statements

* `soleMember_eq_ok_iff`, `factorMembers_eq_ok_iff`, `splitOp_eq_ok_iff`: what is put together from
  members.
* `ofMembers_kept`, `ofItems_kept`: nodes depend on what their parts stand for.
* `ofJson_rearranged`: rearranged values stand for the same expression.
-/

namespace Identicon

open Json (Value Mismatch)

namespace Expr

variable {α : Type} {name : String} {read : Part → Except Mismatch α} {a : α} {e : Expr} {op : Op}
  {ms ms' : List (List Char × Part)} {ps ps' : List Part} {p p' : Part} {key : List Char}

/-! ## Parts -/

/-- A value as a part of a node. -/
def part (v : Value) : Part :=
  ⟨v, ofJson v⟩

theorem membersOfJson_eq_map (vs : List (List Char × Value)) :
    membersOfJson vs = vs.map fun m => (m.1, part m.2) := by
  induction vs with
  | nil => rfl
  | cons m vs ih =>
    obtain ⟨key, v⟩ := m
    rw [membersOfJson, ih]
    rfl

theorem itemsOfJson_eq_map (vs : List Value) : itemsOfJson vs = vs.map part := by
  induction vs with
  | nil => rfl
  | cons v vs ih =>
    rw [itemsOfJson, ih]
    rfl

/-- Whatever `p` stands for, as a kind, as a leaf or as an expression, `p'` stands for as well. -/
structure Part.Kept (p p' : Part) : Prop where
  op : ∀ op, Op.ofJson p.value = .ok op → Op.ofJson p'.value = .ok op
  leaf : ∀ l, Leaf.ofJson p.value = .ok l → Leaf.ofJson p'.value = .ok l
  expr : ∀ e, p.asExpr = .ok e → p'.asExpr = .ok e

theorem Part.Kept.refl (p : Part) : p.Kept p :=
  ⟨fun _ => id, fun _ => id, fun _ => id⟩

theorem Part.Kept.trans {p₁ p₂ p₃ : Part} (h : p₁.Kept p₂) (h' : p₂.Kept p₃) : p₁.Kept p₃ :=
  ⟨fun op hop => h'.op op (h.op op hop), fun l hl => h'.leaf l (h.leaf l hl),
    fun e he => h'.expr e (h.expr e he)⟩

/-! ## Members -/

/-- The parts that are members with this key. -/
def named (key : List Char) (ms : List (List Char × Part)) : List Part :=
  ms.filterMap fun m => if m.1 = key then some m.2 else none

theorem named_cons_self (key : List Char) (p : Part) (ms : List (List Char × Part)) :
    named key ((key, p) :: ms) = p :: named key ms :=
  List.filterMap_cons_some (if_pos rfl)

theorem named_cons_ne {key' : List Char} (h : key' ≠ key) (p : Part)
    (ms : List (List Char × Part)) : named key ((key', p) :: ms) = named key ms :=
  List.filterMap_cons_none (if_neg h)

theorem soleMember_cons_ne (h : key ≠ name.toList) (seen : Option α) :
    soleMember name read seen ((key, p) :: ms) = soleMember name read seen ms := by
  cases seen with
  | none | some => exact if_neg h

/-- A part with the key is read, and it must not have been found before. -/
theorem soleMember_cons_self_eq_ok_iff {seen : Option α} :
    soleMember name read seen ((name.toList, p) :: ms) = .ok a ↔
      seen = none ∧ ∃ a', read p = .ok a' ∧ soleMember name read (some a') ms = .ok a := by
  cases seen with
  | some a' =>
    rw [soleMember, if_pos rfl]
    exact ⟨nofun, fun h => nomatch h.1⟩
  | none =>
    have hstep : soleMember name read none ((name.toList, p) :: ms) = (do
        soleMember name read (some (← read p)) ms) := if_pos rfl
    rw [hstep]
    constructor
    · intro h
      exact ⟨rfl, exists_of_bind_eq_ok h⟩
    · rintro ⟨-, a', ha', h⟩
      rw [ha']
      exact h

/-- Where a part has been found, there is no other with its key. -/
theorem soleMember_some_eq_ok_iff {a' : α} :
    soleMember name read (some a') ms = .ok a ↔ named name.toList ms = [] ∧ a' = a := by
  induction ms with
  | nil =>
    rw [soleMember, Except.ok.injEq]
    exact ⟨fun h => ⟨rfl, h⟩, And.right⟩
  | cons m ms ih =>
    obtain ⟨key, p⟩ := m
    by_cases hkey : key = name.toList
    · rw [hkey, soleMember_cons_self_eq_ok_iff, named_cons_self]
      exact ⟨nofun, fun h => absurd h.1 (List.cons_ne_nil _ _)⟩
    · rw [soleMember_cons_ne hkey, named_cons_ne hkey, ih]

/-- The sole part with a key. -/
theorem soleMember_eq_ok_iff :
    soleMember name read none ms = .ok a ↔ ∃ p, named name.toList ms = [p] ∧ read p = .ok a := by
  induction ms with
  | nil =>
    rw [soleMember]
    exact ⟨nofun, fun ⟨_, h, _⟩ => absurd h.symm (List.cons_ne_nil _ _)⟩
  | cons m ms ih =>
    obtain ⟨key, p⟩ := m
    by_cases hkey : key = name.toList
    · rw [hkey, soleMember_cons_self_eq_ok_iff, named_cons_self]
      constructor
      · rintro ⟨-, a', ha', h⟩
        obtain ⟨hms, rfl⟩ := soleMember_some_eq_ok_iff.mp h
        exact ⟨p, by rw [hms], ha'⟩
      · rintro ⟨p', hp, ha⟩
        obtain ⟨rfl, hms⟩ := List.cons.inj hp
        exact ⟨rfl, a, ha, soleMember_some_eq_ok_iff.mpr ⟨hms, rfl⟩⟩
    · rw [soleMember_cons_ne hkey, named_cons_ne hkey, ih]

/-- A member is looked at as the left factor first, whatever has been found so far. -/
theorem factorMembers_cons {lhs rhs : Option Expr} :
    factorMembers lhs rhs ((key, p) :: ms) =
      if key = "lhs".toList then
        match lhs with
        | some _ => .error (.duplicateField "lhs")
        | none => do factorMembers (some (← p.asExpr)) rhs ms
      else if key = "rhs".toList then
        match rhs with
        | some _ => .error (.duplicateField "rhs")
        | none => do factorMembers lhs (some (← p.asExpr)) ms
      else factorMembers lhs rhs ms := by
  cases lhs <;> cases rhs <;> rfl

/-- Each factor is looked for as if the other were not. -/
theorem factorMembers_eq_ok_iff {lhs rhs : Option Expr} {l r : Expr} :
    factorMembers lhs rhs ms = .ok (l, r) ↔
      soleMember "lhs" (·.asExpr) lhs ms = .ok l ∧ soleMember "rhs" (·.asExpr) rhs ms = .ok r := by
  induction ms generalizing lhs rhs with
  | nil =>
    cases lhs with
    | none => exact ⟨nofun, fun h => nomatch h.1⟩
    | some lhs =>
      cases rhs with
      | none => exact ⟨nofun, fun h => nomatch h.2⟩
      | some rhs => simp only [factorMembers, soleMember, Except.ok.injEq, Prod.mk.injEq]
  | cons m ms ih =>
    obtain ⟨key, p⟩ := m
    rw [factorMembers_cons]
    by_cases hlhs : key = "lhs".toList
    · have hrhs : key ≠ "rhs".toList := by
        rw [hlhs]
        decide
      rw [if_pos hlhs, soleMember_cons_ne hrhs, hlhs, soleMember_cons_self_eq_ok_iff]
      cases lhs with
      | some => exact ⟨nofun, fun h => nomatch h.1.1⟩
      | none =>
        cases p.asExpr with
        | error => exact ⟨nofun, fun ⟨⟨_, _, h, _⟩, _⟩ => nomatch h⟩
        | ok e => simp only [ok_bind, ih, Except.ok.injEq, exists_eq_left', true_and]
    · rw [if_neg hlhs, soleMember_cons_ne hlhs]
      by_cases hrhs : key = "rhs".toList
      · rw [if_pos hrhs, hrhs, soleMember_cons_self_eq_ok_iff]
        cases rhs with
        | some => exact ⟨nofun, fun h => nomatch h.2.1⟩
        | none =>
          cases p.asExpr with
          | error => exact ⟨nofun, fun ⟨_, _, _, h, _⟩ => nomatch h⟩
          | ok e => simp only [ok_bind, ih, Except.ok.injEq, exists_eq_left', true_and]
      · rw [if_neg hrhs, soleMember_cons_ne hrhs, ih]

/-- The members that do not tell the kind of a node. -/
def besidesOp {β : Type} (ms : List (List Char × β)) : List (List Char × β) :=
  ms.filter (·.1 ≠ opKey)

theorem besidesOp_cons_op {β : Type} (b : β) (ms : List (List Char × β)) :
    besidesOp ((opKey, b) :: ms) = besidesOp ms :=
  List.filter_cons_of_neg (by simp)

theorem besidesOp_cons_ne {β : Type} (h : key ≠ opKey) (b : β) (ms : List (List Char × β)) :
    besidesOp ((key, b) :: ms) = (key, b) :: besidesOp ms :=
  List.filter_cons_of_pos (by simpa using h)

theorem named_besidesOp (h : key ≠ opKey) : named key (besidesOp ms) = named key ms := by
  induction ms with
  | nil => rfl
  | cons m ms ih =>
    obtain ⟨key', p⟩ := m
    by_cases hop : key' = opKey
    · rw [hop, besidesOp_cons_op, named_cons_ne h.symm, ih]
    · rw [besidesOp_cons_ne hop]
      by_cases hkey : key' = key
      · rw [hkey, named_cons_self, named_cons_self, ih]
      · rw [named_cons_ne hkey, named_cons_ne hkey, ih]

theorem named_opKey_besidesOp : named opKey (besidesOp ms) = [] := by
  induction ms with
  | nil => rfl
  | cons m ms ih =>
    obtain ⟨key, p⟩ := m
    by_cases hop : key = opKey
    · rw [hop, besidesOp_cons_op, ih]
    · rw [besidesOp_cons_ne hop, named_cons_ne hop, ih]

theorem splitOp_cons {seen : Option Op} :
    splitOp seen ((key, p) :: ms) =
      if key = opKey then
        match seen with
        | some _ => .error (.duplicateField "op")
        | none => do splitOp (some (← Op.ofJson p.value)) ms
      else do
        let (op, rest) ← splitOp seen ms
        return (op, (key, p) :: rest) := by
  cases seen with
  | none | some => rfl

/-- The kind of a node is looked for as any part is, and the other members are left. -/
theorem splitOp_eq_ok_iff {seen : Option Op} {rest : List (List Char × Part)} :
    splitOp seen ms = .ok (op, rest) ↔
      soleMember "op" (Op.ofJson ·.value) seen ms = .ok op ∧ rest = besidesOp ms := by
  induction ms generalizing seen rest with
  | nil =>
    cases seen with
    | none => exact ⟨nofun, fun h => nomatch h.1⟩
    | some op' =>
      rw [splitOp, soleMember, Except.ok.injEq, Except.ok.injEq, Prod.mk.injEq]
      exact and_congr_right fun _ => eq_comm
  | cons m ms ih =>
    obtain ⟨key, p⟩ := m
    rw [splitOp_cons]
    by_cases hop : key = opKey
    · rw [if_pos hop, hop, besidesOp_cons_op, opKey, soleMember_cons_self_eq_ok_iff]
      cases seen with
      | some => exact ⟨nofun, fun h => nomatch h.1.1⟩
      | none =>
        cases Op.ofJson p.value with
        | error => exact ⟨nofun, fun ⟨⟨_, _, h, _⟩, _⟩ => nomatch h⟩
        | ok op' => simp only [ok_bind, ih, Except.ok.injEq, exists_eq_left', true_and]
    · rw [if_neg hop, soleMember_cons_ne hop, besidesOp_cons_ne hop]
      constructor
      · intro h
        obtain ⟨⟨op', rest'⟩, hsplit, h⟩ := exists_of_bind_eq_ok h
        cases h
        obtain ⟨hsole, rfl⟩ := ih.mp hsplit
        exact ⟨hsole, rfl⟩
      · rintro ⟨hsole, rfl⟩
        rw [ih.mpr ⟨hsole, rfl⟩]
        rfl

theorem ofMembers_eq_ok_iff : ofMembers ms = .ok e ↔
    ∃ op, soleMember "op" (Op.ofJson ·.value) none ms = .ok op ∧
      assemble op (.members (besidesOp ms)) = .ok e := by
  constructor
  · intro h
    obtain ⟨⟨op, rest⟩, hsplit, hnode⟩ := exists_of_bind_eq_ok h
    obtain ⟨hop, rfl⟩ := splitOp_eq_ok_iff.mp hsplit
    exact ⟨op, hop, hnode⟩
  · rintro ⟨op, hop, hnode⟩
    rw [ofMembers, splitOp_eq_ok_iff.mpr ⟨hop, rfl⟩]
    exact hnode

/-! ## Members that stand for the same -/

/-- Each part that is the only one with its key has a counterpart that stands for what it does. -/
def MembersKept (ms ms' : List (List Char × Part)) : Prop :=
  ∀ key p, named key ms = [p] → ∃ p', named key ms' = [p'] ∧ p.Kept p'

theorem membersKept_of_perm (h : ms.Perm ms') : MembersKept ms ms' := by
  intro key p hp
  have hperm : [p].Perm (named key ms') := hp ▸ h.filterMap _
  exact ⟨p, (List.singleton_perm.mp hperm).symm, .refl p⟩

theorem membersKept_of_kept (before after : List (List Char × Part)) (key : List Char)
    (h : p.Kept p') : MembersKept (before ++ (key, p) :: after) (before ++ (key, p') :: after) := by
  intro key' q hq
  by_cases hkey : key = key'
  · subst hkey
    have happend : ∀ p, named key (before ++ (key, p) :: after) =
        named key before ++ p :: named key after := fun p =>
      List.filterMap_append.trans (congrArg _ (named_cons_self key p after))
    rw [happend, List.append_eq_singleton_iff] at hq
    obtain ⟨hbefore, hp⟩ | ⟨-, hp⟩ := hq
    · obtain ⟨rfl, hafter⟩ := List.cons.inj hp
      exact ⟨p', by rw [happend, hbefore, hafter, List.nil_append], h⟩
    · -- the part before it with the same key would be a second one
      cases hp
  · have happend : ∀ p, named key' (before ++ (key, p) :: after) =
        named key' before ++ named key' after := fun p =>
      List.filterMap_append.trans (congrArg _ (named_cons_ne hkey p after))
    exact ⟨q, by rw [happend, ← happend p, hq], .refl q⟩

theorem MembersKept.besidesOp (h : MembersKept ms ms') :
    MembersKept (besidesOp ms) (Expr.besidesOp ms') := by
  intro key p hp
  by_cases hop : key = opKey
  · rw [hop, named_opKey_besidesOp] at hp
    cases hp
  · rw [named_besidesOp hop] at hp ⊢
    exact h key p hp

theorem soleMember_kept (h : MembersKept ms ms')
    (hread : ∀ p p', p.Kept p' → read p = .ok a → read p' = .ok a)
    (hok : soleMember name read none ms = .ok a) : soleMember name read none ms' = .ok a := by
  obtain ⟨p, hp, ha⟩ := soleMember_eq_ok_iff.mp hok
  obtain ⟨p', hp', hkept⟩ := h _ p hp
  exact soleMember_eq_ok_iff.mpr ⟨p', hp', hread p p' hkept ha⟩

theorem assemble_members_kept (h : MembersKept ms ms')
    (hok : assemble op (.members ms) = .ok e) : assemble op (.members ms') = .ok e := by
  cases op with
  | terminal =>
    obtain ⟨l, hl, hok⟩ := exists_of_bind_eq_ok hok
    rw [assemble, soleMember_kept h (fun _ _ hkept => hkept.leaf l) hl]
    exact hok
  | product =>
    obtain ⟨⟨l, r⟩, hfactors, hok⟩ := exists_of_bind_eq_ok hok
    obtain ⟨hl, hr⟩ := factorMembers_eq_ok_iff.mp hfactors
    rw [assemble, factorMembers_eq_ok_iff.mpr
      ⟨soleMember_kept h (fun _ _ hkept => hkept.expr l) hl,
        soleMember_kept h (fun _ _ hkept => hkept.expr r) hr⟩]
    exact hok
  | sine | cosine =>
    obtain ⟨arg, harg, hok⟩ := exists_of_bind_eq_ok hok
    rw [assemble, soleMember_kept h (fun _ _ hkept => hkept.expr arg) harg]
    exact hok

/-- The node of an object depends on what its members stand for, and not on their order. -/
theorem ofMembers_kept (h : MembersKept ms ms') (hok : ofMembers ms = .ok e) :
    ofMembers ms' = .ok e := by
  obtain ⟨op, hop, hnode⟩ := ofMembers_eq_ok_iff.mp hok
  exact ofMembers_eq_ok_iff.mpr ⟨op, soleMember_kept h (fun _ _ hkept => hkept.op op) hop,
    assemble_members_kept h.besidesOp hnode⟩

/-! ## Items that stand for the same -/

theorem soleItem_eq_ok_iff {node : String} :
    soleItem node read ps = .ok a ↔ ∃ p, ps = [p] ∧ read p = .ok a := by
  constructor
  · intro h
    cases ps with
    | nil => cases h
    | cons p ps =>
      obtain ⟨a', ha', h⟩ := exists_of_bind_eq_ok h
      cases ps with
      | nil =>
        cases h
        exact ⟨p, rfl, ha'⟩
      | cons => cases h
  · rintro ⟨p, rfl, ha⟩
    rw [soleItem, ha]
    rfl

theorem factorItems_eq_ok_iff {l r : Expr} :
    factorItems ps = .ok (l, r) ↔ ∃ p q, ps = [p, q] ∧ p.asExpr = .ok l ∧ q.asExpr = .ok r := by
  constructor
  · intro h
    match ps with
    | [] => cases h
    | [p] =>
      obtain ⟨_, -, h⟩ := exists_of_bind_eq_ok h
      cases h
    | p :: q :: ps =>
      obtain ⟨l', hl, h⟩ := exists_of_bind_eq_ok h
      obtain ⟨r', hr, h⟩ := exists_of_bind_eq_ok h
      cases ps with
      | nil =>
        cases h
        exact ⟨p, q, rfl, hl, hr⟩
      | cons => cases h
  · rintro ⟨p, q, rfl, hl, hr⟩
    rw [factorItems, hl, hr]
    rfl

theorem soleItem_kept {node : String} (h : List.Forall₂ Part.Kept ps ps')
    (hread : ∀ p p', p.Kept p' → read p = .ok a → read p' = .ok a)
    (hok : soleItem node read ps = .ok a) : soleItem node read ps' = .ok a := by
  obtain ⟨p, rfl, ha⟩ := soleItem_eq_ok_iff.mp hok
  cases h with
  | @cons _ p' _ _ hp hps =>
    cases hps
    exact soleItem_eq_ok_iff.mpr ⟨p', rfl, hread p p' hp ha⟩

theorem assemble_items_kept (h : List.Forall₂ Part.Kept ps ps')
    (hok : assemble op (.items ps) = .ok e) : assemble op (.items ps') = .ok e := by
  cases op with
  | terminal =>
    obtain ⟨l, hl, hok⟩ := exists_of_bind_eq_ok hok
    rw [assemble, soleItem_kept h (fun _ _ hkept => hkept.leaf l) hl]
    exact hok
  | product =>
    obtain ⟨⟨l, r⟩, hfactors, hnode⟩ := exists_of_bind_eq_ok hok
    obtain ⟨p, q, rfl, hl, hr⟩ := factorItems_eq_ok_iff.mp hfactors
    obtain ⟨p', qs', hp, hqs, rfl⟩ := List.forall₂_cons_left_iff.mp h
    obtain ⟨q', rs', hq, hrs, rfl⟩ := List.forall₂_cons_left_iff.mp hqs
    rw [List.forall₂_nil_left_iff.mp hrs, assemble,
      factorItems_eq_ok_iff.mpr ⟨p', q', rfl, hp.expr l hl, hq.expr r hr⟩, ok_bind]
    exact hnode
  | sine | cosine =>
    obtain ⟨arg, harg, hok⟩ := exists_of_bind_eq_ok hok
    rw [assemble, soleItem_kept h (fun _ _ hkept => hkept.expr arg) harg]
    exact hok

/-- The node of an array depends on what its items stand for. -/
theorem ofItems_kept (h : List.Forall₂ Part.Kept ps ps') (hok : ofItems ps = .ok e) :
    ofItems ps' = .ok e := by
  cases h with
  | nil => cases hok
  | cons hp hps =>
    obtain ⟨op, hop, hnode⟩ := exists_of_bind_eq_ok hok
    rw [ofItems, hp.op op hop]
    exact assemble_items_kept hps hnode

/-! ## Values that stand for the same -/

/-- The leaf of an object with one member depends on its key, and that its value holds nothing. -/
theorem leaf_member_kept {before after : List (List Char × Value)} {v v' : Value} {l : Leaf}
    (h : v.Rearranged v') (hok : Leaf.ofJson (.object (before ++ (key, v) :: after)) = .ok l) :
    Leaf.ofJson (.object (before ++ (key, v') :: after)) = .ok l := by
  match before, after with
  | [], [] =>
    -- a value that holds nothing is the same in any order
    have hparts : v.hasParts = false := by
      obtain ⟨l', -, hok⟩ := exists_of_bind_eq_ok hok
      match v with
      | .null | .object [] => rfl
      | .boolean _ | .number _ | .string _ | .array _ | .object (_ :: _) => cases hok
    rw [h.eq_of_hasParts hparts]
    exact hok
  | [], _ :: _ | [_], _ | _ :: _ :: _, _ => cases hok

/-- Rearranging a value keeps what it stands for. -/
theorem part_kept {v v' : Value} (h : v.Rearranged v') : (part v).Kept (part v') := by
  induction h with
  | refl v => exact .refl _
  | trans _ _ ih ih' => exact ih.trans ih'
  | @members vs vs' hperm =>
    refine ⟨nofun, fun l hl => ?_, fun e he => ?_⟩
    · -- a leaf has only one member
      match vs with
      | [m] => rwa [← List.singleton_perm.mp hperm]
      | [] | _ :: _ :: _ => cases hl
    · rw [part, ofJson, membersOfJson_eq_map] at he ⊢
      exact ofMembers_kept (membersKept_of_perm (hperm.map _)) he
  | member before after key h ih =>
    refine ⟨nofun, fun l hl => leaf_member_kept h hl, fun e he => ?_⟩
    rw [part, ofJson, membersOfJson_eq_map, List.map_append, List.map_cons] at he ⊢
    exact ofMembers_kept (membersKept_of_kept _ _ key ih) he
  | item before after h ih =>
    refine ⟨nofun, nofun, fun e he => ?_⟩
    rw [part, ofJson, itemsOfJson_eq_map, List.map_append, List.map_cons] at he ⊢
    have hrefl : ∀ ps : List Part, List.Forall₂ Part.Kept ps ps := fun ps =>
      List.forall₂_same.mpr fun p _ => .refl p
    exact ofItems_kept (List.rel_append (hrefl _) (.cons ih (hrefl _))) he

/-- Rearranged values stand for the same expression. -/
theorem ofJson_rearranged {v v' : Value} (h : v.Rearranged v') (he : ofJson v = .ok e) :
    ofJson v' = .ok e :=
  (part_kept h).expr e he

end Expr

end Identicon
