import Identicon.Proofs.Json.Trees

/-!
# Members in another order

A tree is rearranged by putting the members of objects in it into another order, as many objects and
as deep inside as one likes. The value of a tree is rearranged in the same way: no member depends on
another, so that what can be read can be read in any order (`Tree.Rearranged.exists_value?`).
-/

namespace Identicon.Json

variable {α β : Type} {n : ℕ}

/-- The same tree with the members of objects in another order. -/
inductive Tree.Rearranged : Tree → Tree → Prop
  | refl (t : Tree) : Rearranged t t
  | trans {t t' t'' : Tree} (h : Rearranged t t') (h' : Rearranged t' t'') : Rearranged t t''
  | members {ms ms' : List (List Piece × Tree)} (h : ms.Perm ms') :
    Rearranged (.object ms) (.object ms')
  | member (before after : List (List Piece × Tree)) (key : List Piece) {t t' : Tree}
      (h : Rearranged t t') :
    Rearranged (.object (before ++ (key, t) :: after)) (.object (before ++ (key, t') :: after))
  | item (before after : List Tree) {t t' : Tree} (h : Rearranged t t') :
    Rearranged (.array (before ++ t :: after)) (.array (before ++ t' :: after))

/-- The same value with the members of objects in another order. -/
inductive Value.Rearranged : Value → Value → Prop
  | refl (v : Value) : Rearranged v v
  | trans {v v' v'' : Value} (h : Rearranged v v') (h' : Rearranged v' v'') : Rearranged v v''
  | members {ms ms' : List (List Char × Value)} (h : ms.Perm ms') :
    Rearranged (.object ms) (.object ms')
  | member (before after : List (List Char × Value)) (key : List Char) {v v' : Value}
      (h : Rearranged v v') :
    Rearranged (.object (before ++ (key, v) :: after)) (.object (before ++ (key, v') :: after))
  | item (before after : List Value) {v v' : Value} (h : Rearranged v v') :
    Rearranged (.array (before ++ v :: after)) (.array (before ++ v' :: after))

/-! ## Values without parts -/

/-- Whether a value has parts. -/
def Value.hasParts : Value → Bool
  | .array vs => !vs.isEmpty
  | .object ms => !ms.isEmpty
  | _ => false

/-- In a value without parts there is nothing to rearrange. -/
theorem Value.Rearranged.eq_of_hasParts {v v' : Value} (h : v.Rearranged v')
    (hv : v.hasParts = false) : v' = v := by
  induction h with
  | refl => rfl
  | trans _ _ ih ih' =>
    have heq := ih hv
    rw [ih' (by rwa [heq]), heq]
  | @members ms ms' hperm =>
    cases ms with
    | nil => rw [List.nil_perm.mp hperm]
    | cons => cases hv
  | member before | item before =>
    cases before with
    | nil | cons => cases hv

/-! ## Parts and their values -/

theorem itemValues?_eq_some_iff {ts : List Tree} {vs : List Value} :
    Tree.itemValues? n ts = some vs ↔ List.Forall₂ (fun t v => Tree.value? n t = some v) ts vs := by
  induction ts generalizing vs with
  | nil =>
    rw [Tree.itemValues?, List.forall₂_nil_left_iff]
    exact ⟨fun h => (Option.some.inj h).symm, fun h => congrArg some h.symm⟩
  | cons t ts ih =>
    rw [Tree.itemValues?, List.forall₂_cons_left_iff]
    constructor
    · intro h
      obtain ⟨v, hv, h⟩ := Option.bind_eq_some_iff.mp h
      obtain ⟨vs', hvs, h⟩ := Option.bind_eq_some_iff.mp h
      exact ⟨v, vs', hv, ih.mp hvs, (Option.some.inj h).symm⟩
    · rintro ⟨v, vs', hv, hvs, rfl⟩
      rw [hv, ih.mpr hvs]
      rfl

theorem memberValues?_eq_some_iff {ms : List (List Piece × Tree)}
    {vs : List (List Char × Value)} :
    Tree.memberValues? n ms = some vs ↔
      List.Forall₂ (fun m v => decode m.1 = some v.1 ∧ Tree.value? n m.2 = some v.2) ms vs := by
  induction ms generalizing vs with
  | nil =>
    rw [Tree.memberValues?, List.forall₂_nil_left_iff]
    exact ⟨fun h => (Option.some.inj h).symm, fun h => congrArg some h.symm⟩
  | cons m ms ih =>
    obtain ⟨ps, t⟩ := m
    rw [Tree.memberValues?, List.forall₂_cons_left_iff]
    constructor
    · intro h
      obtain ⟨key, hkey, h⟩ := Option.bind_eq_some_iff.mp h
      obtain ⟨v, hv, h⟩ := Option.bind_eq_some_iff.mp h
      obtain ⟨vs', hvs, h⟩ := Option.bind_eq_some_iff.mp h
      exact ⟨(key, v), vs', ⟨hkey, hv⟩, ih.mp hvs, (Option.some.inj h).symm⟩
    · rintro ⟨⟨key, v⟩, vs', ⟨hkey, hv⟩, hvs, rfl⟩
      dsimp only at hkey hv
      rw [hkey, hv, ih.mpr hvs]
      rfl

/-- Only a string has a string as its value. -/
theorem exists_of_value?_eq_string {t : Tree} {name : List Char}
    (h : t.value? n = some (.string name)) : ∃ ps, t = .string ps ∧ decode ps = some name := by
  cases t with
  | string ps =>
    rw [Tree.value?] at h
    obtain ⟨name', hname, heq⟩ := Option.map_eq_some_iff.mp h
    cases heq
    exact ⟨ps, rfl, hname⟩
  | null | boolean =>
    rw [Tree.value?] at h
    cases h
  | number x =>
    rw [Tree.value?] at h
    obtain ⟨_, -, heq⟩ := Option.map_eq_some_iff.mp h
    cases heq
  | array | object =>
    cases n with
    | zero => cases h
    | succ n =>
      rw [Tree.value?] at h
      obtain ⟨_, -, heq⟩ := Option.map_eq_some_iff.mp h
      cases heq

/-- A part in the middle has its counterpart in the middle. -/
theorem exists_of_forall₂_append_cons {R : α → β → Prop} {before after : List α} {a : α}
    {bs : List β} (h : List.Forall₂ R (before ++ a :: after) bs) :
    ∃ before' b after', bs = before' ++ b :: after' ∧ List.Forall₂ R before before' ∧ R a b ∧
      List.Forall₂ R after after' := by
  induction before generalizing bs with
  | nil =>
    obtain ⟨b, after', hab, hafter, rfl⟩ := List.forall₂_cons_left_iff.mp h
    exact ⟨[], b, after', rfl, .nil, hab, hafter⟩
  | cons x before ih =>
    obtain ⟨y, bs', hxy, htail, rfl⟩ := List.forall₂_cons_left_iff.mp h
    obtain ⟨before', b, after', rfl, hbefore, hab, hafter⟩ := ih htail
    exact ⟨y :: before', b, after', rfl, .cons hxy hbefore, hab, hafter⟩

/-- A tree in another order has its value in another order. -/
theorem Tree.Rearranged.exists_value? {t t' : Tree} (h : t.Rearranged t') {v : Value}
    (hv : t.value? n = some v) : ∃ v', t'.value? n = some v' ∧ v.Rearranged v' := by
  induction h generalizing n v with
  | refl => exact ⟨v, hv, .refl v⟩
  | trans _ _ ih ih' =>
    obtain ⟨v', hv', hvv'⟩ := ih hv
    obtain ⟨v'', hv'', hvv''⟩ := ih' hv'
    exact ⟨v'', hv'', hvv'.trans hvv''⟩
  | @members ms ms' hperm =>
    cases n with
    | zero =>
      -- a brace that may not be opened
      cases hv
    | succ n =>
      rw [value?] at hv
      obtain ⟨vs, hvs, rfl⟩ := Option.map_eq_some_iff.mp hv
      obtain ⟨vs', hvs', hperm'⟩ :=
        List.perm_comp_forall₂ hperm.symm (memberValues?_eq_some_iff.mp hvs)
      refine ⟨.object vs', ?_, .members hperm'.symm⟩
      rw [value?, memberValues?_eq_some_iff.mpr hvs']
      rfl
  | @member before after key t t' _ ih =>
    cases n with
    | zero => cases hv
    | succ n =>
      rw [value?] at hv
      obtain ⟨vs, hvs, rfl⟩ := Option.map_eq_some_iff.mp hv
      obtain ⟨before', ⟨key', v⟩, after', rfl, hbefore, ⟨hkey, hv⟩, hafter⟩ :=
        exists_of_forall₂_append_cons (memberValues?_eq_some_iff.mp hvs)
      obtain ⟨v', hv', hvv'⟩ := ih hv
      have hmembers : List.Forall₂ (fun m v => decode m.1 = some v.1 ∧ value? n m.2 = some v.2)
          (before ++ (key, t') :: after) (before' ++ (key', v') :: after') :=
        List.rel_append hbefore (.cons ⟨hkey, hv'⟩ hafter)
      refine ⟨.object (before' ++ (key', v') :: after'), ?_, .member before' after' key' hvv'⟩
      rw [value?, memberValues?_eq_some_iff.mpr hmembers]
      rfl
  | item before after _ ih =>
    cases n with
    | zero => cases hv
    | succ n =>
      rw [value?] at hv
      obtain ⟨vs, hvs, rfl⟩ := Option.map_eq_some_iff.mp hv
      obtain ⟨before', v, after', rfl, hbefore, hv, hafter⟩ :=
        exists_of_forall₂_append_cons (itemValues?_eq_some_iff.mp hvs)
      obtain ⟨v', hv', hvv'⟩ := ih hv
      refine ⟨.array (before' ++ v' :: after'), ?_, .item before' after' hvv'⟩
      rw [value?, itemValues?_eq_some_iff.mpr (List.rel_append hbefore (.cons hv' hafter))]
      rfl

end Identicon.Json
