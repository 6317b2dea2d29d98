import Identicon.Proofs.Json.Numbers

/-!
# Records read back

A record is read one member at a time, each with the fields of those before it. `ReadsMembers` says
that a row of printed members takes the fields from one state to another, whatever the object goes
on with; the reader of the whole object then ends in the last of these states. `RefusesMembers` says
that one of them is refused after others have been read, and its problem is that of the document.
-/

namespace Identicon.Json

variable {σ α : Type} {member : σ → List Char → Reader σ} {state state' : σ}
  {m : List Char × Value} {ms : List (List Char × Value)} {problem : Problem} {a : α}

/-- Printed members, read one after the other, take the reader from one state to another. -/
inductive ReadsMembers (member : σ → List Char → Reader σ) :
    σ → List (List Char × Value) → σ → Prop
  | nil (state : σ) : ReadsMembers member state [] state
  | cons {state last : σ} {m : List Char × Value} {ms : List (List Char × Value)} (next : σ)
      (first : ∀ s, Stops s → member state m.1 (':' :: m.2.compact ++ s) = .ok (next, s))
      (others : ReadsMembers member next ms last) : ReadsMembers member state (m :: ms) last

/-- Behind a member there is a comma or the closing brace. -/
theorem stops_compactMembers (ms : List (List Char × Value)) (s : List Char) :
    Stops (Value.compactMembers ms ++ '}' :: s) := by
  cases ms with
  | nil =>
    rw [Value.compactMembers]
    exact stops_brace
  | cons m ms =>
    rw [compactMembers_cons_append]
    exact stops_comma

theorem ReadsMembers.foldMembersUpTo_eq_ok (h : ReadsMembers member state ms state')
    (limit : ℕ) (s : List Char) :
    foldMembersUpTo member (limit + 1 + ms.length) state false
      (Value.compactMembers ms ++ '}' :: s) = .ok (state', '}' :: s) := by
  induction h with
  | nil state =>
    rw [Value.compactMembers]
    exact foldMembersUpTo_close _ _
  | cons _ first _ ih =>
    rw [compactMembers_cons_append, List.length_cons, ← Nat.add_assoc, foldMembersUpTo_next,
      first _ (stops_compactMembers _ _)]
    exact ih

/-- The members of a printed object are all read. -/
theorem ReadsMembers.foldMembers_eq_ok (h : ReadsMembers member state (m :: ms) state')
    (s : List Char) :
    foldMembers member state true
        (printString m.1 ++ ':' :: m.2.compact ++ (Value.compactMembers ms ++ '}' :: s)) =
      .ok (state', '}' :: s) := by
  cases h with
  | cons next first others =>
    obtain ⟨limit, hread⟩ := foldMembers_first member state m.1 m.2.compact ms ('}' :: s)
    rw [hread, first _ (stops_compactMembers _ _)]
    exact others.foldMembersUpTo_eq_ok limit s

/-! ## Members that are refused -/

/-- Printed members of which one meets with a problem, after others that take the reader from one
state to another. -/
inductive RefusesMembers (member : σ → List Char → Reader σ) (problem : Problem) :
    σ → List (List Char × Value) → Prop
  | here {state : σ} {m : List Char × Value} {ms : List (List Char × Value)}
      (bad : ∀ s, Stops s → ∃ rest,
        member state m.1 (':' :: m.2.compact ++ s) = .error (.here problem rest)) :
    RefusesMembers member problem state (m :: ms)
  | later {state : σ} {m : List Char × Value} {ms : List (List Char × Value)} (next : σ)
      (first : ∀ s, Stops s → member state m.1 (':' :: m.2.compact ++ s) = .ok (next, s))
      (others : RefusesMembers member problem next ms) :
    RefusesMembers member problem state (m :: ms)

theorem RefusesMembers.foldMembersUpTo_eq_error (h : RefusesMembers member problem state ms)
    (limit : ℕ) (s : List Char) :
    ∃ rest, foldMembersUpTo member (limit + 1 + ms.length) state false
      (Value.compactMembers ms ++ '}' :: s) = .error (.here problem rest) := by
  induction h with
  | @here _ m ms bad =>
    obtain ⟨rest, hrest⟩ := bad _ (stops_compactMembers ms s)
    refine ⟨rest, ?_⟩
    rw [compactMembers_cons_append, List.length_cons, ← Nat.add_assoc, foldMembersUpTo_next, hrest]
    rfl
  | later _ first _ ih =>
    rw [compactMembers_cons_append, List.length_cons, ← Nat.add_assoc, foldMembersUpTo_next,
      first _ (stops_compactMembers _ _)]
    exact ih

/-- The members of a printed object are read up to the one that is refused. -/
theorem RefusesMembers.foldMembers_eq_error (h : RefusesMembers member problem state (m :: ms))
    (s : List Char) :
    ∃ rest, foldMembers member state true
        (printString m.1 ++ ':' :: m.2.compact ++ (Value.compactMembers ms ++ '}' :: s)) =
      .error (.here problem rest) := by
  obtain ⟨limit, hread⟩ := foldMembers_first member state m.1 m.2.compact ms ('}' :: s)
  rw [hread]
  cases h with
  | here bad =>
    obtain ⟨rest, hrest⟩ := bad _ (stops_compactMembers ms s)
    rw [hrest]
    exact ⟨rest, rfl⟩
  | later next first others =>
    rw [first _ (stops_compactMembers _ _)]
    exact others.foldMembersUpTo_eq_error limit s

/-! ## Records and documents -/

/-- A record is read from a printed object by its reader of members. -/
theorem readRecord_compact (expected : String) (ofArray ofObject : Reader α)
    (m : List Char × Value) (ms : List (List Char × Value)) (s : List Char) :
    readRecord expected ofArray ofObject ((Value.object (m :: ms)).compact ++ s) =
      ofObject (printString m.1 ++ ':' :: m.2.compact ++ (Value.compactMembers ms ++ '}' :: s)) >>=
        fun p => pure (p.1, p.2.drop 1) := by
  have htext : (Value.object (m :: ms)).compact ++ s = '{' ::
      (printString m.1 ++ ':' :: m.2.compact ++ (Value.compactMembers ms ++ '}' :: s)) := by
    rw [Value.compact]
    simp only [List.append_assoc, List.cons_append, List.nil_append]
  rw [htext]
  rfl

section Document

variable {expected : String} {ofArray ofObject : Reader α}

/-- A document that is a printed object is read to its end. -/
theorem document_record
    (h : ∀ s, ofObject
      (printString m.1 ++ ':' :: m.2.compact ++ (Value.compactMembers ms ++ '}' :: s)) =
        .ok (a, '}' :: s)) :
    document (readRecord expected ofArray ofObject)
      (String.ofList (Value.object (m :: ms)).compact) = .ok a := by
  have hrecord := readRecord_compact expected ofArray ofObject m ms []
  rw [h, List.append_nil] at hrecord
  rw [document, String.toList_ofList, hrecord]
  rfl

/-- The problem with a printed object is told with its place in the document. -/
theorem document_record_eq_error
    (h : ∀ s, ∃ rest, ofObject
      (printString m.1 ++ ':' :: m.2.compact ++ (Value.compactMembers ms ++ '}' :: s)) =
        .error (.here problem rest)) :
    ∃ position, document (readRecord expected ofArray ofObject)
      (String.ofList (Value.object (m :: ms)).compact) = .error ⟨problem, some position⟩ := by
  have hrecord := readRecord_compact expected ofArray ofObject m ms []
  obtain ⟨rest, hrest⟩ := h []
  rw [hrest, List.append_nil] at hrecord
  rw [document, String.toList_ofList, hrecord]
  exact ⟨_, rfl⟩

end Document

end Identicon.Json
