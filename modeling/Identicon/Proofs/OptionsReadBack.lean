import Identicon.Options.Document
import Identicon.Proofs.Avatar
import Identicon.Proofs.Json.Records

/-!
# Options read back

Options are read back from their document whether or not they are valid: every half size of 32 bits,
every number of workers of 64 bits, and every policy is a value that the reader accepts. What it
refuses afterwards it refuses for the reason that the check of the options themselves gives.
-/

namespace Identicon.Options

open Json (Stops ReadsMembers Value)

variable {s : List Char}

/-! ## The fields -/

theorem readHalfSize_printInteger (h : Stops s) (halfSize : UInt32) :
    Canvas.readHalfSize (Json.printInteger halfSize.toNat ++ s) = .ok (halfSize, s) := by
  rw [Canvas.readHalfSize, Json.readUnsigned_printInteger h halfSize.toNat_lt (by decide), ok_bind]
  dsimp only
  rw [Nat.toUInt32, UInt32.ofNat_toNat]
  rfl

theorem readChoice_name (policy : Policy) (s : List Char) :
    Json.readChoice Policy.names (Json.printString policy.name ++ s) = .ok (policy, s) := by
  have hname : Json.ofName Policy.names policy.name = .ok policy := by cases policy <;> rfl
  exact Json.readName_printed hname s

theorem readThreads_null (s : List Char) : readThreads ("null".toList ++ s) = .ok (none, s) := rfl

theorem readThreads_printInteger (h : Stops s) (threads : UInt64) :
    readThreads (Json.printInteger threads.toNat ++ s) = .ok (some threads, s) := by
  apply Json.readOptional_printInteger
  rw [Json.readUnsigned_printInteger h threads.toNat_lt le_rfl, ok_bind]
  dsimp only
  rw [Nat.toUInt64, UInt64.ofNat_toNat]
  rfl

/-! ## The members -/

section Members

variable (g : Given) (s : List Char)

theorem readMember_halfSize : readMember g "half_size".toList s = do
    let (halfSize, s) ← Json.readField "half_size" g.halfSize Canvas.readHalfSize s
    return ({ g with halfSize }, s) := by
  rw [readMember, if_pos rfl]

theorem readMember_policy : readMember g "policy".toList s = do
    let (policy, s) ← Json.readField "policy" g.policy (Json.readChoice Policy.names) s
    return ({ g with policy }, s) := by
  have hkey : "policy".toList ≠ "half_size".toList := by decide
  rw [readMember, if_neg hkey, if_pos rfl]

theorem readMember_parallel : readMember g "parallel".toList s = do
    let (parallel, s) ← Json.readField "parallel" g.parallel Json.readBoolean s
    return ({ g with parallel }, s) := by
  have hkey : "parallel".toList ≠ "half_size".toList := by decide
  have hkey' : "parallel".toList ≠ "policy".toList := by decide
  rw [readMember, if_neg hkey, if_neg hkey', if_pos rfl]

theorem readMember_threads : readMember g "threads".toList s = do
    let (threads, s) ← Json.readField "threads" g.threads readThreads s
    return ({ g with threads }, s) := by
  have hkey : "threads".toList ≠ "half_size".toList := by decide
  have hkey' : "threads".toList ≠ "policy".toList := by decide
  have hkey'' : "threads".toList ≠ "parallel".toList := by decide
  rw [readMember, if_neg hkey, if_neg hkey', if_neg hkey'', if_pos rfl]

end Members

/-- The members of the document give the fields, the number of workers in either of its forms. -/
theorem readsMembers_toJson (o : Options) {threads : Json.Value}
    (h : ∀ s, Stops s → readThreads (threads.compact ++ s) = .ok (o.threads, s)) :
    ReadsMembers readMember {} [("half_size".toList, .number (.integer o.halfSize.toNat)),
        ("policy".toList, .string o.policy.name), ("parallel".toList, .boolean o.parallel),
        ("threads".toList, threads)]
      ⟨some o.halfSize, some o.policy, some o.parallel, some o.threads⟩ := by
  refine .cons ⟨some o.halfSize, none, none, none⟩ ?_ <|
    .cons ⟨some o.halfSize, some o.policy, none, none⟩ ?_ <|
    .cons ⟨some o.halfSize, some o.policy, some o.parallel, none⟩ ?_ <| .cons _ ?_ (.nil _)
  · intro s hs
    rw [readMember_halfSize, Value.compact, Json.Number.print,
      Json.readField_eq_ok (readHalfSize_printInteger hs o.halfSize)]
    rfl
  · intro s hs
    rw [readMember_policy, Value.compact, Json.readField_eq_ok (readChoice_name o.policy s)]
    rfl
  · intro s hs
    rw [readMember_parallel, Value.compact,
      Json.readField_eq_ok (Json.readBoolean_printBoolean o.parallel s)]
    rfl
  · intro s hs
    rw [readMember_threads, Json.readField_eq_ok (h s hs)]
    rfl

/-! ## Documents -/

/-- Options are read back before they are checked. -/
theorem parse_toJson (o : Options) : parse (String.ofList o.toJson.compact) = .ok o := by
  obtain ⟨threads, hthreads, heq⟩ : ∃ threads,
      (∀ s, Stops s → readThreads (threads.compact ++ s) = .ok (o.threads, s)) ∧
      o.toJson = .object [("half_size".toList, .number (.integer o.halfSize.toNat)),
        ("policy".toList, .string o.policy.name), ("parallel".toList, .boolean o.parallel),
        ("threads".toList, threads)] := by
    refine ⟨_, ?_, rfl⟩
    intro s h
    cases o.threads with
    | none => exact readThreads_null s
    | some threads => exact readThreads_printInteger h threads
  have hmembers := (readsMembers_toJson o hthreads).foldMembers_eq_ok
  rw [heq]
  apply Json.document_record
  intro s
  rw [readMembers, hmembers]
  rfl

/-- Options that have been read are checked, and what the check refuses is not valid. -/
theorem read_of_parse_eq_ok {text : String} {o : Options} (h : parse text = .ok o) :
    (o.validate = .ok () → read text = .ok o) ∧
    ∀ e, o.validate = .error e → e.kind = .validation ∧ read text = .error e := by
  rw [read, h]
  constructor
  · intro hvalid
    show (o.validate >>= fun _ => pure o) = _
    rw [hvalid]
    rfl
  · intro e he
    have haccepted : ¬ o.Accepted := by
      intro haccepted
      rw [validate_of_accepted haccepted] at he
      cases he
    obtain ⟨reason, hreason, hkind⟩ := validate_of_not_accepted haccepted
    obtain rfl : reason = e := Except.error.inj (hreason.symm.trans he)
    refine ⟨hkind, ?_⟩
    show (o.validate >>= fun _ => pure o) = _
    rw [he]
    rfl

/-- **Options are read back from their document, or refused as the check of them refuses them.** Of
all half sizes and numbers of workers that a document can hold, the reader refuses those that the
check does, with the same error, which is one of validation and not one of reading. -/
theorem read_compact (o : Options) :
    (o.validate = .ok () → read (String.ofList o.toJson.compact) = .ok o) ∧
    ∀ e, o.validate = .error e →
      e.kind = .validation ∧ read (String.ofList o.toJson.compact) = .error e :=
  read_of_parse_eq_ok (parse_toJson o)

/-- The greatest half size and the greatest number of workers are read back, and one more pixel per
unit of length is refused after reading. -/
theorem read_compact_greatest :
    read (String.ofList (toJson ⟨4096, .strict, true, some 0xFFFFFFFFFFFFFFFF⟩).compact) =
      .ok ⟨4096, .strict, true, some 0xFFFFFFFFFFFFFFFF⟩ ∧
    read (String.ofList (toJson ⟨4097, .wrap, false, none⟩).compact) =
      .error (.largeHalfSize 4097) :=
  ⟨(read_compact ⟨4096, .strict, true, some 0xFFFFFFFFFFFFFFFF⟩).1 rfl,
    ((read_compact ⟨4097, .wrap, false, none⟩).2 (.largeHalfSize 4097) rfl).2⟩

end Identicon.Options
