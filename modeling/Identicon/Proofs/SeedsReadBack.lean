import Identicon.Proofs.Json.Doubles
import Identicon.Proofs.Json.Records
import Identicon.Proofs.Seeds
import Identicon.Seeds.Document

/-!
# Seeds read back

A finite channel is written as the shortest decimal that is rounded to it and to no other double.
The reader of documents does not round that decimal, but its digits, and then again when it scales
them. What it finds in place of the channel is `readBack` of it: the same double for some, one close
by for others, and a double out of range for the greatest. Seeds of an identifier can be among those
that change (`derive_altered`), but they never change by much.

A channel that is not finite is written as `null`, which is no number. The first channel that cannot
be read is the one that the reader tells.

Both directions are inductions over the channels that are still to be read, with the channels read
before in the state of the reader.

## Main statements

* `mapError_read_toJson`: what is read in place of seeds, or which problem is met.
* `readBack_eq_self_iff`: the doubles that come back as they were.
* `readBack_seed_close`: a seed of an identifier changes by very little.
* `read_toJson_eq_readBack`: all of these.
-/

namespace Identicon.Seeds

open Binary64
open Json (Stops ReadsMembers RefusesMembers Value Problem)

variable {z w : Float} {s : List Char} {c : Channel} {cs before after : List Channel}
  {seeds : Seeds} {seen : Channels (Option Float)} {problem : Problem} {part : List Char}

/-! ## Doubles -/

/-- What is read in place of a double that has been written, or the problem with it. -/
def readBack (z : Float) : Except Problem Float :=
  if z.isFinite then
    match Decimal.reread? z with
    | some w => .ok w
    | none => .error .numberOutOfRange
  else .error (.mismatch (.wrongType .null "f64"))

theorem readBack_of_reread?_eq_some (hfin : z.isFinite = true)
    (h : Decimal.reread? z = some w) : readBack z = .ok w := by
  rw [readBack, if_pos hfin, h]

theorem readBack_of_not_isFinite (hfin : z.isFinite = false) :
    readBack z = .error (.mismatch (.wrongType .null "f64")) :=
  if_neg (by rw [hfin]; exact Bool.false_ne_true)

/-- What is read in place of a finite double is found by its reader, and so is the problem with it
if it is out of range. What is not finite is written as something that is no number. -/
theorem readDouble_compact (hs : Stops s) :
    Json.readDouble ((Value.number (.real z)).compact ++ s) =
      match readBack z with
      | .ok w => .ok (w, s)
      | .error problem => .error (.here problem s) := by
  rw [Value.compact]
  cases hfin : z.isFinite with
  | false =>
    rw [readBack_of_not_isFinite hfin, Json.Number.print, Decimal.data,
      if_neg (by rw [hfin]; exact Bool.false_ne_true), Option.getD_none]
    rfl
  | true =>
    have hread := Json.readNumber_scaled hfin hs
    rw [readBack, if_pos hfin]
    cases hreread : Decimal.reread? z with
    | some w =>
      rw [hreread] at hread
      exact Json.readNumberAs_of_readNumber hread rfl
    | none =>
      -- what is written of a double begins like a number, in range or not
      rw [hreread] at hread
      obtain ⟨c, t, heq, hc⟩ :=
        Json.exists_cons_of_readNumber_eq_ok (Json.readNumber_nearest hfin hs)
      rw [heq] at hread ⊢
      exact Json.readNumberAs_of_readNumber_eq_error hc hread

/-- **A double comes back as it was exactly if it is finite and its shortest decimal is scaled to
its magnitude.** -/
theorem readBack_eq_self_iff :
    readBack z = .ok z ↔ z.isFinite = true ∧ Decimal.rereadMagnitude z = |toRat z| := by
  cases hfin : z.isFinite with
  | false =>
    rw [readBack_of_not_isFinite hfin]
    exact iff_of_false nofun fun h => Bool.false_ne_true h.1
  | true =>
    rw [← Decimal.reread?_eq_self_iff hfin, readBack, if_pos hfin]
    cases Decimal.reread? z with
    | none => exact iff_of_false nofun fun h => nomatch h.2
    | some w =>
      constructor
      · intro h
        exact ⟨rfl, congrArg some (Except.ok.inj h)⟩
      · intro h
        exact congrArg Except.ok (Option.some.inj h.2)

/-! ## Channels -/

/-- The key of a channel. -/
def key : Channel → String
  | .red => "red"
  | .green => "green"
  | .blue => "blue"

/-- The member of the document for a channel. -/
def memberOf (seeds : Seeds) (c : Channel) : List Char × Value :=
  ((key c).toList, .number (.real (seeds.get c)))

theorem toJson_eq (seeds : Seeds) :
    seeds.toJson = .object ([.red, .green, .blue].map seeds.memberOf) := rfl

/-- A key is read as the field of its channel. -/
theorem readMember_key (seen : Channels (Option Float)) (c : Channel) (s : List Char) :
    readMember seen (key c).toList s = do
      let (z, s) ← Json.readField (key c) (seen.get c) Json.readDouble s
      return (seen.set z c, s) := by
  cases c with
  | red =>
    rw [readMember, key, if_pos rfl]
    rfl
  | green =>
    have hkey : "green".toList ≠ "red".toList := by decide
    rw [readMember, key, if_neg hkey, if_pos rfl]
    rfl
  | blue =>
    have hkey : "blue".toList ≠ "red".toList := by decide
    have hkey' : "blue".toList ≠ "green".toList := by decide
    rw [readMember, key, if_neg hkey, if_neg hkey', if_pos rfl]
    rfl

theorem readMember_memberOf (h : readBack (seeds.get c) = .ok w) (hseen : seen.get c = none)
    (hs : Stops s) :
    readMember seen (seeds.memberOf c).1 (':' :: (seeds.memberOf c).2.compact ++ s) =
      .ok (seen.set (some w) c, s) := by
  have hread := readDouble_compact (z := seeds.get c) hs
  rw [h] at hread
  rw [memberOf, readMember_key, hseen, Json.readField_eq_ok hread]
  rfl

theorem readMember_memberOf_eq_error (h : readBack (seeds.get c) = .error problem)
    (hseen : seen.get c = none) (hs : Stops s) :
    readMember seen (seeds.memberOf c).1 (':' :: (seeds.memberOf c).2.compact ++ s) =
      .error (.here problem s) := by
  have hread := readDouble_compact (z := seeds.get c) hs
  rw [h] at hread
  rw [memberOf, readMember_key, hseen, Json.readField_eq_error hread]
  rfl

/-- A channel that has been read is none of those still to be read. -/
theorem get_set_of_nodup (hnodup : (c :: cs).Nodup) (hseen : ∀ c' ∈ c :: cs, seen.get c' = none)
    (z : Option Float) : ∀ c' ∈ cs, (seen.set z c).get c' = none := by
  intro c' hc'
  have hne : c' ≠ c := fun heq => (List.nodup_cons.mp hnodup).1 (heq ▸ hc')
  rw [Channels.get_set, if_neg hne]
  exact hseen c' (List.mem_cons_of_mem c hc')

/-- Channels are read in turn. -/
theorem readsMembers_memberOf {seeds' : Seeds} (hnodup : cs.Nodup)
    (hseen : ∀ c ∈ cs, seen.get c = none)
    (h : ∀ c ∈ cs, readBack (seeds.get c) = .ok (seeds'.get c)) :
    ReadsMembers readMember seen (cs.map seeds.memberOf)
      (cs.foldl (fun seen c => seen.set (some (seeds'.get c)) c) seen) := by
  induction cs generalizing seen with
  | nil => exact .nil seen
  | cons c cs ih =>
    obtain ⟨hc, hcs⟩ := List.forall_mem_cons.mp h
    refine .cons _ (fun s => readMember_memberOf hc (hseen c List.mem_cons_self)) ?_
    exact ih (List.nodup_cons.mp hnodup).2 (get_set_of_nodup hnodup hseen _) hcs

/-- A channel with a problem is refused after the channels before it have been read. -/
theorem refusesMembers_memberOf (hnodup : (before ++ c :: after).Nodup)
    (hseen : ∀ c' ∈ before ++ c :: after, seen.get c' = none)
    (hpass : ∀ c' ∈ before, ∃ w, readBack (seeds.get c') = .ok w)
    (hbad : readBack (seeds.get c) = .error problem) :
    RefusesMembers readMember problem seen ((before ++ c :: after).map seeds.memberOf) := by
  induction before generalizing seen with
  | nil =>
    exact .here fun s hs => ⟨s, readMember_memberOf_eq_error hbad (hseen c List.mem_cons_self) hs⟩
  | cons c' before ih =>
    obtain ⟨⟨w, hw⟩, hpass⟩ := List.forall_mem_cons.mp hpass
    refine .later _ (fun s => readMember_memberOf hw (hseen c' List.mem_cons_self)) ?_
    exact ih (List.nodup_cons.mp hnodup).2 (get_set_of_nodup hnodup hseen _) hpass

/-! ## Documents -/

theorem nodup_channels : [Channel.red, .green, .blue].Nodup := by decide

theorem get_none (c : Channel) : (⟨none, none, none⟩ : Channels (Option Float)).get c = none := by
  cases c <;> rfl

theorem read_toJson_eq_ok {seeds' : Seeds} (h : ∀ c, readBack (seeds.get c) = .ok (seeds'.get c)) :
    read (String.ofList seeds.toJson.compact) = .ok seeds' := by
  have hmembers := (readsMembers_memberOf nodup_channels (fun c _ => get_none c)
    fun c _ => h c).foldMembers_eq_ok
  rw [toJson_eq]
  apply Json.document_record
  intro s
  rw [readMembers, hmembers]
  rfl

theorem read_toJson_eq_error (before : List Channel) (c : Channel) (after : List Channel)
    (hchannels : before ++ c :: after = [.red, .green, .blue])
    (hpass : ∀ c' ∈ before, ∃ w, readBack (seeds.get c') = .ok w)
    (hbad : readBack (seeds.get c) = .error problem) :
    ∃ position, read (String.ofList seeds.toJson.compact) = .error ⟨problem, some position⟩ := by
  have hmembers := (refusesMembers_memberOf (hchannels ▸ nodup_channels) (fun c _ => get_none c)
    hpass hbad)
  rw [hchannels] at hmembers
  rw [toJson_eq]
  apply Json.document_record_eq_error
  intro s
  obtain ⟨rest, hrest⟩ := hmembers.foldMembers_eq_error s
  refine ⟨rest, ?_⟩
  rw [readMembers, hrest]
  rfl

/-- **Seeds come back as what is read in place of each**, or with the problem of the first channel
that has one. -/
theorem mapError_read_toJson (seeds : Seeds) :
    (read (String.ofList seeds.toJson.compact)).mapError (·.problem) =
      (seeds.map readBack).sequence := by
  cases hred : readBack seeds.red with
  | error problem =>
    obtain ⟨position, hread⟩ :=
      read_toJson_eq_error [] .red [.green, .blue] rfl (List.forall_mem_nil _) hred
    rw [hread, Channels.map, Channels.sequence, hred]
    rfl
  | ok red =>
    cases hgreen : readBack seeds.green with
    | error problem =>
      obtain ⟨position, hread⟩ :=
        read_toJson_eq_error [.red] .green [.blue] rfl (List.forall_mem_singleton.mpr ⟨_, hred⟩)
          hgreen
      rw [hread, Channels.map, Channels.sequence, hred, hgreen]
      rfl
    | ok green =>
      cases hblue : readBack seeds.blue with
      | error problem =>
        obtain ⟨position, hread⟩ :=
          read_toJson_eq_error [.red, .green] .blue [] rfl
            (List.forall_mem_cons.mpr ⟨⟨_, hred⟩, List.forall_mem_singleton.mpr ⟨_, hgreen⟩⟩) hblue
        rw [hread, Channels.map, Channels.sequence, hred, hgreen, hblue]
        rfl
      | ok blue =>
        have hread : read (String.ofList seeds.toJson.compact) = .ok ⟨red, green, blue⟩ := by
          apply read_toJson_eq_ok
          intro c
          cases c with
          | red => exact hred
          | green => exact hgreen
          | blue => exact hblue
        rw [hread, Channels.map, Channels.sequence, hred, hgreen, hblue]
        rfl

theorem read_toJson_eq_ok_iff {seeds' : Seeds} :
    read (String.ofList seeds.toJson.compact) = .ok seeds' ↔
      ∀ c, readBack (seeds.get c) = .ok (seeds'.get c) := by
  refine ⟨fun h c => ?_, read_toJson_eq_ok⟩
  have hlaw := mapError_read_toJson seeds
  rw [h] at hlaw
  rw [← Channels.get_map readBack]
  exact Channels.get_of_sequence_eq_ok hlaw.symm c

/-! ## Seeds of identifiers -/

/-- What is left of 50 is nothing at all or not too small. -/
theorem two_zpow_le_abs_sub {x : ℚ} (hx : OnGrid x) (hne : x ≠ 50) :
    2 ^ (-48 : ℤ) ≤ |50 - x| := by
  rcases lt_or_ge |x| 16 with hlt | hge
  · have hfar : 1 ≤ 50 - x := by linarith [(abs_lt.mp hlt).2]
    calc (2 : ℚ) ^ (-48 : ℤ) ≤ 1 := zpow_le_one_of_nonpos₀ (by norm_num) (by norm_num)
      _ ≤ |50 - x| := hfar.trans (le_abs_self _)
  · -- both numbers are multiples of the same power of two
    obtain ⟨k, hk⟩ := hx.exists_eq_mul_two_zpow (j := -48) (by norm_num; exact hge)
    have hsub : 50 - x = (50 * 2 ^ 48 - k : ℤ) * 2 ^ (-48 : ℤ) := by
      rw [hk]
      norm_num
      ring
    have hne' : (50 * 2 ^ 48 - k : ℤ) ≠ 0 := by
      intro h0
      rw [h0, Int.cast_zero, zero_mul, sub_eq_zero] at hsub
      exact hne hsub.symm
    have hone : (1 : ℚ) ≤ |((50 * 2 ^ 48 - k : ℤ) : ℚ)| := by
      rw [← Int.cast_abs]
      exact_mod_cast Int.one_le_abs hne'
    rw [hsub, abs_mul, abs_of_pos (two_zpow_pos _)]
    exact le_mul_of_one_le_left (two_zpow_pos _).le hone

theorem abs_seed_le (hpart : part ≠ []) (hlen : part.length < 2 ^ 32) :
    |toRat (ceiling - meanWeight part)| ≤ 2 ^ 1023 := by
  obtain ⟨x, hx, hge, hle⟩ := holds_seed hpart hlen (by norm_num) (by norm_num)
    fun c _ => charWeight_mem c
  norm_num at hge hle
  have hsmall : |x| ≤ 2 ^ 21 := abs_le.mpr ⟨by linarith, by linarith⟩
  rw [hx.toRat_eq]
  exact hsmall.trans (pow_le_pow_right₀ one_le_two (by norm_num))

/-- **A seed of an identifier comes back with its sign and with a relative error of no more than
`2 ^ -50`.** -/
theorem readBack_seed_close (hpart : part ≠ []) (hlen : part.length < 2 ^ 32) :
    ∃ w, readBack (ceiling - meanWeight part) = .ok w ∧ w.isFinite = true ∧
      isSigned w = isSigned (ceiling - meanWeight part) ∧
      |toRat w - toRat (ceiling - meanWeight part)| ≤
        2 ^ (-50 : ℤ) * |toRat (ceiling - meanWeight part)| := by
  have hz := holds_seed_nearest hpart hlen
  have hhi := abs_seed_le hpart hlen
  generalize ceiling - meanWeight part = z at hz hhi ⊢
  by_cases h0 : toRat z = 0
  · have hself : readBack z = .ok z := by
      rw [readBack_eq_self_iff, Decimal.rereadMagnitude_eq_zero hz.isFinite h0, h0, abs_zero]
      exact ⟨hz.isFinite, rfl⟩
    refine ⟨z, hself, hz.isFinite, rfl, ?_⟩
    rw [sub_self, abs_zero]
    positivity
  · have hne : nearest (exactMean part) ≠ 50 := by
      intro heq
      rw [heq, sub_self, nearest_zero] at hz
      exact h0 hz.toRat_eq
    have hlo := two_zpow_le_abs_nearest (by norm_num)
      (two_zpow_le_abs_sub (onGrid_nearest (exactMean part)) hne)
    rw [← hz.toRat_eq] at hlo
    obtain ⟨w, hw, hfin, hsign, hclose⟩ := Decimal.reread?_close hz.isFinite
      ((zpow_lt_zpow_right₀ (by norm_num) (by norm_num)).trans_le hlo) hhi
    exact ⟨w, readBack_of_reread?_eq_some hz.isFinite hw, hfin, hsign, hclose⟩

/-- **What is read from the document of seeds.** Each channel comes back as its `readBack`, and the
first that has a problem is refused with it; so is every channel that is not finite. Seeds come back
as they were exactly if all of them are finite and each shortest decimal is scaled to the magnitude
that it was written for. Seeds of an identifier of fewer than `2 ^ 32` characters in lowercase come
back, if not as they were, with a relative error of no more than `2 ^ -50`. -/
theorem read_toJson_eq_readBack (seeds : Seeds) :
    (read (String.ofList seeds.toJson.compact)).mapError (·.problem) =
      (seeds.map readBack).sequence ∧
    (read (String.ofList seeds.toJson.compact) = .ok seeds ↔
      ∀ c, (seeds.get c).isFinite = true ∧
        Decimal.rereadMagnitude (seeds.get c) = |toRat (seeds.get c)|) ∧
    (∀ c, (seeds.get c).isFinite = false →
      ∃ e, read (String.ofList seeds.toJson.compact) = .error e) ∧
    ∀ user, (lowercaseOf user).length < 2 ^ 32 → derive user = .ok seeds →
      ∃ seeds' : Seeds, read (String.ofList seeds.toJson.compact) = .ok seeds' ∧
        ∀ c, (seeds'.get c).isFinite = true ∧
          isSigned (seeds'.get c) = isSigned (seeds.get c) ∧
          |toRat (seeds'.get c) - toRat (seeds.get c)| ≤
            2 ^ (-50 : ℤ) * |toRat (seeds.get c)| := by
  refine ⟨mapError_read_toJson seeds, ?_, fun c hfin => ?_, fun user hlen hseeds => ?_⟩
  · rw [read_toJson_eq_ok_iff]
    exact forall_congr' fun c => readBack_eq_self_iff
  · cases hread : read (String.ofList seeds.toJson.compact) with
    | error e => exact ⟨e, rfl⟩
    | ok seeds' =>
      have hc := read_toJson_eq_ok_iff.mp hread c
      rw [readBack_of_not_isFinite hfin] at hc
      cases hc
  · obtain ⟨hlong, rfl⟩ := derive_eq_ok_iff.mp hseeds
    choose w hw hclose using fun c => readBack_seed_close (thirds_ne_nil hlong c)
      ((length_thirds_le _ c).trans_lt hlen)
    refine ⟨.ofFn w, read_toJson_eq_ok_iff.mpr fun c => ?_, fun c => ?_⟩
    · rw [get_ofParts, Channels.get_ofFn]
      exact hw c
    · rw [get_ofParts, Channels.get_ofFn]
      exact hclose c

/-- A channel that is not finite is refused, and the seeds of an identifier come back. -/
theorem read_toJson_eq_readBack_abc :
    (∃ e, read (String.ofList (toJson ⟨1, Float.nan, Float.inf⟩).compact) = .error e) ∧
    ∃ seeds seeds' : Seeds, (lowercaseOf "abc").length < 2 ^ 32 ∧ derive "abc" = .ok seeds ∧
      read (String.ofList seeds.toJson.compact) = .ok seeds' ∧
      ∀ c, (seeds'.get c).isFinite = true ∧
        isSigned (seeds'.get c) = isSigned (seeds.get c) ∧
        |toRat (seeds'.get c) - toRat (seeds.get c)| ≤
          2 ^ (-50 : ℤ) * |toRat (seeds.get c)| := by
  have habc : 3 ≤ (lowercaseOf "abc").length := by decide +kernel
  have hlen : (lowercaseOf "abc").length < 2 ^ 32 := by decide +kernel
  have hseeds := derive_of_long habc
  obtain ⟨-, -, hrefused, -⟩ := read_toJson_eq_readBack ⟨1, Float.nan, Float.inf⟩
  obtain ⟨-, -, -, hderived⟩ := read_toJson_eq_readBack (ofParts (thirds (lowercaseOf "abc")))
  obtain ⟨seeds', hread, hclose⟩ := hderived "abc" hlen hseeds
  exact ⟨hrefused .green (by decide), _, seeds', hlen, hseeds, hread, hclose⟩

/-- **Seeds of an identifier need not come back as they were.** The first third of this one has the
mean weight 271 / 15, and its seed is read as the next greater double. -/
theorem derive_altered :
    ∃ seeds seeds' : Seeds,
      (lowercaseOf "zzzzzzzzzzvaaaaaaaaaaaaaaaaaaaaaaaaaaaaaaaaaa").length < 2 ^ 32 ∧
      derive "zzzzzzzzzzvaaaaaaaaaaaaaaaaaaaaaaaaaaaaaaaaaa" = .ok seeds ∧
      (∀ c, (seeds.get c).isFinite = true) ∧
      read (String.ofList seeds.toJson.compact) = .ok seeds' ∧
      seeds.red.toBits = 0x403feeeeeeeeeeef ∧ seeds'.red.toBits = 0x403feeeeeeeeeef0 := by
  have hlen : (lowercaseOf "zzzzzzzzzzvaaaaaaaaaaaaaaaaaaaaaaaaaaaaaaaaaa").length = 45 := by
    decide +kernel
  have hparts : ofParts (thirds (lowercaseOf "zzzzzzzzzzvaaaaaaaaaaaaaaaaaaaaaaaaaaaaaaaaaa")) =
      ⟨.ofBits 0x403feeeeeeeeeeef, 50, 50⟩ := by decide +kernel
  have hseeds := derive_of_long (by rw [hlen]; decide)
  rw [hparts] at hseeds
  have hdecimal : Decimal.ofFinite (.ofBits 0x403feeeeeeeeeeef) =
      ⟨31933333333333334, -15⟩ := by decide +kernel
  have hlaid : Decimal.laidOut ⟨31933333333333334, -15⟩ =
      ⟨31933333333333334, -((15 : ℕ) : ℤ)⟩ := rfl
  have hquotient : (31933333333333334 : ℕ).toUInt64.toFloat / Decimal.powerOfTen 15 =
      .ofBits 0x403feeeeeeeeeef0 := by decide +kernel
  have hred : readBack (.ofBits 0x403feeeeeeeeeeef) = .ok (.ofBits 0x403feeeeeeeeeef0) := by
    apply readBack_of_reread?_eq_some rfl
    rw [Decimal.reread?, hdecimal, hlaid, Decimal.scaled?,
      Decimal.scale_neg_natCast (by decide) (by decide), hquotient]
    rfl
  have hfifty : readBack 50 = .ok 50 := by
    have hdecimal : (Decimal.ofFinite 50).laidOut = ⟨500, -1⟩ := by decide +kernel
    apply readBack_of_reread?_eq_some rfl
    apply Decimal.reread?_eq_self rfl <;> rw [hdecimal] <;> decide
  refine ⟨_, ⟨.ofBits 0x403feeeeeeeeeef0, 50, 50⟩, by rw [hlen]; decide, hseeds, ?_,
    read_toJson_eq_ok ?_, rfl, rfl⟩
  · intro c
    cases c <;> rfl
  · intro c
    cases c with
    | red => exact hred
    | green | blue => exact hfifty

end Identicon.Seeds
