import Identicon.Proofs.Json.Kinds
import Identicon.Proofs.OptionsReadBack

/-!
# Options given in part

An object may name some of the options and leave the others out, in any order and with any blanks
between its parts. The members are read one after the other, and each of them either adds the
setting that it names to those that have been read, or ends the reading: because no option has its
key, because the option has been set before, or because its value is of another kind. So an object
whose keys are names of different options gives the default with these options replaced, and an
object with any other key, or with one of these twice, gives nothing.

## Main statements

* `Given.step`: what one member does, on the tree of its value.
* `foldEntries_eq_some`, `exists_of_foldEntries_eq_some`: what all members do.
* `read_members`: options from the text of an object.
-/

namespace Identicon.Options

open Json (Tree Piece Numeral ReadsAs ReadsAfterKey Reader decode foldEntries once)
open Decimal (digitsOf)

variable {g g' : Given} {t : Tree} {key : List Char}

/-! ## Settings -/

/-- One of the options with a value for it. -/
inductive Setting where
  | halfSize (n : UInt32)
  | policy (p : Policy)
  | parallel (b : Bool)
  | threads (n : Option UInt64)

namespace Setting

/-- The name of the option in a document. -/
def name : Setting → String
  | .halfSize _ => "half_size"
  | .policy _ => "policy"
  | .parallel _ => "parallel"
  | .threads _ => "threads"

/-- Options with this value in place of their own. -/
def replace (o : Options) : Setting → Options
  | .halfSize n => { o with halfSize := n }
  | .policy p => { o with policy := p }
  | .parallel b => { o with parallel := b }
  | .threads n => { o with threads := n }

/-- The values as they may be written: a number by its digits, a policy by its name or by an object
with the name as its only key, no number of workers as `null`. -/
inductive IsValue : Setting → Tree → Prop
  | halfSize (n : UInt32) (x : Numeral) (h : x.text = digitsOf n.toNat) :
    IsValue (.halfSize n) (.number x)
  | policy (p : Policy) (ps : List Piece) (h : decode ps = some p.name) :
    IsValue (.policy p) (.string ps)
  | onlyPolicy (p : Policy) (ps : List Piece) (h : decode ps = some p.name) :
    IsValue (.policy p) (.object [(ps, .null)])
  | parallel (b : Bool) : IsValue (.parallel b) (.boolean b)
  | threads (n : UInt64) (x : Numeral) (h : x.text = digitsOf n.toNat) :
    IsValue (.threads (some n)) (.number x)
  | noThreads : IsValue (.threads none) .null

/-- A member that names the option, whichever characters of the name are escaped, and has the value
for it. -/
def IsMember (f : Setting) (m : List Piece × Tree) : Prop :=
  decode m.1 = some f.name.toList ∧ f.IsValue m.2

theorem name_mem_fields (f : Setting) : f.name ∈ fields := by
  cases f with
  | halfSize | policy | parallel | threads => simp [name, fields]

end Setting

namespace Given

/-- What has been read and one more setting. -/
def add (g : Given) : Setting → Given
  | .halfSize n => { g with halfSize := some n }
  | .policy p => { g with policy := some p }
  | .parallel b => { g with parallel := some b }
  | .threads n => { g with threads := some n }

/-- Whether the option that a setting is for has been read. -/
def has (g : Given) : Setting → Bool
  | .halfSize _ => g.halfSize.isSome
  | .policy _ => g.policy.isSome
  | .parallel _ => g.parallel.isSome
  | .threads _ => g.threads.isSome

theorem toOptions_add (g : Given) (f : Setting) : (g.add f).toOptions = f.replace g.toOptions := by
  cases f with
  | halfSize | policy | parallel | threads => rfl

theorem toOptions_foldl_add (fs : List Setting) (g : Given) :
    (fs.foldl add g).toOptions = fs.foldl Setting.replace g.toOptions := by
  induction fs generalizing g with
  | nil => rfl
  | cons f fs ih => rw [List.foldl_cons, List.foldl_cons, ih, toOptions_add]

theorem has_add (g : Given) (f f' : Setting) :
    (g.add f).has f' = true ↔ f.name = f'.name ∨ g.has f' = true := by
  cases f <;> cases f' <;> simp [add, has, Setting.name]

/-! ## Members -/

/-- What a member adds to what has been read. -/
def step (g : Given) (key : List Char) (t : Tree) : Option Given :=
  if key = "half_size".toList then
    (once g.halfSize ((t.unsigned? UInt32.size).map Nat.toUInt32)).map fun halfSize =>
      { g with halfSize }
  else if key = "policy".toList then
    (once g.policy (t.choice? Policy.names)).map fun policy => { g with policy }
  else if key = "parallel".toList then
    (once g.parallel t.boolean?).map fun parallel => { g with parallel }
  else if key = "threads".toList then
    (once g.threads (t.optional? ((t.unsigned? UInt64.size).map Nat.toUInt64))).map fun threads =>
      { g with threads }
  else none

/-- A setting that is new is added. -/
theorem step_eq_some {f : Setting} (h : f.IsValue t) (hnew : g.has f = false) :
    g.step f.name.toList t = some (g.add f) := by
  cases h with
  | halfSize n x hx =>
    have hvalue := Json.unsigned?_eq_some hx n.toNat_lt (by decide)
    rw [step, Setting.name, if_pos rfl, hvalue, Option.map_some, Json.once_eq_some hnew,
      Nat.toUInt32, UInt32.ofNat_toNat]
    rfl
  | policy p ps hps =>
    have hvalue : (Tree.string ps).choice? Policy.names = some p := by
      show Tree.name? Policy.names (.string ps) = _
      rw [Tree.name?, hps]
      cases p with
      | clamp | wrap | strict => rfl
    rw [step, Setting.name, if_neg (by decide), if_pos rfl, hvalue, Json.once_eq_some hnew]
    rfl
  | onlyPolicy p ps hps =>
    have hvalue : (Tree.object [(ps, .null)]).choice? Policy.names = some p := by
      rw [Tree.choice?, Tree.name?, hps]
      cases p with
      | clamp | wrap | strict => rfl
    rw [step, Setting.name, if_neg (by decide), if_pos rfl, hvalue, Json.once_eq_some hnew]
    rfl
  | parallel b =>
    rw [step, Setting.name, if_neg (by decide), if_neg (by decide), if_pos rfl, Tree.boolean?,
      Json.once_eq_some hnew]
    rfl
  | threads n x hx =>
    have hvalue : (Tree.number x).optional? (((Tree.number x).unsigned? UInt64.size).map
        Nat.toUInt64) = some (some n) := by
      rw [UInt64.size, Json.unsigned?_eq_some hx n.toNat_lt le_rfl, Option.map_some, Nat.toUInt64,
        UInt64.ofNat_toNat]
      rfl
    rw [step, Setting.name, if_neg (by decide), if_neg (by decide), if_neg (by decide), if_pos rfl,
      hvalue, Json.once_eq_some hnew]
    rfl
  | noThreads =>
    rw [step, Setting.name, if_neg (by decide), if_neg (by decide), if_neg (by decide), if_pos rfl,
      Tree.optional?, Json.once_eq_some hnew]
    rfl

/-- What has been added is a setting for the option that the key names, and it is new. -/
theorem exists_of_step_eq_some (h : g.step key t = some g') :
    ∃ f : Setting, key = f.name.toList ∧ g.has f = false ∧ g' = g.add f := by
  unfold step at h
  split_ifs at h with hhalf hpolicy hparallel hthreads
  · obtain ⟨a, ha, rfl⟩ := Option.map_eq_some_iff.mp h
    obtain ⟨hnew, n, -, rfl⟩ := Json.exists_of_once_eq_some ha
    exact ⟨.halfSize n, hhalf, hnew, rfl⟩
  · obtain ⟨a, ha, rfl⟩ := Option.map_eq_some_iff.mp h
    obtain ⟨hnew, p, -, rfl⟩ := Json.exists_of_once_eq_some ha
    exact ⟨.policy p, hpolicy, hnew, rfl⟩
  · obtain ⟨a, ha, rfl⟩ := Option.map_eq_some_iff.mp h
    obtain ⟨hnew, b, -, rfl⟩ := Json.exists_of_once_eq_some ha
    exact ⟨.parallel b, hparallel, hnew, rfl⟩
  · obtain ⟨a, ha, rfl⟩ := Option.map_eq_some_iff.mp h
    obtain ⟨hnew, n, -, rfl⟩ := Json.exists_of_once_eq_some ha
    exact ⟨.threads n, hthreads, hnew, rfl⟩

end Given

theorem readsAs_readHalfSize (t : Tree) :
    ReadsAs Canvas.readHalfSize t ((t.unsigned? UInt32.size).map Nat.toUInt32) :=
  (Json.readsAs_readUnsigned "u32" UInt32.size t).map Nat.toUInt32

theorem readsAs_readThreads (t : Tree) :
    ReadsAs readThreads t (t.optional? ((t.unsigned? UInt64.size).map Nat.toUInt64)) :=
  Json.readsAs_readOptional ((Json.readsAs_readUnsigned "usize" UInt64.size t).map Nat.toUInt64)

/-- The reader of members takes the step that the tree of the value tells. -/
theorem readsAfterKey_readMember (g : Given) (key : List Char) (t : Tree) :
    ReadsAfterKey (readMember g key) t (g.step key t) := by
  intro text ht after before rest hrest
  unfold Given.step
  split_ifs with hhalf hpolicy hparallel hthreads
  · have hfield := Json.readsAfterKey_readField (readsAs_readHalfSize t) "half_size" g.halfSize
    rw [hhalf, readMember_halfSize]
    exact Json.toOption_map_of_eq (hfield text ht after before rest hrest)
      fun halfSize => { g with halfSize }
  · have hfield := Json.readsAfterKey_readField (Json.readsAs_readChoice Policy.names t) "policy"
      g.policy
    rw [hpolicy, readMember_policy]
    exact Json.toOption_map_of_eq (hfield text ht after before rest hrest)
      fun policy => { g with policy }
  · have hfield := Json.readsAfterKey_readField (Json.readsAs_readBoolean t) "parallel" g.parallel
    rw [hparallel, readMember_parallel]
    exact Json.toOption_map_of_eq (hfield text ht after before rest hrest)
      fun parallel => { g with parallel }
  · have hfield := Json.readsAfterKey_readField (readsAs_readThreads t) "threads" g.threads
    rw [hthreads, readMember_threads]
    exact Json.toOption_map_of_eq (hfield text ht after before rest hrest)
      fun threads => { g with threads }
  · rw [readMember, if_neg hhalf, if_neg hpolicy, if_neg hparallel, if_neg hthreads]
    rfl

/-! ## All members -/

/-- Members that name different options are added one after the other. -/
theorem foldEntries_eq_some {fs : List Setting} {ms : List (List Piece × Tree)}
    (h : List.Forall₂ Setting.IsMember fs ms) (hnames : (fs.map Setting.name).Nodup)
    (hnew : ∀ f ∈ fs, g.has f = false) :
    foldEntries Given.step g ms = some (fs.foldl Given.add g) := by
  induction h generalizing g with
  | nil => rfl
  | @cons f m fs ms hm hms ih =>
    obtain ⟨hkey, hvalue⟩ := hm
    obtain ⟨hf, hfs⟩ := List.forall_mem_cons.mp hnew
    rw [List.map_cons, List.nodup_cons] at hnames
    rw [Json.foldEntries_cons, hkey, Option.bind_some, Given.step_eq_some hvalue hf,
      Option.bind_some]
    -- none of the others is for the option that has just been added
    have hnew' : ∀ f' ∈ fs, (g.add f).has f' = false := by
      intro f' hf'
      rw [Bool.eq_false_iff, ne_eq, Given.has_add, not_or, Bool.not_eq_true]
      refine ⟨?_, hfs f' hf'⟩
      intro heq
      rw [heq] at hnames
      exact hnames.1 (List.mem_map_of_mem hf')
    exact ih hnames.2 hnew'

/-- Members that can be added one after the other name different options. -/
theorem exists_of_foldEntries_eq_some {ms : List (List Piece × Tree)}
    (h : foldEntries Given.step g ms = some g') :
    ∃ fs : List Setting, ms.map (decode ·.1) = fs.map (some ·.name.toList) ∧
      (fs.map Setting.name).Nodup ∧ ∀ f ∈ fs, g.has f = false := by
  induction ms generalizing g with
  | nil => exact ⟨[], rfl, List.nodup_nil, List.forall_mem_nil _⟩
  | cons m ms ih =>
    rw [Json.foldEntries_cons] at h
    obtain ⟨g₁, hstep, h⟩ := Option.bind_eq_some_iff.mp h
    obtain ⟨key, hkey, hstep⟩ := Option.bind_eq_some_iff.mp hstep
    obtain ⟨f, rfl, hf, rfl⟩ := Given.exists_of_step_eq_some hstep
    obtain ⟨fs, hms, hnames, hnew⟩ := ih h
    have hother : ∀ f' ∈ fs, f.name ≠ f'.name ∧ g.has f' = false := by
      intro f' hf'
      have := hnew f' hf'
      rwa [Bool.eq_false_iff, ne_eq, Given.has_add, not_or, Bool.not_eq_true] at this
    refine ⟨f :: fs, ?_, ?_, List.forall_mem_cons.mpr ⟨hf, fun f' hf' => (hother f' hf').2⟩⟩
    · rw [List.map_cons, List.map_cons, hkey, hms]
    · rw [List.map_cons, List.nodup_cons]
      refine ⟨fun hmem => ?_, hnames⟩
      obtain ⟨f', hf', heq⟩ := List.mem_map.mp hmem
      exact (hother f' hf').1 heq.symm

/-! ## Documents -/

/-- The options of an object are those that its members give. -/
theorem toOption_parse {ms : List (List Piece × Tree)} {text : String}
    (h : (Tree.object ms).WrittenIn text.toList) :
    (parse text).toOption = (foldEntries Given.step {} ms).map Given.toOptions := by
  refine Json.toOption_document (Json.readsAs_readRecord_object ?_) h
  rintro members rfl hmembers inside s
  exact Json.toOption_map_of_eq
    (Json.foldMembers_members readsAfterKey_readMember hmembers {} inside s) Given.toOptions

/-- **Objects that give options in part.** From the text of an object whose keys are names of
different options, in any order and with any blanks, with values for these options, the default is
read with these options replaced, if it is valid, and else the error that the check of it gives.
From the text of an object with any other key, or with the name of an option twice, nothing is read,
whatever the values are, and that is the fault of the document and not of an option. -/
theorem read_members :
    (∀ (fs : List Setting) (ms : List (List Piece × Tree)) (text : String),
      (fs.map Setting.name).Nodup → List.Forall₂ Setting.IsMember fs ms →
      (Tree.object ms).WrittenIn text.toList →
      ((fs.foldl Setting.replace {}).validate = .ok () →
        read text = .ok (fs.foldl Setting.replace {})) ∧
      ∀ e, (fs.foldl Setting.replace {}).validate = .error e →
        e.kind = .validation ∧ read text = .error e) ∧
    ∀ (ms : List (List Piece × Tree)) (text : String), (Tree.object ms).WrittenIn text.toList →
      ((∃ m ∈ ms, ∀ name ∈ fields, decode m.1 ≠ some name.toList) ∨
        ∃ name ∈ fields, List.Duplicate (some name.toList) (ms.map (decode ·.1))) →
      ∃ reason, read text = .error (.unreadableOptions reason) := by
  constructor
  · intro fs ms text hnames hms htext
    have hparse := toOption_parse htext
    rw [foldEntries_eq_some hms hnames fun f _ => by cases f <;> rfl, Option.map_some,
      Given.toOptions_foldl_add] at hparse
    exact read_of_parse_eq_ok (Json.toOption_eq_some_iff.mp hparse)
  · intro ms text htext hkeys
    cases hparse : parse text with
    | error reason => exact ⟨reason, by rw [read, hparse]; rfl⟩
    | ok o =>
      have hfold := toOption_parse htext
      rw [hparse] at hfold
      obtain ⟨g, hg, -⟩ := Option.map_eq_some_iff.mp hfold.symm
      obtain ⟨fs, hms, hnames, -⟩ := exists_of_foldEntries_eq_some hg
      exfalso
      rcases hkeys with ⟨m, hm, hother⟩ | ⟨name, -, htwice⟩
      · have hkey : decode m.1 ∈ fs.map (some ·.name.toList) := by
          rw [← hms]
          exact List.mem_map_of_mem hm
        obtain ⟨f, -, hf⟩ := List.mem_map.mp hkey
        exact hother f.name f.name_mem_fields hf.symm
      · have hinjective : Function.Injective fun name : String => some name.toList :=
          fun _ _ heq => String.toList_injective (Option.some.inj heq)
        have hnodup := hnames.map hinjective
        rw [List.map_map] at hnodup
        rw [hms] at htwice
        exact List.nodup_iff_forall_not_duplicate.mp hnodup _ htwice

/-- A number of one digit. -/
def digitNumeral (c : Char) (h : c.isDigit = true) : Numeral :=
  ⟨false, [c], ⟨List.cons_ne_nil _ _, List.forall_mem_singleton.mpr h, fun hc =>
    congrArg ([·]) (Option.some.inj hc)⟩, none, none⟩

/-- The half size 0 as a member without blanks. -/
def zeroMember : Json.Member :=
  ⟨.none, Json.unescaped "half_size".toList rfl, .none,
    ⟨.none, .number (digitNumeral '0' rfl), ['0'], .none⟩⟩

/-- A blank, the number of workers 3, and no blank behind it. -/
def threadsMember : Json.Member :=
  ⟨.space, Json.unescaped "threads".toList rfl, .none,
    ⟨.space, .number (digitNumeral '3' rfl), ['3'], .none⟩⟩

/-- A policy with an escape in the name of the option. -/
def wrapMember : Json.Member :=
  ⟨.space, .plain 'p' (by decide) :: .codeUnit '0' '0' '6' 'f' 0x6f rfl ::
      Json.unescaped "licy".toList rfl, .space,
    ⟨.space, .string (Json.unescaped "wrap".toList rfl), "\"wrap\"".toList, .space⟩⟩

/-- A number of workers and a policy leave the half size and `parallel` as they are. A half size of
zero is read and refused as a half size, and refused as a document where it is given twice. -/
theorem read_members_threads :
    read "\x7b \"threads\": 3, \"p\\u006flicy\" : \"wrap\" \x7d" = .ok ⟨210, .wrap, false, some 3⟩ ∧
    read "\x7b\"half_size\":0\x7d" = .error .zeroHalfSize ∧
    ∃ reason, read "\x7b\"half_size\":0,\"half_size\":0\x7d" =
      .error (.unreadableOptions reason) := by
  have hzero : zeroMember.slot.tree.WrittenAs zeroMember.slot.text := .number _
  have hmembers : ∀ m ∈ [threadsMember, wrapMember], m.slot.tree.WrittenAs m.slot.text :=
    List.forall_mem_cons.mpr ⟨.number _, List.forall_mem_singleton.mpr (.string _)⟩
  refine ⟨?_, ?_, ?_⟩
  · exact (read_members.1 [.threads (some 3), .policy .wrap] _ _ (by decide)
      (.cons ⟨rfl, .threads 3 _ rfl⟩ (.cons ⟨rfl, .policy _ _ rfl⟩ .nil))
      ⟨.none, .none, _, .object .none [threadsMember, wrapMember] hmembers, rfl⟩).1 rfl
  · exact ((read_members.1 [.halfSize 0] _ _ (by decide) (.cons ⟨rfl, .halfSize 0 _ rfl⟩ .nil)
      ⟨.none, .none, _, .object .none [zeroMember] (List.forall_mem_singleton.mpr hzero), rfl⟩).2
        .zeroHalfSize rfl).2
  · exact read_members.2 [zeroMember.entry, zeroMember.entry] _
      ⟨.none, .none, _, .object .none [zeroMember, zeroMember]
        (List.forall_mem_cons.mpr ⟨hzero, List.forall_mem_singleton.mpr hzero⟩), rfl⟩
      (.inr ⟨"half_size", by decide, .cons_mem (List.mem_singleton.mpr rfl)⟩)

end Identicon.Options
