import Identicon.Proofs.Batch
import Identicon.Proofs.Isolation
import Identicon.Proofs.Json.Values

/-!
# What a description tells

A description is made from the seeds of a user, as an avatar is, so that there is one exactly if an
avatar can be rendered. It is written as an indented document whose strings may hold any characters
and whose numbers are finite doubles. The document says all of it: a decoder that takes each number
for the double nearest to it gives back what has been written. The reader of documents in this
library is not such a decoder, since it rounds numbers more than once.
-/

namespace Identicon

open Binary64
open Json (Readable Value)

variable {trig : Trig} {part : List Char} {user : String} {seeds : Seeds} {args : List String}

/-! ## Descriptions -/

/-- A description nests its brackets two deep. -/
theorem readable_description (user : String) (h : ∀ c : Channel, (seeds.get c).isFinite = true) :
    Readable Json.greatestDepth (description user seeds) := by
  have hseeds : Readable 126 seeds.toJson := by
    apply Readable.object
    intro m hm
    simp only [List.mem_cons, List.not_mem_nil, or_false] at hm
    rcases hm with rfl | rfl | rfl
    · exact .real (h .red)
    · exact .real (h .green)
    · exact .real (h .blue)
  apply Readable.object
  intro m hm
  simp only [List.mem_cons, List.not_mem_nil, or_false] at hm
  rcases hm with rfl | rfl | rfl | rfl | rfl
  · exact .string _
  · exact hseeds
  · exact .string _
  · exact .string _
  · exact .string _

/-- What an avatar is made from, as a document. -/
def Avatar.description (user : String) (a : Avatar) : Value :=
  .object [("user".toList, .string user.toList),
    ("seeds".toList, .object [("red".toList, .number (.real a.seeds.red)),
      ("green".toList, .number (.real a.seeds.green)),
      ("blue".toList, .number (.real a.seeds.blue))]),
    ("red".toList, .string a.expressions.red.toList),
    ("green".toList, .string a.expressions.green.toList),
    ("blue".toList, .string a.expressions.blue.toList)]

theorem toList_display (e : Expr) : e.display.toList = e.formula := String.toList_ofList

/-- The description of seeds is that of the avatar that is made from them. -/
theorem description_ofSeedsUnder (user : String) (c : Canvas) (policy : Policy) :
    (Avatar.ofSeedsUnder trig seeds c policy).description user = description user seeds := by
  have hexpressions : (Avatar.ofSeedsUnder trig seeds c policy).expressions =
      ⟨(Expr.grow seeds.red).display, (Expr.grow seeds.green).display,
        (Expr.grow seeds.blue).display⟩ := rfl
  rw [Avatar.description, hexpressions]
  simp only [toList_display]
  rfl

section Run

variable {t : FileTree} (h : Request.ofArguments args = .run (.describe user))
include h

theorem runOn_describe_of_derive_eq_ok (hseeds : Seeds.derive user = .ok seeds) :
    runOn trig args t =
      (⟨0, String.ofList ((description user seeds).indented 0) ++ "\n", ""⟩, t) := by
  have houtcome : outcome ((Command.describe user).run trig) ⟨t, []⟩ =
      (.ok (String.ofList ((description user seeds).indented 0) ++ "\n"), ⟨t, []⟩) := by
    rw [Command.run, hseeds]
    rfl
  rw [runOn_of_outcome h houtcome]
  rfl

theorem code_runOn_describe_of_derive_eq_error {reason : Error}
    (hseeds : Seeds.derive user = .error reason) : (runOn trig args t).1.code = 1 := by
  have houtcome : outcome ((Command.describe user).run trig) ⟨t, []⟩ =
      (.error (.trouble (.ofError reason)), ⟨t, []⟩) := by
    rw [Command.run, hseeds]
    rfl
  rw [runOn_of_outcome h houtcome]
  rfl

end Run

/-- Any text is a user when it follows an equals sign. -/
theorem ofArguments_describe (user : String) :
    Request.ofArguments ["describe", "--user=" ++ user] = .run (.describe user) := by
  have htext : ("--user=" ++ user).toList = "--user=".toList ++ user.toList := String.toList_append
  have hdashes : ("--user=" ++ user) ≠ "--" := by
    intro heq
    rw [← String.toList_inj, htext] at heq
    exact absurd (congrArg List.length heq) (by simp)
  have hoption : looksLikeOption ("--user=" ++ user) = true := by
    rw [looksLikeOption, htext]
    rfl
  have hletters : letters? ("--user=" ++ user) = none := by
    rw [letters?, htext]
    rfl
  have hcut : cutAtEquals ("--user=" ++ user) = ("--user", some user) := by
    have hname : ("--user=".toList ++ user.toList).takeWhile (· != '=') = "--user".toList := rfl
    have hvalue : ("--user=".toList ++ user.toList).dropWhile (· != '=') = '=' :: user.toList := rfl
    rw [cutAtEquals, htext]
    simp only [hname, hvalue, String.ofList_toList]
  have hform : Form.read ⟨[("--user", .text), (logFlag, .flag)], false⟩ {} ["--user=" ++ user] =
      .ok { values := [("--user", user)] } := by
    rw [Form.read, if_neg hdashes, if_pos hoption, hletters, hcut]
    · show (Given.addValue {} .text "--user" user >>= fun g => Form.read _ g []) = _
      have hadd : Given.addValue {} .text "--user" user =
          .ok { values := [("--user", user)] } := rfl
      rw [hadd, ok_bind, Form.read]
    · intro b rest _ hrest
      cases hrest
  have hcommand : Command.ofArguments "describe" ["--user=" ++ user] = .ok (.describe user) := by
    rw [Command.ofArguments, if_neg (by decide), if_neg (by decide), if_pos rfl, hform]
    rfl
  have hread : Request.readCommand false ["describe", "--user=" ++ user] =
      .ok (.describe user) := by
    rw [Request.readCommand, if_neg (by decide), hcommand]
  rw [Request.ofArguments, hread]

/-- **A user is described exactly if an avatar of the user can be rendered**, with any options that
are accepted, and the description decodes to the user, the seeds and the expressions of that avatar
without any loss, where a number stands for the nearest double. The seeds are finite, and so are
written as numbers, because the number of characters of a user fits into a word of the machine. -/
theorem runOn_describe (trig : Trig) (interleaving : Interleaving) {args : List String}
    {user : String} (hargs : Request.ofArguments args = .run (.describe user)) (t : FileTree)
    (o : Options) (ho : o.Accepted) (ht : o.policy = .strict → trig.Bounded) :
    ((runOn trig args t).1.code = 0 ↔
      ∃ a, Avatar.renderUnder interleaving trig user o = .ok a) ∧
    ∀ a, Avatar.renderUnder interleaving trig user o = .ok a →
      (lowercaseOf user).length < 2 ^ 64 →
      Json.document (Json.readValue .nearest Json.greatestDepth) (runOn trig args t).1.output =
        .ok (a.description user) := by
  cases hseeds : Seeds.derive user with
  | error reason =>
    have hshort : (lowercaseOf user).length < 3 := by
      by_contra hlong
      rw [Seeds.derive_of_long (not_lt.mp hlong)] at hseeds
      cases hseeds
    rw [code_runOn_describe_of_derive_eq_error hargs hseeds, Avatar.renderUnder_of_short ho hshort]
    exact ⟨iff_of_false (by decide) nofun, nofun⟩
  | ok seeds =>
    have hrender := Avatar.renderUnder_eq_ofSeedsUnder interleaving ho ht hseeds
    rw [runOn_describe_of_derive_eq_ok hargs hseeds, hrender]
    refine ⟨iff_of_true rfl ⟨_, rfl⟩, ?_⟩
    intro a ha hlen
    rw [← Except.ok.inj ha, description_ofSeedsUnder]
    exact (readable_description user (isFinite_get_of_derive hlen hseeds)).document_indented

/-- A user with a letter beyond the first byte, a quote and a line break. -/
theorem runOn_describe_quoted :
    ∃ a, Avatar.renderUnder (.ofWorkers 2) .coarse "é\"\n" ⟨1, .strict, true, some 2⟩ = .ok a ∧
      (runOn .coarse ["describe", "--user=" ++ "é\"\n"] ⟨[], []⟩).1.code = 0 ∧
      Json.document (Json.readValue .nearest Json.greatestDepth)
        (runOn .coarse ["describe", "--user=" ++ "é\"\n"] ⟨[], []⟩).1.output =
          .ok (a.description "é\"\n") := by
  have hlower : (lowercaseOf "é\"\n").length = 3 := by decide +kernel
  have ho : Options.Accepted ⟨1, .strict, true, some 2⟩ := ⟨by decide, by decide⟩
  have hrender := Avatar.renderUnder_eq_ofSeedsUnder (.ofWorkers 2) ho
    (fun _ => Trig.coarse_bounded) (Seeds.derive_of_long hlower.ge)
  obtain ⟨hcode, houtput⟩ := runOn_describe .coarse (.ofWorkers 2) (ofArguments_describe "é\"\n")
    ⟨[], []⟩ ⟨1, .strict, true, some 2⟩ ho (fun _ => Trig.coarse_bounded)
  exact ⟨_, hrender, hcode.mpr ⟨_, hrender⟩, houtput _ hrender (by rw [hlower]; decide)⟩

end Identicon
