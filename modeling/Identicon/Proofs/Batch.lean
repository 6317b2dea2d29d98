import Identicon.Proofs.CoarseTrig
import Identicon.Proofs.Writing

/-!
# Batches

A batch does what as many renderings do one after the other, until one fails. The difference is
that a rendering looks for its options each time, while a batch looks for them once; they are the
same each time as long as no avatar is written to the file that the options come from. The induction
is on the users, and says of each tree that is left by those before that the options are still there.

## Main definitions

* `runInTurn`: runs of the program one after the other, up to the first that fails.
* `FirstFailure`: what is left when a user is the first to fail.
-/

namespace Identicon

/-! ## Runs -/

/-- What is left behind when lines have been told and a command has come to its end. -/
def Report.after (lines : List String) (result : Except Ending String) : Report :=
  { Report.ofResult result with
    message := String.join (lines.map (· ++ "\n")) ++ (Report.ofResult result).message }

/-- Runs the program with lists of arguments one after the other, up to the first run that fails.
What is shown is shown in the same order. -/
def runInTurn (trig : Trig) : List (List String) → FileTree → Report × FileTree
  | [], t => (⟨0, "", ""⟩, t)
  | args :: rest, t =>
    let (report, t) := runOn trig args t
    if report.code = 0 then
      let (later, t) := runInTurn trig rest t
      (⟨later.code, report.output ++ later.output, report.message ++ later.message⟩, t)
    else (report, t)

section Runs

variable {trig : Trig} {args : List String} {command : Command} {options : OptionArguments}
  {o : Options} {t t' : FileTree} {result : Except Ending Unit} {lines : List String}

theorem Report.code_after : (Report.after lines (result.map fun _ => "")).code = 0 ↔
    result = .ok () := by
  match result with
  | .ok () | .error (.trouble _) | .error .abort => simp [Report.after, Report.ofResult, Except.map]

theorem Report.after_append (told lines : List String) (result : Except Ending String) :
    (⟨(after lines result).code, (after told (.ok "")).output ++ (after lines result).output,
      (after told (.ok "")).message ++ (after lines result).message⟩ : Report) =
      after (told ++ lines) result := by
  simp only [after, ofResult, List.map_append, String.join_append, String.append_assoc,
    String.empty_append]

theorem runOn_of_outcome {result : Except Ending String}
    (h : Request.ofArguments args = .run command)
    (houtcome : outcome (command.run trig) ⟨t, []⟩ = (result, ⟨t', lines⟩)) :
    runOn trig args t = (.after lines result, t') := by
  have hrun : (runProgram trig args : StateM Memory Report).run ⟨t, []⟩ =
      (.ofResult (outcome (command.run trig) ⟨t, []⟩).1,
        (outcome (command.run trig) ⟨t, []⟩).2) := by
    rw [runProgram, h]
    rfl
  rw [runOn]
  simp only
  rw [hrun, houtcome]
  rfl

/-- The users of a batch, which are sample users if none are named. -/
def usersOf (users : List String) : List String :=
  if users.isEmpty then sampleUsers else users

section Found

variable (ho : t.options options = .ok o)
include ho

theorem runOn_render {user out : String}
    (h : Request.ofArguments args = .run (.render user out options))
    (houtcome : ∀ told, outcome (writeAvatar trig user out o) ⟨t, told⟩ =
      (result, ⟨t', told ++ lines⟩)) :
    runOn trig args t = (.after lines (result.map fun _ => ""), t') := by
  apply runOn_of_outcome h
  rw [Command.run]
  simp only [outcome_bind, outcome_resolveOptions, ho, Except.mapError, houtcome]
  cases result <;> rfl

theorem runOn_batch {directory : String} {users : List String}
    (h : Request.ofArguments args = .run (.batch directory users options))
    (houtcome : ∀ told, outcome ((usersOf users).forM fun user =>
      writeAvatar trig user (batchFile directory user) o) ⟨t, told⟩ =
        (result, ⟨t', told ++ lines⟩)) :
    runOn trig args t = (.after lines (result.map fun _ => ""), t') := by
  apply runOn_of_outcome h
  rw [usersOf] at houtcome
  rw [Command.run]
  simp only [outcome_bind, outcome_resolveOptions, ho, Except.mapError, houtcome]
  cases result <;> rfl

end Found

section NotFound

variable {reason : Error} (hreason : t.options options = .error reason)
include hreason

theorem runOn_render_of_options_eq_error {user out : String}
    (h : Request.ofArguments args = .run (.render user out options)) :
    runOn trig args t = (⟨1, "", (Trouble.ofError reason).text⟩, t) := by
  have houtcome : outcome ((Command.render user out options).run trig) ⟨t, []⟩ =
      (.error (.trouble (.ofError reason)), ⟨t, []⟩) := by
    rw [Command.run]
    simp only [outcome_bind, outcome_resolveOptions, hreason, Except.mapError]
  exact runOn_of_outcome h houtcome

theorem runOn_batch_of_options_eq_error {directory : String} {users : List String}
    (h : Request.ofArguments args = .run (.batch directory users options)) :
    runOn trig args t = (⟨1, "", (Trouble.ofError reason).text⟩, t) := by
  have houtcome : outcome ((Command.batch directory users options).run trig) ⟨t, []⟩ =
      (.error (.trouble (.ofError reason)), ⟨t, []⟩) := by
    rw [Command.run]
    simp only [outcome_bind, outcome_resolveOptions, hreason, Except.mapError]
  exact runOn_of_outcome h houtcome

end NotFound

/-! ## Batches and renderings -/

section Turns

variable {report : Report} {rest : List (List String)}

theorem runInTurn_cons_of_code_eq (h : runOn trig args t = (report, t')) (hcode : report.code = 0) :
    runInTurn trig (args :: rest) t =
      (⟨(runInTurn trig rest t').1.code, report.output ++ (runInTurn trig rest t').1.output,
        report.message ++ (runInTurn trig rest t').1.message⟩, (runInTurn trig rest t').2) := by
  rw [runInTurn, h]
  exact if_pos hcode

theorem runInTurn_cons_of_code_ne (h : runOn trig args t = (report, t')) (hcode : report.code ≠ 0) :
    runInTurn trig (args :: rest) t = (report, t') := by
  rw [runInTurn, h]
  exact if_neg hcode

/-- Runs that succeed are followed by the others. -/
theorem runInTurn_append_of_code_eq {first : List (List String)}
    (h : runInTurn trig first t = (report, t')) (hcode : report.code = 0) :
    runInTurn trig (first ++ rest) t =
      (⟨(runInTurn trig rest t').1.code, report.output ++ (runInTurn trig rest t').1.output,
        report.message ++ (runInTurn trig rest t').1.message⟩, (runInTurn trig rest t').2) := by
  induction first generalizing t report with
  | nil =>
    cases h
    simp
  | cons args first ih =>
    obtain ⟨now, t₁, hnow⟩ : ∃ now t₁, runOn trig args t = (now, t₁) := ⟨_, _, rfl⟩
    by_cases hok : now.code = 0
    · rw [runInTurn_cons_of_code_eq hnow hok] at h
      cases h
      rw [List.cons_append, runInTurn_cons_of_code_eq hnow hok, ih rfl hcode]
      simp [String.append_assoc]
    · rw [runInTurn_cons_of_code_ne hnow hok] at h
      cases h
      exact absurd hcode hok

/-- A failure is that of one run, after others that succeed. -/
theorem exists_code_ne_of_runInTurn {α : Type} {arguments : α → List String} {users : List α}
    (h : (runInTurn trig (users.map arguments) t).1.code ≠ 0) :
    ∃ before user after done middle, users = before ++ user :: after ∧
      runInTurn trig (before.map arguments) t = (done, middle) ∧ done.code = 0 ∧
      (runOn trig (arguments user) middle).1.code ≠ 0 := by
  induction users generalizing t with
  | nil => exact absurd rfl h
  | cons user users ih =>
    obtain ⟨now, t₁, hnow⟩ : ∃ now t₁, runOn trig (arguments user) t = (now, t₁) := ⟨_, _, rfl⟩
    by_cases hok : now.code = 0
    · rw [List.map_cons, runInTurn_cons_of_code_eq hnow hok] at h
      obtain ⟨before, failing, after, done, middle, rfl, hturns, hdone, hne⟩ := ih h
      refine ⟨user :: before, failing, after, _, _, rfl, runInTurn_cons_of_code_eq hnow hok, ?_, ?_⟩
      · rwa [hturns]
      · rwa [hturns]
    · exact ⟨[], user, users, _, t, rfl, rfl, rfl, by rwa [hnow]⟩

end Turns

section Same

variable {file : String → String} {arguments : String → List String} {users : List String}
  (ho : t.options options = .ok o)
  (hrender : ∀ user ∈ users,
    Request.ofArguments (arguments user) = .run (.render user (file user) options))
  (hapart : ∀ path, options.file = some path → ∀ user ∈ users,
    t.Apart (file user).toList path.toList)
include ho hrender hapart

/-- Renderings in turn find the same options, and do what one command does that finds them once. -/
theorem runInTurn_eq
    (houtcome : ∀ told,
      outcome (users.forM fun user => writeAvatar trig user (file user) o) ⟨t, told⟩ =
        (result, ⟨t', told ++ lines⟩)) :
    runInTurn trig (users.map arguments) t = (.after lines (result.map fun _ => ""), t') := by
  induction users generalizing t lines with
  | nil =>
    have hdone : ((.ok (), ⟨t, []⟩) : Except Ending Unit × Memory) = (result, ⟨t', lines⟩) :=
      houtcome []
    cases hdone
    rfl
  | cons user users ih =>
    obtain ⟨hrender, hrender'⟩ := List.forall_mem_cons.mp hrender
    obtain ⟨first, t₁, hfirst, hwrite⟩ := outcome_writeAvatar trig o user (file user) t
    have hrun := runOn_render ho hrender hwrite
    cases first with
    | error e =>
      simp only [List.forM, outcome_bind, hwrite] at houtcome
      have hstop : ((.error e, ⟨t₁, []⟩) : Except Ending Unit × Memory) = (result, ⟨t', lines⟩) :=
        houtcome []
      cases hstop
      exact runInTurn_cons_of_code_ne hrun (Report.code_after.not.mpr (by simp))
    | ok =>
      obtain ⟨result', t₂, lines', -, hall⟩ := outcome_forM trig o file users t₁
      have htold : ((result', ⟨t₂, ["wrote " ++ file user] ++ lines'⟩) :
          Except Ending Unit × Memory) = (result, ⟨t', lines⟩) :=
        (outcome_forM_cons hwrite hall []).symm.trans (houtcome [])
      cases htold
      have ho' := (WritesAll.next hfirst (.done t₁)).options_eq_ok ho fun path hpath later hlater =>
        hapart path hpath later (List.mem_cons.mpr (.inl (List.mem_singleton.mp hlater)))
      have hapart' : ∀ path, options.file = some path → ∀ later ∈ users,
          t₁.Apart (file later).toList path.toList := fun path hpath later hlater =>
        (hapart path hpath later (List.mem_cons_of_mem _ hlater)).mono hfirst.grows
      rw [List.map_cons, runInTurn_cons_of_code_eq hrun (Report.code_after.mpr rfl),
        ih ho' hrender' hapart' hall]
      exact Prod.ext (Report.after_append _ _ _) rfl

/-- What is left when a user is the first to fail: `middle` after all users before, and `final`
after that user, with whom the batch ends. -/
structure FirstFailure (trig : Trig) (options : OptionArguments) (file : String → String)
    (t middle final : FileTree) (before : List String) (user : String) : Prop where
  /-- No file is written for that user, nor for those after. -/
  kept : ∀ l, middle.Kept final l
  /-- Of the users before whose paths lead to one place, the last has it. -/
  image : ∀ earlier written later, before = earlier ++ written :: later →
    (∀ u ∈ later, t.location (file u).toList ≠ t.location (file written).toList) →
    ∃ o a, t.options options = .ok o ∧ Avatar.render trig written o = .ok a ∧
      final.node? (t.location (file written).toList) = some (.image a.image)
  unrendered : ∀ o f, t.options options = .ok o → Avatar.render trig user o = .error f →
    final = middle
  short : (lowercaseOf user).length < 3 → final = middle

/-- The users before the first to fail have their avatars, and keep them. -/
theorem firstFailure_of_options_eq_ok {before after : List String} {user : String}
    {done failed : Report} {middle final : FileTree} (hsplit : users = before ++ user :: after)
    (hbefore : runInTurn trig (before.map arguments) t = (done, middle)) (hdone : done.code = 0)
    (huser : runOn trig (arguments user) middle = (failed, final)) (hfailed : failed.code ≠ 0) :
    FirstFailure trig options file t middle final before user := by
  subst hsplit
  obtain ⟨result, t₁, lines, hall, houtcome⟩ := outcome_forM trig o file before t
  have hapart' : ∀ path, options.file = some path → ∀ earlier ∈ before,
      t.Apart (file earlier).toList path.toList := fun path hpath earlier hearlier =>
    hapart path hpath earlier (List.mem_append_left _ hearlier)
  have hturns := runInTurn_eq ho
    (fun earlier hearlier => hrender earlier (List.mem_append_left _ hearlier)) hapart' houtcome
  rw [hbefore, Prod.mk.injEq] at hturns
  obtain ⟨rfl, rfl⟩ := hturns
  obtain rfl := Report.code_after.mp hdone
  have ho' := hall.options_eq_ok ho hapart'
  obtain ⟨result, t₂, hwrites, hwrite⟩ := outcome_writeAvatar trig o user (file user) middle
  have hrun := runOn_render ho' (hrender user (by simp)) hwrite
  rw [huser, Prod.mk.injEq] at hrun
  obtain ⟨rfl, rfl⟩ := hrun
  cases result with
  | ok => exact absurd (Report.code_after.mpr rfl) hfailed
  | error e =>
    have hkept := hwrites.growsDirectories.kept
    refine ⟨hkept, ?_, ?_, ?_⟩
    · intro earlier written later hbefore hlater
      subst hbefore
      obtain ⟨a, ha, hnode⟩ := hall.node?_eq hlater
      exact ⟨o, a, ho, ha, (hkept _).node?_eq hnode⟩
    · intro o' f ho'' hf
      rw [ho] at ho''
      cases ho''
      exact hwrites.eq_of_render_eq_error hf
    · intro hshort
      exact hwrites.eq_of_render_eq_error
        (Avatar.renderUnder_of_short (FileTree.accepted_of_options_eq_ok ho) hshort)

end Same

/-- Without options it is the first user of all who fails. -/
theorem firstFailure_of_options_eq_error {reason : Error} {file : String → String}
    {arguments : String → List String} {users before after : List String} {user : String}
    {done failed : Report} {middle final : FileTree} (hreason : t.options options = .error reason)
    (hrender : ∀ user ∈ users,
      Request.ofArguments (arguments user) = .run (.render user (file user) options))
    (hsplit : users = before ++ user :: after)
    (hbefore : runInTurn trig (before.map arguments) t = (done, middle)) (hdone : done.code = 0)
    (huser : runOn trig (arguments user) middle = (failed, final)) :
    FirstFailure trig options file t middle final before user := by
  cases before with
  | cons first before =>
    have hfirst : runOn trig (arguments first) t = _ :=
      runOn_render_of_options_eq_error hreason (hrender first (by simp [hsplit]))
    rw [List.map_cons, runInTurn_cons_of_code_ne hfirst (by simp)] at hbefore
    cases hbefore
    cases hdone
  | nil =>
    cases hbefore
    rw [runOn_render_of_options_eq_error hreason (hrender user (by simp [hsplit]))] at huser
    cases huser
    refine ⟨fun l => .inl rfl, ?_, fun _ _ _ _ => rfl, fun _ => rfl⟩
    intro earlier written later hnil
    exact absurd hnil.symm (by simp)

/-- **A batch does what as many renderings do in turn, up to the first that fails.** The renderings
have the same options, and write the file that the batch has for their user; `hapart` says that this
is never the file of the options. The trees that are left are the same, and so is all that is shown.
Without options nothing changes. Otherwise there is a first user to fail if any does: the avatars of
all before stay, nothing is done for those after, and only directories can come to be for that user,
none if there is no avatar. -/
theorem runOn_batch_eq_runInTurn (trig : Trig) {directory : String} {users : List String}
    {arguments : String → List String} (t : FileTree)
    (hbatch : Request.ofArguments args = .run (.batch directory users options))
    (hrender : ∀ user ∈ users, Request.ofArguments (arguments user) =
      .run (.render user (batchFile directory user) options))
    (husers : users ≠ [])
    (hapart : ∀ path, options.file = some path → ∀ user ∈ users,
      t.Apart (batchFile directory user).toList path.toList) :
    runOn trig args t = runInTurn trig (users.map arguments) t ∧
    (∀ reason, t.options options = .error reason → (runOn trig args t).2 = t) ∧
    ((runOn trig args t).1.code ≠ 0 → ∃ before user after done middle,
      users = before ++ user :: after ∧
      runInTurn trig (before.map arguments) t = (done, middle) ∧ done.code = 0 ∧
      (runOn trig (arguments user) middle).1.code ≠ 0) ∧
    ∀ before user after done middle failed final, users = before ++ user :: after →
      runInTurn trig (before.map arguments) t = (done, middle) → done.code = 0 →
      runOn trig (arguments user) middle = (failed, final) → failed.code ≠ 0 →
      runOn trig args t =
        (⟨failed.code, done.output ++ failed.output, done.message ++ failed.message⟩, final) ∧
      FirstFailure trig options (batchFile directory) t middle final before user := by
  have hsame : runOn trig args t = runInTurn trig (users.map arguments) t := by
    cases hoptions : t.options options with
    | error reason =>
      obtain ⟨user, rest, rfl⟩ := List.exists_cons_of_ne_nil husers
      have hrun : runOn trig (arguments user) t = _ :=
        runOn_render_of_options_eq_error hoptions (hrender user List.mem_cons_self)
      rw [runOn_batch_of_options_eq_error hoptions hbatch, List.map_cons,
        runInTurn_cons_of_code_ne hrun (by simp)]
    | ok o =>
      obtain ⟨result, t', lines, -, houtcome⟩ :=
        outcome_forM trig o (batchFile directory) users t
      rw [runInTurn_eq hoptions hrender hapart houtcome]
      apply runOn_batch hoptions hbatch
      rwa [usersOf, if_neg (by simpa using husers)]
  refine ⟨hsame, ?_, ?_, ?_⟩
  · intro reason hreason
    rw [runOn_batch_of_options_eq_error hreason hbatch]
  · rw [hsame]
    exact exists_code_ne_of_runInTurn
  · intro before user after done middle failed final hsplit hbefore hdone huser hfailed
    refine ⟨?_, ?_⟩
    · rw [hsame, hsplit, List.map_append, List.map_cons,
        runInTurn_append_of_code_eq hbefore hdone, runInTurn_cons_of_code_ne huser hfailed]
    · cases hoptions : t.options options with
      | ok o =>
        exact firstFailure_of_options_eq_ok hoptions hrender hapart hsplit hbefore hdone huser
          hfailed
      | error reason =>
        exact firstFailure_of_options_eq_error hoptions hrender hsplit hbefore hdone huser

/-- A tree with nothing but a file of options that leaves all options alone. -/
def optionsOnly : FileTree :=
  ⟨[(["o.json".toList], .file "\x7b\x7d".toUTF8)], []⟩

/-- Two users with options from a file, the second of whom has too short a name. -/
theorem runOn_batch_eq_runInTurn_abc :
    ∃ (done failed : Report) (middle final : FileTree),
      runInTurn .coarse [["render", "--user", "abc", "--out", "out/abc.png", "--opts", "o.json"]]
        optionsOnly = (done, middle) ∧ done.code = 0 ∧
      runOn .coarse ["batch", "--out-dir", "out", "--opts", "o.json", "abc", "ab"] optionsOnly =
        (⟨1, "", done.message ++ failed.message⟩, final) ∧
      FirstFailure .coarse ⟨some "o.json", none, false, none⟩ (batchFile "out") optionsOnly middle
        final ["abc"] "ab" := by
  have hbatch : Request.ofArguments ["batch", "--out-dir", "out", "--opts", "o.json", "abc", "ab"] =
      .run (.batch "out" ["abc", "ab"] ⟨some "o.json", none, false, none⟩) := by
    decide +kernel
  have hrender : ∀ user ∈ ["abc", "ab"], Request.ofArguments
      ["render", "--user", user, "--out", batchFile "out" user, "--opts", "o.json"] =
        .run (.render user (batchFile "out" user) ⟨some "o.json", none, false, none⟩) := by
    decide +kernel
  have hlocation : ∀ user ∈ ["abc", "ab"],
      optionsOnly.location (batchFile "out" user).toList ≠
        optionsOnly.location "o.json".toList := by
    decide +kernel
  have ho : optionsOnly.options ⟨some "o.json", none, false, none⟩ = .ok {} := rfl
  have haccepted : Options.Accepted {} := ⟨by decide, by decide⟩
  obtain ⟨a, ha⟩ : ∃ a, Avatar.render .coarse "abc" {} = .ok a :=
    ⟨_, Avatar.renderUnder_of_accepted Trig.coarse_bounded haccepted (by decide +kernel)⟩
  have hshort : Avatar.render .coarse "ab" {} = _ :=
    Avatar.renderUnder_of_short haccepted (by decide +kernel)
  -- the directory is created, and the first avatar is written
  have hcreate : optionsOnly.createDirectories "out".toList =
      (optionsOnly.put ["out".toList] .directory, .ok ()) := by
    rw [FileTree.createDirectories]
    rfl
  have hparent : Path.parent? (batchFile "out" "abc").toList = some "out".toList := by decide
  have hwrite := outcome_writeAvatar_eq_ok ha hparent (by decide) hcreate rfl
  have hdone := runOn_render ho (hrender "abc" (by decide)) hwrite
  -- the second user finds the same options
  have hfailed := runOn_render (t := (optionsOnly.put ["out".toList] .directory).put
      ["out".toList, "abc.png".toList] (.image a.image)) rfl (hrender "ab" (by decide))
    (outcome_writeAvatar_of_render_eq_error hshort)
  have law := runOn_batch_eq_runInTurn .coarse optionsOnly hbatch hrender (by simp) <| by
    rintro path ⟨⟩ user huser
    exact FileTree.apart_of_location_ne (hlocation user huser)
  have hturn : runInTurn .coarse [_] optionsOnly = _ :=
    runInTurn_cons_of_code_eq hdone (Report.code_after.mpr rfl)
  obtain ⟨hrun, hfirst⟩ := law.2.2.2 ["abc"] "ab" [] _ _ _ _ rfl hturn rfl hfailed (by decide)
  exact ⟨_, _, _, _, hturn, rfl, hrun, hfirst⟩

end Runs

end Identicon
