import Identicon.Proofs.Batch

/-!
# Where the files of a batch are

The file for a user of a batch is named by joining the name of the user to the directory of the
batch. A name without slashes is one name in that directory, so that different users have different
files there. Any other name is a path of its own: one that begins with a slash leads wherever it
says, one with `..` leads out of the directory, and `./abc` is the same file as `abc`. What a batch
leaves is therefore told by place (`runOn_batch_files`): the last user whose path leads to a place
has it.
-/

namespace Identicon

namespace Path

variable {base name : List Char}

theorem pieces_ne_nil (path : List Char) : pieces path ≠ [] := by
  cases path with
  | nil => simp [pieces]
  | cons c rest =>
    rw [pieces]
    split_ifs
    · simp
    · split <;> simp

theorem pieces_cons_of_ne {c : Char} (h : c ≠ '/') (rest : List Char) :
    ∃ p ps, pieces rest = p :: ps ∧ pieces (c :: rest) = (c :: p) :: ps := by
  obtain ⟨p, ps, hrest⟩ := List.exists_cons_of_ne_nil (pieces_ne_nil rest)
  refine ⟨p, ps, hrest, ?_⟩
  rw [pieces, if_neg h, hrest]

theorem pieces_append_slash (base name : List Char) :
    pieces (base ++ '/' :: name) = pieces base ++ pieces name := by
  induction base with
  | nil => rfl
  | cons c base ih =>
    by_cases hc : c = '/'
    · rw [List.cons_append, pieces, pieces, if_pos hc, if_pos hc, ih]
      rfl
    · obtain ⟨p, ps, hpieces, hcons⟩ := pieces_cons_of_ne hc base
      obtain ⟨p', ps', hpieces', hcons'⟩ := pieces_cons_of_ne hc (base ++ '/' :: name)
      rw [hpieces, hpieces', List.cons_append, List.cons.injEq] at ih
      rw [List.cons_append, hcons, hcons', ih.1, ih.2]
      rfl

theorem pieces_of_not_mem (h : '/' ∉ name) : pieces name = [name] := by
  induction name with
  | nil => rfl
  | cons c name ih =>
    rw [List.mem_cons, not_or] at h
    obtain ⟨hc, hname⟩ := h
    obtain ⟨p, ps, hpieces, hcons⟩ := pieces_cons_of_ne (Ne.symm hc) name
    rw [ih hname, List.cons.injEq] at hpieces
    rw [hcons, ← hpieces.1, ← hpieces.2]

end Path

namespace FileTree

variable {t : FileTree} {base name : List Char}

/-- After a slash a path leads on from where it has come to. -/
theorem location_append_slash (hbase : base ≠ []) (name : List Char) :
    t.location (base ++ '/' :: name) = follow (t.location base) (Path.pieces name) := by
  obtain ⟨c, rest, rfl⟩ := List.exists_cons_of_ne_nil hbase
  rw [location, location, Path.pieces_append_slash, follow_append]
  rfl

/-- A slash at the end of a path says nothing, and alone it says where the path begins. -/
theorem location_append_slash_nil (base name : List Char) :
    t.location (base ++ '/' :: name) = follow (t.location (base ++ ['/'])) (Path.pieces name) := by
  cases base with
  | nil => rfl
  | cons c base =>
    rw [location_append_slash (List.cons_ne_nil c base),
      location_append_slash (List.cons_ne_nil c base)]
    rfl

/-- A path seen from a directory leads on from where that leads, unless it begins at the root. -/
theorem location_join (t : FileTree) (base name : List Char) :
    t.location (Path.join base name) =
      follow (if Path.isAbsolute name then [] else t.location base) (Path.pieces name) := by
  rw [Path.join]
  by_cases habsolute : Path.isAbsolute name = true
  · rw [if_pos habsolute, if_pos habsolute, location, start, if_pos habsolute]
  rw [if_neg habsolute, if_neg habsolute]
  by_cases hbase : base = []
  · subst hbase
    rw [if_pos (by simp), List.nil_append, location, start, if_neg habsolute]
    rfl
  by_cases hslash : base.getLast? = some '/'
  · obtain ⟨base, rfl⟩ : ∃ kept, base = kept ++ ['/'] := List.getLast?_eq_some_iff.mp hslash
    rw [if_pos (by simp), List.append_assoc]
    exact location_append_slash_nil base name
  · rw [if_neg (by simp [hbase, hslash])]
    exact location_append_slash hbase name

theorem location_join_of_not_mem (h : '/' ∉ name) (hempty : name ≠ []) (hdot : name ≠ ['.'])
    (hup : name ≠ ['.', '.']) :
    t.location (Path.join base name) = t.location base ++ [name] := by
  have habsolute : ¬ Path.isAbsolute name = true := by
    rw [Path.isAbsolute, beq_iff_eq]
    intro hhead
    exact h (List.mem_of_mem_head? hhead)
  have hsilent : ¬ Path.isSilent name = true := by
    simp [Path.isSilent, hempty, hdot]
  rw [location_join, if_neg habsolute, Path.pieces_of_not_mem h, follow, if_neg hsilent,
    if_neg hup, follow]

end FileTree

section Batch

variable {trig : Trig} {args : List String} {directory : String} {users : List String}
  {options : OptionArguments}

/-- Where the file for a user of a batch is. -/
def placeFor (t : FileTree) (directory user : String) : Location :=
  t.location (batchFile directory user).toList

/-- A name without slashes is the name of a file in the directory. -/
theorem placeFor_of_not_mem (t : FileTree) (directory : String) {user : String}
    (h : '/' ∉ user.toList) :
    placeFor t directory user =
      t.location directory.toList ++ [(user ++ ".png").toList] := by
  have htext : (user ++ ".png").toList = user.toList ++ ".png".toList := String.toList_append
  have hlength : 4 ≤ (user ++ ".png").toList.length := by
    rw [htext, List.length_append]
    exact Nat.le_add_left 4 _
  rw [placeFor, batchFile, String.toList_ofList]
  apply FileTree.location_join_of_not_mem
  · rw [htext, List.mem_append, not_or]
    exact ⟨h, by decide⟩
  · intro heq
    simp [heq] at hlength
  · intro heq
    simp [heq] at hlength
  · intro heq
    simp [heq] at hlength

/-- Different users without slashes in their names have different files. -/
theorem nodup_placeFor (t : FileTree) (directory : String) (hnodup : users.Nodup)
    (h : ∀ user ∈ users, '/' ∉ user.toList) :
    (users.map (placeFor t directory)).Nodup := by
  apply List.Nodup.map_on ?_ hnodup
  intro user huser user' huser' heq
  rw [placeFor_of_not_mem t directory (h user huser),
    placeFor_of_not_mem t directory (h user' huser'), List.append_right_inj] at heq
  exact String.toList_inj.mp (by simpa using heq)

/-! ## Steps that succeed -/

/-- A tree with nothing but the directory `out`. -/
def outOnly : FileTree :=
  ⟨[(["out".toList], .directory)], []⟩

theorem createDirectories_out :
    FileTree.createDirectories ⟨[], []⟩ "out".toList = (outOnly, .ok ()) := by
  rw [FileTree.createDirectories]
  rfl

/-- The directory above `out` exists as soon as `out` does. -/
theorem createDirectories_above_out :
    FileTree.createDirectories ⟨[], []⟩ "out/..".toList = (outOnly, .ok ()) := by
  have hmissing : FileTree.createDirectory ⟨[], []⟩ "out/..".toList = .error .notFound := rfl
  have hparent : Path.parent? "out/..".toList = some "out".toList := by decide
  have hexists : outOnly.createDirectory "out/..".toList = .error .alreadyExists := rfl
  rw [FileTree.createDirectories]
  simp only [hmissing, hparent, createDirectories_out, hexists]
  rfl

theorem exists_render_eq_ok {user : String} (h : 3 ≤ (lowercaseOf user).length) :
    ∃ a, Avatar.render .coarse user ⟨1, .clamp, false, none⟩ = .ok a :=
  ⟨_, Avatar.renderUnder_of_accepted Trig.coarse_bounded ⟨by decide, by decide⟩ h⟩

/-! ## Files -/

/-- **What a batch that succeeds leaves.** Each place that the path of a user leads to has the avatar
of the last such user, and what was in any other place is still there. If the users are different
and have no slashes in their names, then their files are different, lie in the directory of the
batch, and have their avatars. -/
theorem runOn_batch_files (t : FileTree)
    (hbatch : Request.ofArguments args = .run (.batch directory users options))
    (hcode : (runOn trig args t).1.code = 0) :
    ∃ o, t.options options = .ok o ∧
      (∀ before user after, usersOf users = before ++ user :: after →
        (∀ later ∈ after, placeFor t directory later ≠ placeFor t directory user) →
        ∃ a, Avatar.render trig user o = .ok a ∧
          (runOn trig args t).2.node? (placeFor t directory user) = some (.image a.image)) ∧
      (∀ l, (∀ user ∈ usersOf users, placeFor t directory user ≠ l) →
        t.Kept (runOn trig args t).2 l) ∧
      ((usersOf users).Nodup → (∀ user ∈ usersOf users, '/' ∉ user.toList) →
        ((usersOf users).map (placeFor t directory)).Nodup ∧
        ∀ user ∈ usersOf users,
          placeFor t directory user =
            t.location directory.toList ++ [(user ++ ".png").toList] ∧
          ∃ a, Avatar.render trig user o = .ok a ∧
            (runOn trig args t).2.node? (placeFor t directory user) = some (.image a.image)) := by
  cases hoptions : t.options options with
  | error reason =>
    rw [runOn_batch_of_options_eq_error hoptions hbatch] at hcode
    cases hcode
  | ok o =>
    obtain ⟨result, t', lines, hall, houtcome⟩ :=
      outcome_forM trig o (batchFile directory) (usersOf users) t
    have hrun := runOn_batch hoptions hbatch houtcome
    rw [hrun] at hcode ⊢
    obtain rfl := Report.code_after.mp hcode
    have hlast : ∀ before user after, usersOf users = before ++ user :: after →
        (∀ later ∈ after, placeFor t directory later ≠ placeFor t directory user) →
        ∃ a, Avatar.render trig user o = .ok a ∧
          t'.node? (placeFor t directory user) = some (.image a.image) := by
      intro before user after hsplit hlater
      rw [hsplit] at hall
      exact hall.node?_eq hlater
    refine ⟨o, rfl, hlast, ?_, ?_⟩
    · intro l hl
      exact hall.kept fun user huser => FileTree.avoids_of_location_ne (hl user huser)
    · intro hnodup hslash
      have hplaces := nodup_placeFor t directory hnodup hslash
      refine ⟨hplaces, fun user huser => ⟨placeFor_of_not_mem t directory (hslash user huser), ?_⟩⟩
      obtain ⟨before, after, hsplit⟩ := List.append_of_mem huser
      apply hlast before user after hsplit
      intro later hlater heq
      rw [hsplit, List.map_append, List.map_cons, List.nodup_append, List.nodup_cons] at hplaces
      exact hplaces.2.1.1 (heq ▸ List.mem_map_of_mem hlater)

/-- Two users whose names have no slashes. -/
theorem runOn_batch_files_abc :
    ∃ a b, Avatar.render .coarse "abc" ⟨1, .clamp, false, none⟩ = .ok a ∧
      Avatar.render .coarse "abd" ⟨1, .clamp, false, none⟩ = .ok b ∧
      (runOn .coarse ["batch", "--out-dir", "out", "--half-size", "1", "abc", "abd"] ⟨[], []⟩).2.node?
        ["out".toList, "abc.png".toList] = some (.image a.image) ∧
      (runOn .coarse ["batch", "--out-dir", "out", "--half-size", "1", "abc", "abd"] ⟨[], []⟩).2.node?
        ["out".toList, "abd.png".toList] = some (.image b.image) := by
  have hbatch : Request.ofArguments
      ["batch", "--out-dir", "out", "--half-size", "1", "abc", "abd"] =
        .run (.batch "out" ["abc", "abd"] ⟨none, some 1, false, none⟩) := by
    decide +kernel
  obtain ⟨a, ha⟩ : ∃ a, Avatar.render .coarse "abc" ⟨1, .clamp, false, none⟩ = .ok a :=
    exists_render_eq_ok (by decide +kernel)
  obtain ⟨b, hb⟩ : ∃ b, Avatar.render .coarse "abd" ⟨1, .clamp, false, none⟩ = .ok b :=
    exists_render_eq_ok (by decide +kernel)
  have hparent : ∀ user ∈ ["abc", "abd"],
      Path.parent? (batchFile "out" user).toList = some "out".toList := by
    decide
  have hfirst := outcome_writeAvatar_eq_ok ha (hparent "abc" (by decide)) (by decide)
    createDirectories_out rfl
  have hcreate : (outOnly.put ["out".toList, "abc.png".toList] (.image a.image)).createDirectories
      "out".toList = (outOnly.put ["out".toList, "abc.png".toList] (.image a.image), .ok ()) := by
    rw [FileTree.createDirectories]
    rfl
  have hsecond := outcome_writeAvatar_eq_ok hb (hparent "abd" (by decide)) (by decide) hcreate rfl
  have hrun := runOn_batch (t := ⟨[], []⟩) rfl hbatch
    (outcome_forM_cons hfirst (outcome_forM_cons hsecond outcome_forM_nil))
  have hcode : (runOn .coarse ["batch", "--out-dir", "out", "--half-size", "1", "abc", "abd"]
      ⟨[], []⟩).1.code = 0 := by
    rw [hrun]
    rfl
  obtain ⟨o, ho, -, -, hfiles⟩ := runOn_batch_files ⟨[], []⟩ hbatch hcode
  obtain rfl : ⟨1, .clamp, false, none⟩ = o := Except.ok.inj ho
  obtain ⟨-, hplaces⟩ := hfiles (by decide) (by decide)
  obtain ⟨-, a', ha', hnode⟩ := hplaces "abc" (by decide)
  obtain ⟨-, b', hb', hnode'⟩ := hplaces "abd" (by decide)
  exact ⟨a', b', ha', hb', hnode, hnode'⟩

/-- A name with `..` leads out of the directory of the batch, to a place where nothing was. -/
theorem runOn_batch_above_directory :
    ∃ report final image,
      runOn .coarse ["batch", "--out-dir", "out", "--half-size", "1", "../abc"] ⟨[], []⟩ =
        (report, final) ∧ report.code = 0 ∧
      FileTree.node? ⟨[], []⟩ ["abc.png".toList] = none ∧
      final.node? ["abc.png".toList] = some (.image image) ∧
      ¬ FileTree.location ⟨[], []⟩ "out".toList <+: ["abc.png".toList] := by
  have hbatch : Request.ofArguments
      ["batch", "--out-dir", "out", "--half-size", "1", "../abc"] =
        .run (.batch "out" ["../abc"] ⟨none, some 1, false, none⟩) := by
    decide +kernel
  obtain ⟨a, hrender⟩ : ∃ a, Avatar.render .coarse "../abc" ⟨1, .clamp, false, none⟩ = .ok a :=
    exists_render_eq_ok (by decide +kernel)
  have hwrite : outOnly.writeImage (batchFile "out" "../abc").toList a.image =
      .ok (outOnly.put ["abc.png".toList] (.image a.image)) := rfl
  have houtcome := outcome_writeAvatar_eq_ok hrender
    (by decide : Path.parent? (batchFile "out" "../abc").toList = some "out/..".toList)
    (by decide) createDirectories_above_out hwrite
  have hrun := runOn_batch (t := ⟨[], []⟩) (o := ⟨1, .clamp, false, none⟩) rfl hbatch
    (outcome_forM_cons houtcome outcome_forM_nil)
  refine ⟨_, _, a.image, hrun, Report.code_after.mpr rfl, rfl, ?_, by decide⟩
  exact FileTree.node?_put_self outOnly [] "abc.png".toList (.image a.image)

end Batch

end Identicon
