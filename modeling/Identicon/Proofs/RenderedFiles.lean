import Identicon.Proofs.Batch
import Identicon.Proofs.Schedules

/-!
# What a rendered file depends on

The options of a command come from a file or are the default ones, and arguments take their place.
Both the options of the file and those that come out have to be valid. Of the options that come out,
the half size is all that can be seen in a file: no grown expression leaves the range in which the
policies agree, and work at the same time gives what work one after the other does. Two renderings
for one user and one half size therefore write the same image, wherever the half size comes from
and whatever the other options are.

## Main definitions

* `FileTree.Provides`: the options that a command begins with.
-/

namespace Identicon

variable {trig : Trig} {t t' : FileTree} {args args' : OptionArguments} {o found : Options}

/-! ## Options -/

/-- The options that a command begins with: those of the file that is named, which has to be a text
that parses and has to be valid by itself, or the default ones if none is named. -/
inductive FileTree.Provides (t : FileTree) : Option String → Options → Prop
  | default :
    t.Provides none { halfSize := 210, policy := .clamp, parallel := false, threads := none }
  | file {path text : String} {o : Options} (hread : t.readText path.toList = .ok text)
    (hparse : Options.parse text = .ok o) (hvalid : o.Accepted) : t.Provides (some path) o

theorem Options.validate_eq_ok_iff : o.validate = .ok () ↔ o.Accepted := by
  refine ⟨?_, validate_of_accepted⟩
  intro h
  by_contra hnot
  obtain ⟨reason, hreason, -⟩ := validate_of_not_accepted hnot
  rw [hreason] at h
  cases h

theorem Options.overrideValid_eq_ok_iff :
    found.overrideValid args = .ok o ↔ o = found.override args ∧ o.Accepted := by
  constructor
  · intro h
    obtain ⟨valid, hvalidate, h⟩ := exists_of_bind_eq_ok h
    cases h
    exact ⟨rfl, validate_eq_ok_iff.mp hvalidate⟩
  · rintro ⟨rfl, haccepted⟩
    rw [overrideValid, validate_of_accepted haccepted]
    rfl

/-- A text gives options if it parses and they are valid. -/
theorem Options.read_eq_ok_iff {text : String} :
    Options.read text = .ok o ↔ Options.parse text = .ok o ∧ o.Accepted := by
  rw [Options.read]
  cases hparse : Options.parse text with
  | error reason => exact iff_of_false nofun (fun h => nomatch h.1)
  | ok found =>
    constructor
    · intro h
      obtain ⟨valid, hvalidate, h⟩ := exists_of_bind_eq_ok h
      cases h
      exact ⟨rfl, validate_eq_ok_iff.mp hvalidate⟩
    · rintro ⟨heq, haccepted⟩
      cases heq
      dsimp only
      rw [validate_of_accepted haccepted]
      rfl

/-- The options that a command finds are those it begins with, overridden, if these are valid. -/
theorem FileTree.options_eq_ok_iff :
    t.options args = .ok o ↔
      ∃ found, t.Provides args.file found ∧ o = found.override args ∧ o.Accepted := by
  rw [FileTree.options]
  cases args.file with
  | none =>
    dsimp only
    rw [ok_bind, Options.overrideValid_eq_ok_iff]
    constructor
    · intro h
      exact ⟨_, .default, h⟩
    · rintro ⟨found, hprovides, h⟩
      cases hprovides
      exact h
  | some path =>
    dsimp only
    constructor
    · intro h
      obtain ⟨found, hfound, h⟩ := exists_of_bind_eq_ok h
      refine ⟨found, ?_, Options.overrideValid_eq_ok_iff.mp h⟩
      cases hread : t.readText path.toList with
      | error e =>
        rw [hread] at hfound
        cases hfound
      | ok text =>
        rw [hread] at hfound
        obtain ⟨hparse, hvalid⟩ := Options.read_eq_ok_iff.mp hfound
        exact .file hread hparse hvalid
    · rintro ⟨found, hprovides, h⟩
      cases hprovides with
      | file hread hparse hvalid =>
        have hfound : Options.ofFile path (t.readText path.toList) = .ok found := by
          rw [hread]
          exact Options.read_eq_ok_iff.mpr ⟨hparse, hvalid⟩
        rw [hfound, ok_bind, Options.overrideValid_eq_ok_iff]
        exact h

theorem resolveOptions_eq_ok_iff {told : List String} :
    (outcome (resolveOptions args) ⟨t, told⟩).1 = .ok o ↔ t.options args = .ok o := by
  rw [outcome_resolveOptions]
  cases t.options args with
  | ok o' => rw [Except.mapError, Except.ok.injEq, Except.ok.injEq]
  | error e => exact iff_of_false nofun nofun

/-! ## Files -/

/-- A file in the directory where paths begin is written without creating any directory. -/
theorem outcome_writeAvatar_of_no_parent {user out : String} {a : Avatar}
    (hrender : Avatar.render trig user o = .ok a) (hparent : Path.parent? out.toList = some [])
    (hwrite : t.writeImage out.toList a.image = .ok t') (told : List String) :
    outcome (writeAvatar trig user out o) ⟨t, told⟩ =
      (.ok (), ⟨t', told ++ ["wrote " ++ out]⟩) := by
  have hcreated : outcome (createParent out) ⟨t, told⟩ = (.ok (), ⟨t, told⟩) := by
    rw [createParent, hparent]
    rfl
  rw [writeAvatar_of_render_eq_ok hrender, outcome_bind, hcreated]
  simp only [outcome_saveImage, hwrite]

/-- An avatar shows the half size of its options and nothing else of them. -/
theorem Avatar.imageOfSize_of_render_eq_ok (ht : trig.Bounded) {user : String} {a : Avatar}
    (h : render trig user o = .ok a) : imageOfSize trig user o.halfSize = .ok a.image := by
  have hthreads : (none : Option UInt64) = some 0 ↔ o.threads = some 0 :=
    iff_of_false nofun (accepted_of_renderUnder_eq_ok h).1.2
  have hsame : render trig user { halfSize := o.halfSize } = render trig user o :=
    renderUnder_congr ht rfl hthreads
  rw [imageOfSize, hsame, h]
  rfl

variable {arguments arguments' : List String} {user out out' : String}

/-- A rendering that succeeds has written the image of its user and of its half size. -/
theorem exists_image_of_runOn_render (ht : trig.Bounded)
    (hrender : Request.ofArguments arguments = .run (.render user out args))
    (hcode : (runOn trig arguments t).1.code = 0) :
    ∃ found image, t.Provides args.file found ∧
      Avatar.imageOfSize trig user (args.halfSize.getD found.halfSize) = .ok image ∧
      (runOn trig arguments t).2.node? (t.location out.toList) = some (.image image) := by
  cases hoptions : t.options args with
  | error reason =>
    rw [runOn_render_of_options_eq_error hoptions hrender] at hcode
    cases hcode
  | ok o =>
    obtain ⟨result, t', hwrites, houtcome⟩ := outcome_writeAvatar trig o user out t
    have hrun := runOn_render hoptions hrender houtcome
    rw [hrun] at hcode ⊢
    obtain rfl := Report.code_after.mp hcode
    obtain ⟨a, ha, hnode⟩ := hwrites.node?_eq
    obtain ⟨found, hprovides, rfl, -⟩ := FileTree.options_eq_ok_iff.mp hoptions
    exact ⟨found, a.image, hprovides, Avatar.imageOfSize_of_render_eq_ok ht ha, hnode⟩

/-- Options that a command begins with are the only ones. -/
theorem FileTree.Provides.unique {file : Option String} {found' : Options}
    (h : t.Provides file found) (h' : t.Provides file found') : found = found' := by
  cases h with
  | default =>
    cases h'
    rfl
  | file hread hparse =>
    cases h' with
    | file hread' hparse' =>
      cases hread.symm.trans hread'
      exact Except.ok.inj (hparse.symm.trans hparse')

/-- **A rendered file depends on the user and on the half size alone.** Options are found exactly if
the file that is named parses to valid ones and the options with the arguments in their place have
an accepted half size and do not ask for zero workers. A rendering that succeeds has found such
options, and has written the image of its user and of the half size that came out. Any two with the
same user and the same half size have therefore written the same image, whatever their policies,
ways of working and numbers of workers are. -/
theorem runOn_render_depends (trig : Trig) (ht : trig.Bounded) :
    (∀ (t : FileTree) (told : List String) (args : OptionArguments) (o : Options),
      (outcome (resolveOptions args) ⟨t, told⟩).1 = .ok o ↔
        ∃ found, t.Provides args.file found ∧
          o = ⟨args.halfSize.getD found.halfSize, found.policy, found.parallel || args.parallel,
            args.threads <|> found.threads⟩ ∧
          (1 ≤ o.halfSize ∧ o.halfSize ≤ 4096) ∧ o.threads ≠ some 0) ∧
    ∀ (arguments : List String) (t : FileTree) (user out : String) (args : OptionArguments),
      Request.ofArguments arguments = .run (.render user out args) →
      (runOn trig arguments t).1.code = 0 →
      ∃ found image, t.Provides args.file found ∧
        Avatar.imageOfSize trig user (args.halfSize.getD found.halfSize) = .ok image ∧
        (runOn trig arguments t).2.node? (t.location out.toList) = some (.image image) ∧
        ∀ (arguments' : List String) (t' : FileTree) (out' : String) (args' : OptionArguments)
          (found' : Options),
          Request.ofArguments arguments' = .run (.render user out' args') →
          (runOn trig arguments' t').1.code = 0 → t'.Provides args'.file found' →
          args'.halfSize.getD found'.halfSize = args.halfSize.getD found.halfSize →
          (runOn trig arguments' t').2.node? (t'.location out'.toList) = some (.image image) := by
  refine ⟨?_, ?_⟩
  · intro t told args o
    rw [resolveOptions_eq_ok_iff, FileTree.options_eq_ok_iff]
    rfl
  · intro arguments t user out args hrender hcode
    obtain ⟨found, image, hprovides, himage, hnode⟩ :=
      exists_image_of_runOn_render ht hrender hcode
    refine ⟨found, image, hprovides, himage, hnode, ?_⟩
    intro arguments' t' out' args' found' hrender' hcode' hprovides' hsize
    obtain ⟨found'', image', hprovides'', himage', hnode'⟩ :=
      exists_image_of_runOn_render ht hrender' hcode'
    obtain rfl := hprovides'.unique hprovides''
    rw [hsize] at himage'
    obtain rfl : image = image' := Except.ok.inj (himage.symm.trans himage')
    exact hnode'

/-- A tree with nothing but a file of options, for the smallest canvas. -/
def smallOptions : FileTree :=
  ⟨[(["o.json".toList], .file
    "\x7b\"half_size\":1,\"policy\":\"wrap\",\"parallel\":true\x7d".toUTF8)], []⟩

/-- A half size from a file and one from an argument, under different policies and with different
ways of working. -/
theorem runOn_render_depends_abc :
    ∃ image : Image, Avatar.imageOfSize .coarse "abc" 1 = .ok image ∧
      (runOn .coarse ["render", "--user", "abc", "--out", "a.png", "--opts", "o.json"]
        smallOptions).2.node? ["a.png".toList] = some (.image image) ∧
      (runOn .coarse ["render", "--user", "abc", "--out", "b.png", "--half-size", "1",
        "--threads", "3"] ⟨[], []⟩).2.node? ["b.png".toList] = some (.image image) := by
  have hrender : Request.ofArguments
      ["render", "--user", "abc", "--out", "a.png", "--opts", "o.json"] =
        .run (.render "abc" "a.png" ⟨some "o.json", none, false, none⟩) := by
    decide +kernel
  have hrender' : Request.ofArguments
      ["render", "--user", "abc", "--out", "b.png", "--half-size", "1", "--threads", "3"] =
        .run (.render "abc" "b.png" ⟨none, some 1, false, some 3⟩) := by
    decide +kernel
  have hparse : Options.parse "\x7b\"half_size\":1,\"policy\":\"wrap\",\"parallel\":true\x7d" =
      .ok ⟨1, .wrap, true, none⟩ := rfl
  have hread : smallOptions.readText "o.json".toList =
      .ok "\x7b\"half_size\":1,\"policy\":\"wrap\",\"parallel\":true\x7d" := rfl
  have hprovides : smallOptions.Provides (some "o.json") ⟨1, .wrap, true, none⟩ :=
    .file hread hparse ⟨by decide, by decide⟩
  have hlong : 3 ≤ (lowercaseOf "abc").length := by decide +kernel
  -- both renderings succeed
  obtain ⟨a, ha⟩ : ∃ a, Avatar.render .coarse "abc" ⟨1, .wrap, true, none⟩ = .ok a :=
    ⟨_, Avatar.renderUnder_of_accepted Trig.coarse_bounded ⟨by decide, by decide⟩ hlong⟩
  obtain ⟨b, hb⟩ : ∃ b, Avatar.render .coarse "abc" ⟨1, .clamp, false, some 3⟩ = .ok b :=
    ⟨_, Avatar.renderUnder_of_accepted Trig.coarse_bounded ⟨by decide, by decide⟩ hlong⟩
  have hrun := runOn_render (t := smallOptions) rfl hrender
    (outcome_writeAvatar_of_no_parent ha rfl rfl)
  have hrun' := runOn_render (t := ⟨[], []⟩) rfl hrender'
    (outcome_writeAvatar_of_no_parent hb rfl rfl)
  have hcode : (runOn .coarse ["render", "--user", "abc", "--out", "a.png", "--opts", "o.json"]
      smallOptions).1.code = 0 := by
    rw [hrun]
    rfl
  have hcode' : (runOn .coarse ["render", "--user", "abc", "--out", "b.png", "--half-size", "1",
      "--threads", "3"] ⟨[], []⟩).1.code = 0 := by
    rw [hrun']
    rfl
  obtain ⟨found, image, hfound, himage, hnode, hothers⟩ :=
    (runOn_render_depends .coarse Trig.coarse_bounded).2 _ _ _ _ _ hrender hcode
  obtain rfl := hprovides.unique hfound
  exact ⟨image, himage, hnode, hothers _ _ _ _ _ hrender' hcode' .default rfl⟩

end Identicon
