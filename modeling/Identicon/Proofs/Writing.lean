import Identicon.Command.Run
import Identicon.Proofs.Avatar
import Identicon.Proofs.FileTree

/-!
# Writing avatars

What writing the avatar of a user does to a file tree, and what the avatars of several users do that
are written one after the other. An avatar is rendered first, so that a user who gets none leaves
nothing behind. If a directory or a file is the trouble, directories may have been created, but no
file has been touched. Otherwise the avatar is where its path leads.

Whatever an avatar is written after can matter to it only through the tree: the lines that have been
told matter to nothing.

## Main definitions

* `outcome`: what comes of a command on a file tree.
* `FileTree.options`: the options that a command finds.
* `Writes`, `WritesAll`: what one avatar and the avatars of several users do to a tree.
-/

namespace Identicon

/-- What comes of a command, and the tree and the lines that it leaves. -/
def outcome {α : Type} (command : ExceptT Ending (StateM Memory) α) (w : Memory) :
    Except Ending α × Memory :=
  command.run.run w

theorem outcome_bind {α β : Type} (command : ExceptT Ending (StateM Memory) α)
    (next : α → ExceptT Ending (StateM Memory) β) (w : Memory) :
    outcome (command >>= next) w =
      match outcome command w with
      | (.ok a, w) => outcome (next a) w
      | (.error e, w) => (.error e, w) := by
  rw [outcome, outcome, ExceptT.run_bind, StateT.run_bind]
  cases StateT.run (ExceptT.run command) w with
  | mk result w => cases result <;> rfl

theorem outcome_pure {α : Type} (a : α) (w : Memory) : outcome (pure a) w = (.ok a, w) := rfl

theorem outcome_readText (path : String) (w : Memory) :
    outcome (Storage.readText path) w = (.ok (w.tree.readText path.toList), w) := rfl

theorem outcome_createDirectories (path : String) (w : Memory) :
    outcome (Storage.createDirectories path) w =
      (.ok (w.tree.createDirectories path.toList).2,
        { w with tree := (w.tree.createDirectories path.toList).1 }) := rfl

theorem outcome_writeImage (path : String) (image : Image) (w : Memory) :
    outcome (Storage.writeImage path image) w =
      match w.tree.writeImage path.toList image with
      | .ok tree => (.ok (.ok ()), { w with tree })
      | .error e => (.ok (.error e), w) := by
  let written : Except FileError Unit × Memory :=
    match w.tree.writeImage path.toList image with
    | .ok tree => (.ok (), { w with tree })
    | .error e => (.error e, w)
  show ((.ok written.1, written.2) : Except Ending (Except FileError Unit) × Memory) = _
  simp only [written]
  cases w.tree.writeImage path.toList image <;> rfl

/-! ## Options -/

/-- The options that a command finds in a tree. -/
def FileTree.options (t : FileTree) (args : OptionArguments) : Except Error Options :=
  (match args.file with
    | none => .ok {}
    | some path => Options.ofFile path (t.readText path.toList)) >>= (·.overrideValid args)

/-- Options are looked for without a change to anything. -/
theorem outcome_resolveOptions (args : OptionArguments) (w : Memory) :
    outcome (resolveOptions args) w =
      ((w.tree.options args).mapError fun e => .trouble (.ofError e), w) := by
  rw [resolveOptions, FileTree.options]
  cases args.file with
  | none =>
    simp only [outcome_bind, outcome_pure, ok_bind]
    cases ({} : Options).overrideValid args with
    | ok o => rfl
    | error e => rfl
  | some path =>
    simp only [outcome_bind, outcome_pure, outcome_readText]
    cases Options.ofFile path (w.tree.readText path.toList) >>= (·.overrideValid args) with
    | ok o => rfl
    | error e => rfl

/-- Options that have been found are found again in a tree that has grown, if the file they come
from has been left alone. -/
theorem FileTree.Grows.options_eq_ok {t t' : FileTree} {args : OptionArguments} {o : Options}
    (h : t.Grows t') (ho : t.options args = .ok o)
    (hleft : ∀ path, args.file = some path → ∀ l node, t.Leads path.toList l →
      t.node? l = some node → t'.node? l = some node) :
    t'.options args = .ok o := by
  rw [FileTree.options] at ho ⊢
  cases hfile : args.file with
  | none =>
    rw [hfile] at ho
    exact ho
  | some path =>
    rw [hfile] at ho
    obtain ⟨found, hfound, -⟩ := exists_of_bind_eq_ok ho
    dsimp only at hfound ho ⊢
    cases htext : t.readText path.toList with
    | error e =>
      rw [htext] at hfound
      cases hfound
    | ok text =>
      rw [h.readText_eq_ok htext (hleft path hfile), ← htext]
      exact ho

/-- Options that have been found are valid. -/
theorem FileTree.accepted_of_options_eq_ok {t : FileTree} {args : OptionArguments} {o : Options}
    (h : t.options args = .ok o) : o.Accepted := by
  obtain ⟨found, -, h⟩ := exists_of_bind_eq_ok h
  obtain ⟨valid, hvalidate, h⟩ := exists_of_bind_eq_ok h
  cases h
  by_contra hnot
  obtain ⟨reason, hreason, -⟩ := Options.validate_of_not_accepted hnot
  rw [hreason] at hvalidate
  cases hvalidate

/-! ## One avatar -/

/-- What writing the avatar of a user can do to a tree, and what comes of it. -/
inductive Writes (trig : Trig) (o : Options) (user out : String) (t : FileTree) :
    Except Ending Unit → FileTree → Prop
  /-- There is no avatar, and nothing has been done. -/
  | refused {f : Failure} (hrender : Avatar.render trig user o = .error f) :
    Writes trig o user out t (.error (.ofFailure user f)) t
  /-- A directory cannot be created or the file cannot be written. -/
  | stopped {a : Avatar} {e : Ending} {t' : FileTree} (hrender : Avatar.render trig user o = .ok a)
    (hgrows : t.GrowsDirectories t') : Writes trig o user out t (.error e) t'
  | written {a : Avatar} {t' t'' : FileTree} (hrender : Avatar.render trig user o = .ok a)
    (hgrows : t.GrowsDirectories t') (hwrite : t'.writeImage out.toList a.image = .ok t'') :
    Writes trig o user out t (.ok ()) t''

/-- The lines that are told about a file. -/
def linesFor (out : String) : Except Ending Unit → List String
  | .ok () => ["wrote " ++ out]
  | .error _ => []

/-- Creates the directories that a file has to be in. -/
def createParent (out : String) : ExceptT Ending (StateM Memory) Unit :=
  match Path.parent? out.toList with
  | none => pure ()
  | some [] => pure ()
  | some parent => do
    match ← Storage.createDirectories (String.ofList parent) with
    | .ok () => pure ()
    | .error e => throw (.ofFile "create output dir" (String.ofList parent) e)

/-- Writes an image to a file and tells so. -/
def saveImage (out : String) (image : Image) : ExceptT Ending (StateM Memory) Unit := do
  match ← Storage.writeImage out image with
  | .ok () => pure ()
  | .error e => throw (.ofFile "write png" out e)
  Storage.tell ("wrote " ++ out)

section Avatar

variable {trig : Trig} {o : Options} {user out : String} {t t' : FileTree}
  {result : Except Ending Unit}

/-- An avatar that has been rendered leaves two steps. -/
theorem writeAvatar_of_render_eq_ok {a : Avatar} (h : Avatar.render trig user o = .ok a) :
    writeAvatar trig user out o = createParent out >>= fun _ => saveImage out a.image := by
  rw [writeAvatar, h, createParent]
  cases Path.parent? out.toList with
  | none => rfl
  | some parent =>
    cases parent with
    | nil => rfl
    | cons c parent =>
      have hpure : ∀ next : Avatar → ExceptT Ending (StateM Memory) Unit,
          (pure a >>= next) = next a := fun _ => rfl
      simp only [bind_assoc]
      rw [hpure]
      congr
      funext created
      cases created <;> rfl

/-- Whatever comes of them, directories are all that is created. -/
theorem outcome_createParent (out : String) (t : FileTree) :
    ∃ result t', t.GrowsDirectories t' ∧
      ∀ told, outcome (createParent out) ⟨t, told⟩ = (result, ⟨t', told⟩) := by
  rw [createParent]
  match Path.parent? out.toList with
  | none => exact ⟨_, t, .refl t, fun told => rfl⟩
  | some [] => exact ⟨_, t, .refl t, fun told => rfl⟩
  | some (c :: parent) =>
    have hgrows := t.growsDirectories_createDirectories (String.ofList (c :: parent)).toList
    simp only [outcome_bind, outcome_createDirectories]
    cases (t.createDirectories (String.ofList (c :: parent)).toList).2 with
    | ok => exact ⟨_, _, hgrows, fun told => rfl⟩
    | error e => exact ⟨_, _, hgrows, fun told => rfl⟩

theorem outcome_saveImage (out : String) (image : Image) (t : FileTree) (told : List String) :
    outcome (saveImage out image) ⟨t, told⟩ =
      match t.writeImage out.toList image with
      | .ok t' => (.ok (), ⟨t', told ++ ["wrote " ++ out]⟩)
      | .error e => (.error (.ofFile "write png" out e), ⟨t, told⟩) := by
  rw [saveImage, outcome_bind, outcome_writeImage]
  cases t.writeImage out.toList image <;> rfl

/-- Without an avatar there is nothing to be done. -/
theorem outcome_writeAvatar_of_render_eq_error {f : Failure}
    (h : Avatar.render trig user o = .error f) (told : List String) :
    outcome (writeAvatar trig user out o) ⟨t, told⟩ =
      (.error (.ofFailure user f), ⟨t, told ++ []⟩) := by
  rw [writeAvatar, h, List.append_nil]
  rfl

/-- An avatar is written if each step succeeds. -/
theorem outcome_writeAvatar_eq_ok {t'' : FileTree} {a : Avatar} {parent : List Char}
    (hrender : Avatar.render trig user o = .ok a)
    (hparent : Path.parent? out.toList = some parent) (hne : parent ≠ [])
    (hcreate : t.createDirectories parent = (t', .ok ()))
    (hwrite : t'.writeImage out.toList a.image = .ok t'') (told : List String) :
    outcome (writeAvatar trig user out o) ⟨t, told⟩ =
      (.ok (), ⟨t'', told ++ ["wrote " ++ out]⟩) := by
  obtain ⟨c, rest, rfl⟩ := List.exists_cons_of_ne_nil hne
  have hcreated : outcome (createParent out) ⟨t, told⟩ = (.ok (), ⟨t', told⟩) := by
    rw [createParent, hparent]
    simp only [outcome_bind, outcome_createDirectories, String.toList_ofList, hcreate]
    rfl
  rw [writeAvatar_of_render_eq_ok hrender, outcome_bind, hcreated]
  simp only [outcome_saveImage, hwrite]

/-- What comes of an avatar is the same whatever has been told before. -/
theorem outcome_writeAvatar (trig : Trig) (o : Options) (user out : String) (t : FileTree) :
    ∃ result t', Writes trig o user out t result t' ∧ ∀ told,
      outcome (writeAvatar trig user out o) ⟨t, told⟩ =
        (result, ⟨t', told ++ linesFor out result⟩) := by
  cases hrender : Avatar.render trig user o with
  | error f => exact ⟨_, _, .refused hrender, outcome_writeAvatar_of_render_eq_error hrender⟩
  | ok a =>
    obtain ⟨created, t', hgrows, hparent⟩ := outcome_createParent out t
    simp only [writeAvatar_of_render_eq_ok hrender, outcome_bind, hparent]
    cases created with
    | error e =>
      refine ⟨.error e, t', .stopped hrender hgrows, fun told => ?_⟩
      rw [linesFor, List.append_nil]
    | ok =>
      simp only [outcome_saveImage]
      cases hwrite : t'.writeImage out.toList a.image with
      | error e =>
        refine ⟨.error (.ofFile "write png" out e), t', .stopped hrender hgrows, fun told => ?_⟩
        rw [linesFor, List.append_nil]
      | ok t'' => exact ⟨.ok (), t'', .written hrender hgrows hwrite, fun told => rfl⟩

theorem Writes.grows (h : Writes trig o user out t result t') : t.Grows t' := by
  cases h with
  | refused => exact .refl t
  | stopped hrender hgrows => exact hgrows.grows
  | written hrender hgrows hwrite =>
    obtain ⟨dir, name, -, hnode, rfl⟩ := FileTree.writeImage_eq_ok hwrite
    exact hgrows.grows.trans (FileTree.grows_put_image hnode)

/-- Files stay as they are where the path of the avatar does not lead. -/
theorem Writes.kept (h : Writes trig o user out t result t') {l : Location}
    (hl : t.Avoids out.toList l) : t.Kept t' l := by
  cases h with
  | refused => exact .inl rfl
  | stopped hrender hgrows => exact hgrows.kept l
  | written hrender hgrows hwrite =>
    obtain ⟨dir, name, hresolve, -, rfl⟩ := FileTree.writeImage_eq_ok hwrite
    have hne : l ≠ dir ++ [name] := by
      rintro rfl
      exact hl _ hgrows.grows ⟨dir, name, false, hresolve, rfl⟩
    exact (hgrows.kept l).trans (.inl (FileTree.node?_put_of_ne hne))

/-- A user without an avatar changes nothing. -/
theorem Writes.eq_of_render_eq_error (h : Writes trig o user out t result t') {f : Failure}
    (hf : Avatar.render trig user o = .error f) : t' = t := by
  cases h with
  | refused => rfl
  | stopped hrender | written hrender =>
    rw [hf] at hrender
    cases hrender

/-- A failure changes no file at all. -/
theorem Writes.growsDirectories {e : Ending} (h : Writes trig o user out t (.error e) t') :
    t.GrowsDirectories t' := by
  cases h with
  | refused => exact .refl t
  | stopped hrender hgrows => exact hgrows

/-- An avatar that has been written is where its path leads. -/
theorem Writes.node?_eq (h : Writes trig o user out t (.ok ()) t') :
    ∃ a, Avatar.render trig user o = .ok a ∧
      t'.node? (t.location out.toList) = some (.image a.image) := by
  cases h with
  | written hrender hgrows hwrite =>
    obtain ⟨dir, name, hresolve, -, rfl⟩ := FileTree.writeImage_eq_ok hwrite
    have hlocation := FileTree.location_of_resolve hresolve
    rw [FileTree.Place.location, hgrows.grows.location_eq] at hlocation
    exact ⟨_, hrender, by rw [← hlocation, FileTree.node?_put_self]⟩

end Avatar

/-! ## Avatars in turn -/

/-- What the avatars of users, one after the other and up to the first that fails, can do to a tree;
what comes of it and the lines that are told. -/
inductive WritesAll (trig : Trig) (o : Options) (file : String → String) :
    List String → FileTree → Except Ending Unit → FileTree → List String → Prop
  | done (t : FileTree) : WritesAll trig o file [] t (.ok ()) t []
  | next {user : String} {users lines : List String} {t t' t'' : FileTree}
    {result : Except Ending Unit} (hfirst : Writes trig o user (file user) t (.ok ()) t')
    (hrest : WritesAll trig o file users t' result t'' lines) :
    WritesAll trig o file (user :: users) t result t'' (("wrote " ++ file user) :: lines)
  | stop {user : String} {users : List String} {t t' : FileTree} {e : Ending}
    (hfirst : Writes trig o user (file user) t (.error e) t') :
    WritesAll trig o file (user :: users) t (.error e) t' []

section Batch

variable {trig : Trig} {o : Options} {file : String → String} {users lines : List String}
  {t t' : FileTree} {result : Except Ending Unit}

theorem outcome_forM_nil (told : List String) :
    outcome ([].forM fun user => writeAvatar trig user (file user) o) ⟨t, told⟩ =
      (.ok (), ⟨t, told ++ []⟩) := by
  rw [List.append_nil]
  rfl

/-- A user whose avatar is written is followed by the others. -/
theorem outcome_forM_cons {user : String} {t₁ : FileTree}
    (hfirst : ∀ told, outcome (writeAvatar trig user (file user) o) ⟨t, told⟩ =
      (.ok (), ⟨t₁, told ++ ["wrote " ++ file user]⟩))
    (hrest : ∀ told,
      outcome (users.forM fun user => writeAvatar trig user (file user) o) ⟨t₁, told⟩ =
        (result, ⟨t', told ++ lines⟩)) (told : List String) :
    outcome ((user :: users).forM fun user => writeAvatar trig user (file user) o) ⟨t, told⟩ =
      (result, ⟨t', told ++ ("wrote " ++ file user) :: lines⟩) := by
  simp only [List.forM, outcome_bind, hfirst, hrest, List.append_assoc]
  rfl

theorem outcome_forM (trig : Trig) (o : Options) (file : String → String) (users : List String)
    (t : FileTree) :
    ∃ result t' lines, WritesAll trig o file users t result t' lines ∧ ∀ told,
      outcome (users.forM fun user => writeAvatar trig user (file user) o) ⟨t, told⟩ =
        (result, ⟨t', told ++ lines⟩) := by
  induction users generalizing t with
  | nil => exact ⟨.ok (), t, [], .done t, outcome_forM_nil⟩
  | cons user users ih =>
    obtain ⟨first, t₁, hfirst, hwrite⟩ := outcome_writeAvatar trig o user (file user) t
    cases first with
    | error e =>
      refine ⟨.error e, t₁, [], .stop hfirst, fun told => ?_⟩
      simp only [List.forM, outcome_bind, hwrite]
      rfl
    | ok =>
      obtain ⟨result, t', lines, hrest, hall⟩ := ih t₁
      exact ⟨result, t', _, .next hfirst hrest, outcome_forM_cons hwrite hall⟩

theorem WritesAll.grows (h : WritesAll trig o file users t result t' lines) : t.Grows t' := by
  induction h with
  | done t => exact .refl t
  | next hfirst hrest ih => exact hfirst.grows.trans ih
  | stop hfirst => exact hfirst.grows

/-- Files stay as they are where the paths of the avatars do not lead. -/
theorem WritesAll.kept (h : WritesAll trig o file users t result t' lines) {l : Location}
    (hl : ∀ user ∈ users, t.Avoids (file user).toList l) : t.Kept t' l := by
  induction h with
  | done t => exact .inl rfl
  | next hfirst hrest ih =>
    obtain ⟨hfirst', hl⟩ := List.forall_mem_cons.mp hl
    exact (hfirst.kept hfirst').trans (ih fun user huser => (hl user huser).mono hfirst.grows)
  | stop hfirst => exact hfirst.kept (List.forall_mem_cons.mp hl).1

/-- The options are still there when avatars have been written elsewhere. -/
theorem WritesAll.options_eq_ok (h : WritesAll trig o file users t result t' lines)
    {options : OptionArguments} {o' : Options} (ho : t.options options = .ok o')
    (hapart : ∀ path, options.file = some path → ∀ user ∈ users,
      t.Apart (file user).toList path.toList) :
    t'.options options = .ok o' := by
  apply h.grows.options_eq_ok ho
  intro path hfile l node hleads hnode
  exact (h.kept fun user huser => (hapart path hfile user huser).avoids hleads).node?_eq hnode

/-- The last avatar that is written to a place is the one that is there in the end. -/
theorem WritesAll.node?_eq {user : String} {before after : List String}
    (h : WritesAll trig o file (before ++ user :: after) t (.ok ()) t' lines)
    (hafter : ∀ later ∈ after,
      t.location (file later).toList ≠ t.location (file user).toList) :
    ∃ a, Avatar.render trig user o = .ok a ∧
      t'.node? (t.location (file user).toList) = some (.image a.image) := by
  induction before generalizing t lines with
  | nil =>
    cases h with
    | next hfirst hrest =>
      obtain ⟨a, hrender, hnode⟩ := hfirst.node?_eq
      simp only [← hfirst.grows.location_eq] at hafter hnode ⊢
      have hkept := hrest.kept fun later hlater =>
        FileTree.avoids_of_location_ne (hafter later hlater)
      exact ⟨a, hrender, hkept.node?_eq hnode⟩
  | cons first before ih =>
    cases h with
    | next hfirst hrest =>
      simp only [← hfirst.grows.location_eq] at hafter ⊢
      exact ih hrest hafter

end Batch

end Identicon
