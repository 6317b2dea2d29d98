import Identicon.FileTree
import Identicon.Proofs.Channels

/-!
# What operations do to a file tree

A tree grows while a program works on it: what is there keeps its kind, so that directories can be
followed and files stay files. Creating directories adds nothing else, and only where nothing was,
and writing a file changes what is at one place. There are no links in a tree, so that a path can
lead to one place only, which its text tells (`FileTree.location`) whether or not the path leads
there yet; with the growth of the tree a path that leads somewhere leads to the same place forever.

## Main definitions

* `FileTree.location`: where a path leads if it leads anywhere.
* `FileTree.Leads`: a path leads to a place for a file.
* `FileTree.Grows`: what is there keeps its kind.
* `FileTree.GrowsDirectories`: nothing but directories is added.
* `FileTree.Apart`: two paths never lead to the same place.
-/

namespace Identicon

/-- Whether a node is a directory. -/
def Node.isDirectory : Node → Bool
  | directory => true
  | file _ | image _ => false

namespace FileTree

/-- Where a place is. -/
def Place.location : Place → Location
  | .directory dir => dir
  | .entry dir name _ => dir ++ [name]

/-- The names from a location on, whether or not there are such directories. -/
def follow (here : Location) : List (List Char) → Location
  | [] => here
  | name :: rest =>
    if Path.isSilent name then follow here rest
    else if name = ['.', '.'] then follow here.dropLast rest
    else follow (here ++ [name]) rest

/-- Where a path begins. -/
def start (t : FileTree) (path : List Char) : Location :=
  if Path.isAbsolute path then [] else t.workingDirectory

/-- Where a path leads if it leads anywhere. -/
def location (t : FileTree) (path : List Char) : Location :=
  follow (t.start path) (Path.pieces path)

/-- A path leads to a place for a file, whether or not there is a file. -/
def Leads (t : FileTree) (path : List Char) (l : Location) : Prop :=
  ∃ dir name slash, t.resolve path = .ok (.entry dir name slash) ∧ dir ++ [name] = l

/-- Directories stay directories, and files stay files. -/
structure Grows (t t' : FileTree) : Prop where
  workingDirectory_eq : t'.workingDirectory = t.workingDirectory
  kind : ∀ l n, t.node? l = some n → ∃ n', t'.node? l = some n' ∧ n'.isDirectory = n.isDirectory

/-- What is at a location stays there; only where nothing is a directory can come to be. -/
def Kept (t t' : FileTree) (l : Location) : Prop :=
  t'.node? l = t.node? l ∨ t.node? l = none ∧ t'.node? l = some .directory

/-- Nothing is changed, and nothing but directories is added. -/
structure GrowsDirectories (t t' : FileTree) : Prop where
  workingDirectory_eq : t'.workingDirectory = t.workingDirectory
  kept : ∀ l, t.Kept t' l

/-- A path never leads to a location, whatever directories are created and files written. -/
def Avoids (t : FileTree) (path : List Char) (l : Location) : Prop :=
  ∀ t', t.Grows t' → ¬ t'.Leads path l

/-- Two paths never lead to the same place, whatever directories are created and files written. -/
def Apart (t : FileTree) (path path' : List Char) : Prop :=
  ∀ t' l, t.Grows t' → t'.Leads path l → ¬ t'.Leads path' l

variable {t t' t'' : FileTree} {path : List Char} {l l' here dir : Location} {node : Node}
  {name : List Char}

/-! ## Nodes -/

theorem node?_put_self (t : FileTree) (dir : Location) (name : List Char) (node : Node) :
    (t.put (dir ++ [name]) node).node? (dir ++ [name]) = some node := by
  rw [node?, if_neg (by simp), put, List.lookup_cons_self]

theorem node?_put_of_ne (h : l' ≠ l) : (t.put l node).node? l' = t.node? l' := by
  have hfilter : ∀ nodes : List (Location × Node),
      (nodes.filter (·.1 != l)).lookup l' = nodes.lookup l' := by
    intro nodes
    induction nodes with
    | nil => rfl
    | cons n nodes ih =>
      by_cases hn : n.1 = l
      · have hl' : (l' == n.1) = false := by simpa [hn] using h
        rw [List.filter_cons_of_neg (by simp [hn]), ih, List.lookup, hl']
      · rw [List.filter_cons_of_pos (by simp [hn]), List.lookup, List.lookup, ih]
  have hl' : (l' == l) = false := by simpa using h
  rw [node?, node?, put, List.lookup, hl', hfilter]

/-! ## Growth -/

theorem Grows.refl (t : FileTree) : t.Grows t where
  workingDirectory_eq := rfl
  kind _ n h := ⟨n, h, rfl⟩

theorem Grows.trans (h : t.Grows t') (h' : t'.Grows t'') : t.Grows t'' where
  workingDirectory_eq := h'.workingDirectory_eq.trans h.workingDirectory_eq
  kind l n hn := by
    obtain ⟨n', hn', hkind⟩ := h.kind l n hn
    obtain ⟨n'', hn'', hkind'⟩ := h'.kind l n' hn'
    exact ⟨n'', hn'', hkind'.trans hkind⟩

theorem Grows.directory (h : t.Grows t') (hl : t.node? l = some .directory) :
    t'.node? l = some .directory := by
  obtain ⟨n, hn, hkind⟩ := h.kind l _ hl
  cases n with
  | directory => exact hn
  | file | image => cases hkind

theorem Kept.trans (h : t.Kept t' l) (h' : t'.Kept t'' l) : t.Kept t'' l := by
  rcases h with heq | ⟨hnone, hadded⟩
  · rw [Kept, ← heq]
    exact h'
  · rcases h' with heq | ⟨hnone', -⟩
    · exact .inr ⟨hnone, heq.trans hadded⟩
    · rw [hadded] at hnone'
      cases hnone'

theorem Kept.node?_eq (h : t.Kept t' l) (hl : t.node? l = some node) : t'.node? l = some node := by
  rcases h with heq | ⟨hnone, -⟩
  · exact heq.trans hl
  · rw [hl] at hnone
    cases hnone

theorem GrowsDirectories.refl (t : FileTree) : t.GrowsDirectories t where
  workingDirectory_eq := rfl
  kept _ := .inl rfl

theorem GrowsDirectories.trans (h : t.GrowsDirectories t') (h' : t'.GrowsDirectories t'') :
    t.GrowsDirectories t'' where
  workingDirectory_eq := h'.workingDirectory_eq.trans h.workingDirectory_eq
  kept l := (h.kept l).trans (h'.kept l)

theorem GrowsDirectories.grows (h : t.GrowsDirectories t') : t.Grows t' where
  workingDirectory_eq := h.workingDirectory_eq
  kind l n hn := ⟨n, (h.kept l).node?_eq hn, rfl⟩

/-- A directory can be put where nothing is. -/
theorem growsDirectories_put (h : t.node? (dir ++ [name]) = none) :
    t.GrowsDirectories (t.put (dir ++ [name]) .directory) where
  workingDirectory_eq := rfl
  kept l := by
    by_cases hl : l = dir ++ [name]
    · rw [hl]
      exact .inr ⟨h, node?_put_self ..⟩
    · exact .inl (node?_put_of_ne hl)

/-- An image can be put anywhere but in the place of a directory. -/
theorem grows_put_image {image : Image} (h : t.node? (dir ++ [name]) ≠ some .directory) :
    t.Grows (t.put (dir ++ [name]) (.image image)) where
  workingDirectory_eq := rfl
  kind l n hn := by
    by_cases hl : l = dir ++ [name]
    · subst hl
      refine ⟨_, node?_put_self .., ?_⟩
      cases n with
      | directory => contradiction
      | file | image => rfl
    · exact ⟨n, (node?_put_of_ne hl).trans hn, rfl⟩

/-! ## Places -/

theorem child?_eq_ok {child : Option Node} (h : t.child? dir name = .ok child) :
    Text.byteLength name ≤ longestName ∧ t.node? (dir ++ [name]) = child := by
  rw [child?] at h
  split_ifs at h with hlong
  · exact ⟨Nat.le_of_not_lt hlong, Except.ok.inj h⟩

theorem child?_of_le (h : Text.byteLength name ≤ longestName) :
    t.child? dir name = .ok (t.node? (dir ++ [name])) :=
  if_neg (Nat.not_lt.mpr h)

/-- Directories that can be followed can be followed in a tree that has grown. -/
theorem Grows.walk_eq_ok (h : t.Grows t') {names : List (List Char)}
    (hwalk : t.walk here names = .ok l) : t'.walk here names = .ok l := by
  induction names generalizing here with
  | nil => exact hwalk
  | cons name rest ih =>
    rw [walk] at hwalk ⊢
    split_ifs at hwalk ⊢ with hsilent hup
    · exact ih hwalk
    · exact ih hwalk
    · split at hwalk
      · cases hwalk
      · cases hwalk
      · next hchild =>
        obtain ⟨hshort, hdirectory⟩ := child?_eq_ok hchild
        rw [child?_of_le hshort, h.directory hdirectory]
        exact ih hwalk
      · cases hwalk

theorem walk_eq_follow {names : List (List Char)} (h : t.walk here names = .ok l) :
    l = follow here names := by
  induction names generalizing here with
  | nil => exact (Except.ok.inj h).symm
  | cons name rest ih =>
    rw [walk] at h
    rw [follow]
    split_ifs at h ⊢ with hsilent hup
    · exact ih h
    · exact ih h
    · split at h
      · cases h
      · cases h
      · exact ih h
      · cases h

theorem follow_append (here : Location) (names names' : List (List Char)) :
    follow here (names ++ names') = follow (follow here names) names' := by
  induction names generalizing here with
  | nil => rfl
  | cons name rest ih =>
    rw [List.cons_append, follow, follow]
    split_ifs <;> exact ih _

theorem follow_of_forall_isEmpty {names : List (List Char)} (h : ∀ n ∈ names, n.isEmpty = true) :
    follow here names = here := by
  induction names with
  | nil => rfl
  | cons name rest ih =>
    obtain ⟨hname, hrest⟩ := List.forall_mem_cons.mp h
    rw [follow, Path.isSilent, hname]
    exact ih hrest

/-- A list in reverse order without the empty names at its front: nothing is left of it, or a last
name and those before it. -/
theorem reverse_dropWhile_isEmpty (names : List (List Char)) :
    (names.reverse.dropWhile List.isEmpty = [] ∧ ∀ n ∈ names, n.isEmpty = true) ∨
    ∃ last before ends, names.reverse.dropWhile List.isEmpty = last :: before ∧
      last.isEmpty = false ∧ names = before.reverse ++ last :: ends ∧
        ∀ n ∈ ends, n.isEmpty = true := by
  induction names using List.reverseRecOn with
  | nil => exact .inl ⟨rfl, List.forall_mem_nil _⟩
  | append_singleton names name ih =>
    rw [List.reverse_append, List.reverse_singleton, List.singleton_append]
    by_cases hname : name.isEmpty = true
    · rw [List.dropWhile_cons_of_pos hname]
      rcases ih with ⟨hdrop, hall⟩ | ⟨last, before, ends, hdrop, hlast, hnames, hends⟩
      · exact .inl ⟨hdrop, List.forall_mem_append.mpr ⟨hall, by simpa using hname⟩⟩
      · refine .inr ⟨last, before, ends ++ [name], hdrop, hlast, ?_, ?_⟩
        · rw [hnames, List.append_assoc, List.cons_append]
        · exact List.forall_mem_append.mpr ⟨hends, by simpa using hname⟩
    · rw [List.dropWhile_cons_of_neg hname]
      refine .inr ⟨name, names.reverse, [], rfl, Bool.eq_false_iff.mpr hname, ?_, ?_⟩
      · rw [List.reverse_reverse]
      · exact List.forall_mem_nil _

/-- The place that a last name stands for in a directory. -/
def placeOf (last : List Char) (slash : Bool) (dir : Location) : Place :=
  if last = ['.'] then .directory dir
  else if last = ['.', '.'] then .directory dir.dropLast
  else .entry dir last slash

theorem location_placeOf {last : List Char} (h : last.isEmpty = false) (slash : Bool) :
    (placeOf last slash dir).location = follow dir [last] := by
  rw [placeOf, follow, Path.isSilent, h, Bool.false_or]
  by_cases hdot : last = ['.']
  · rw [if_pos hdot, if_pos (by rw [hdot]; rfl)]
    rfl
  · have hdot' : ¬(last == ['.']) = true := by simpa using hdot
    rw [if_neg hdot, if_neg hdot']
    split_ifs <;> rfl

/-- All that a path needs of a tree is that directories can be followed. -/
theorem resolve_spec (path : List Char) (here : Location) :
    (∃ e, ∀ t : FileTree, t.start path = here → t.resolve path = .error e) ∨
    ∃ (names : List (List Char)) (place : Location → Place),
      (place (follow here names)).location = follow here (Path.pieces path) ∧
        ∀ t : FileTree, t.start path = here → t.resolve path = (t.walk here names).map place := by
  by_cases hempty : path.isEmpty = true
  · exact .inl ⟨_, fun t _ => by rw [resolve, if_pos hempty]⟩
  by_cases hlong : longestPath < Text.byteLength path
  · exact .inl ⟨_, fun t _ => by rw [resolve, if_neg hempty, if_pos hlong]⟩
  right
  rcases reverse_dropWhile_isEmpty (Path.pieces path) with
    ⟨hdrop, hall⟩ | ⟨last, before, ends, hdrop, hlast, hpieces, hends⟩
  · refine ⟨[], .directory, ?_, ?_⟩
    · rw [follow_of_forall_isEmpty hall]
      rfl
    · rintro t rfl
      rw [resolve, if_neg hempty, if_neg hlong]
      simp only [hdrop]
      rfl
  · refine ⟨before.reverse, placeOf last ((Path.pieces path).reverse.headD []).isEmpty, ?_, ?_⟩
    · rw [location_placeOf hlast, hpieces, List.append_cons, follow_append, follow_append,
        follow_of_forall_isEmpty hends]
    · rintro t rfl
      rw [resolve, if_neg hempty, if_neg hlong]
      simp only [hdrop]
      rw [start]
      cases t.walk _ before.reverse with
      | error e => rfl
      | ok dir =>
        simp only [Except.map, placeOf]
        split_ifs <;> rfl

theorem Grows.start_eq (h : t.Grows t') (path : List Char) : t'.start path = t.start path := by
  rw [start, start, h.workingDirectory_eq]

/-- A path leads to the same place in a tree that has grown. -/
theorem Grows.resolve_eq_ok (h : t.Grows t') {place : Place} (hplace : t.resolve path = .ok place) :
    t'.resolve path = .ok place := by
  have hstart := h.start_eq path
  rcases resolve_spec path (t.start path) with ⟨e, herror⟩ | ⟨names, place', -, hresolve⟩
  · rw [herror t rfl] at hplace
    cases hplace
  · rw [hresolve t rfl] at hplace
    rw [hresolve t' hstart]
    cases hwalk : t.walk (t.start path) names with
    | error e =>
      rw [hwalk] at hplace
      cases hplace
    | ok d =>
      rw [h.walk_eq_ok hwalk, ← hplace, hwalk]

theorem Grows.leads (h : t.Grows t') (hl : t.Leads path l) : t'.Leads path l := by
  obtain ⟨dir, name, slash, hresolve, rfl⟩ := hl
  exact ⟨dir, name, slash, h.resolve_eq_ok hresolve, rfl⟩

/-- The place a path leads to is told by its text. -/
theorem location_of_resolve {place : Place} (h : t.resolve path = .ok place) :
    place.location = t.location path := by
  rcases resolve_spec path (t.start path) with ⟨e, herror⟩ | ⟨names, place', hlocation, hresolve⟩
  · rw [herror t rfl] at h
    cases h
  · rw [hresolve t rfl] at h
    cases hwalk : t.walk (t.start path) names with
    | error e =>
      rw [hwalk] at h
      cases h
    | ok d =>
      rw [hwalk] at h
      cases h
      rw [walk_eq_follow hwalk, hlocation]
      rfl

theorem Leads.eq_location (h : t.Leads path l) : l = t.location path := by
  obtain ⟨dir, name, slash, hresolve, rfl⟩ := h
  exact location_of_resolve hresolve

theorem Grows.location_eq (h : t.Grows t') (path : List Char) :
    t'.location path = t.location path := by
  rw [location, location, h.start_eq]

theorem avoids_of_location_ne (h : t.location path ≠ l) : t.Avoids path l := by
  intro t' hgrows hleads
  rw [← hgrows.location_eq] at h
  exact h hleads.eq_location.symm

theorem Avoids.mono (h : t.Avoids path l) (hgrows : t.Grows t') : t'.Avoids path l :=
  fun t'' hgrows' => h t'' (hgrows.trans hgrows')

/-- Paths that say different things lead to different places. -/
theorem apart_of_location_ne {path' : List Char} (h : t.location path ≠ t.location path') :
    t.Apart path path' := by
  intro t' l hgrows hleads hleads'
  have hl := hleads'.eq_location
  rw [hgrows.location_eq] at hl
  exact avoids_of_location_ne (hl ▸ h) t' hgrows hleads

/-- Paths lead to different places as soon as one of them avoids where the other one leads. -/
theorem Apart.avoids {path' : List Char} (h : t.Apart path path') (hleads : t.Leads path' l) :
    t.Avoids path l :=
  fun t' hgrows hleads' => h t' l hgrows hleads' (hgrows.leads hleads)

theorem Apart.mono {path' : List Char} (h : t.Apart path path') (hgrows : t.Grows t') :
    t'.Apart path path' :=
  fun t'' l hgrows' => h t'' l (hgrows.trans hgrows')

/-! ## Operations -/

/-- What it takes to read a file. -/
theorem readText_eq_ok_iff {text : String} :
    t.readText path = .ok text ↔ ∃ (dir : Location) (name : List Char) (bytes : ByteArray),
      t.resolve path = .ok (.entry dir name false) ∧ Text.byteLength name ≤ longestName ∧
        t.node? (dir ++ [name]) = some (.file bytes) ∧ String.fromUTF8? bytes = some text := by
  constructor
  · intro h
    obtain ⟨place, hresolve, h⟩ := exists_of_bind_eq_ok h
    cases place with
    | directory dir => cases h
    | entry dir name slash =>
      obtain ⟨child, hchild, h⟩ := exists_of_bind_eq_ok h
      obtain ⟨hshort, hnode⟩ := child?_eq_ok hchild
      cases child with
      | none => cases h
      | some node =>
        cases node with
        | directory => cases h
        | image => cases slash <;> cases h
        | file bytes =>
          cases slash with
          | true => cases h
          | false =>
            refine ⟨dir, name, bytes, hresolve, hshort, hnode, ?_⟩
            cases htext : String.fromUTF8? bytes with
            | none =>
              simp only [htext] at h
              cases h
            | some text' =>
              simp only [htext] at h
              exact congrArg some (Except.ok.inj h)
  · rintro ⟨dir, name, bytes, hresolve, hshort, hnode, htext⟩
    rw [readText, hresolve, ok_bind]
    dsimp only
    rw [child?_of_le hshort, hnode, ok_bind]
    simp only [htext]
    rfl

/-- A file can still be read in a tree that has grown, if it has been left alone. -/
theorem Grows.readText_eq_ok (h : t.Grows t') {text : String} (htext : t.readText path = .ok text)
    (hleft : ∀ l node, t.Leads path l → t.node? l = some node → t'.node? l = some node) :
    t'.readText path = .ok text := by
  obtain ⟨dir, name, bytes, hresolve, hshort, hnode, hbytes⟩ := readText_eq_ok_iff.mp htext
  have hnode' := hleft _ _ ⟨dir, name, false, hresolve, rfl⟩ hnode
  exact readText_eq_ok_iff.mpr ⟨dir, name, bytes, h.resolve_eq_ok hresolve, hshort, hnode', hbytes⟩

/-- An image is put where the path leads. -/
theorem writeImage_eq_ok {image : Image} (h : t.writeImage path image = .ok t') :
    ∃ (dir : Location) (name : List Char),
      t.resolve path = .ok (.entry dir name false) ∧
        t.node? (dir ++ [name]) ≠ some .directory ∧
        t' = t.put (dir ++ [name]) (.image image) := by
  obtain ⟨place, hresolve, h⟩ := exists_of_bind_eq_ok h
  cases place with
  | directory dir => cases h
  | entry dir name slash =>
    cases slash with
    | true => cases h
    | false =>
      obtain ⟨child, hchild, h⟩ := exists_of_bind_eq_ok h
      obtain ⟨-, hnode⟩ := child?_eq_ok hchild
      refine ⟨dir, name, hresolve, ?_⟩
      rw [hnode]
      match child with
      | some .directory => cases h
      | none | some (.file _) | some (.image _) => exact ⟨by simp, (Except.ok.inj h).symm⟩

theorem growsDirectories_of_createDirectory (h : t.createDirectory path = .ok t') :
    t.GrowsDirectories t' := by
  obtain ⟨place, hresolve, h⟩ := exists_of_bind_eq_ok h
  cases place with
  | directory dir => cases h
  | entry dir name slash =>
    obtain ⟨child, hchild, h⟩ := exists_of_bind_eq_ok h
    obtain ⟨-, hnode⟩ := child?_eq_ok hchild
    cases child with
    | some node => cases h
    | none =>
      cases h
      exact growsDirectories_put hnode

/-- Directories that have been created stay whatever happens afterwards, and nothing else does. -/
theorem growsDirectories_createDirectories (t : FileTree) (path : List Char) :
    t.GrowsDirectories (t.createDirectories path).1 := by
  fun_induction createDirectories t path with
  | case1 => exact .refl _
  | case2 path hempty t' hcreate => exact growsDirectories_of_createDirectory hcreate
  | case3 => exact .refl _
  | case4 path hempty hmissing parent hparent hshorter t' e hparents ih =>
    rw [hparents] at ih
    exact ih
  | case5 path hempty hmissing parent hparent hshorter t' hparents t'' hcreate ih =>
    rw [hparents] at ih
    exact ih.trans (growsDirectories_of_createDirectory hcreate)
  | case6 path hempty hmissing parent hparent hshorter t' hparents e hcreate ih =>
    rw [hparents] at ih
    exact ih
  | case7 => exact .refl _
  | case8 => exact .refl _

end FileTree

end Identicon
