import IdlFormat.FileTree
import IdlFormat.Proofs.Joining
import IdlFormat.Proofs.Mask
import Mathlib.Data.List.Basic
import Mathlib.Data.List.Infix

/-!
# Changes of a file tree

A tree changes in three ways: a file is put at a place, a file is removed, and folders are made.
What a path leads to depends on the directories alone, so everything here is said through them. A
file is only ever put where its directory is there already, which makes no new directory
(`isDirectory_putFile`); making folders leaves the files alone and never turns a file into a
directory (`Widens`).
-/

namespace IdlFormat

namespace FileTree

variable {tree grown other : FileTree} {place above : Place}

/-! ## Files and directories -/

theorem file?_putFile (tree : FileTree) (place : Place) (file : File) (location : Place) :
    (tree.putFile place file).file? location =
      if location = place then some file else tree.file? location := by
  have others (files : List (Place × File)) :
      ((files.filter fun entry => entry.1 != place) ++ [(place, file)]).lookup location =
        if location = place then some file else files.lookup location := by
    induction files with
    | nil =>
        by_cases same : location = place
        · simp [same]
        · simp [same, List.lookup_cons, beq_eq_false_iff_ne.2 same]
    | cons entry files ih =>
        rcases entry with ⟨first, content⟩
        rw [List.filter_cons]
        by_cases replaced : first = place
        · subst replaced
          simp only [bne_self_eq_false, Bool.false_eq_true, if_false, ih]
          by_cases same : location = first
          · simp [same]
          · simp [same, List.lookup_cons, beq_eq_false_iff_ne.2 same]
        · simp only [bne_iff_ne, ne_eq, replaced, not_false_eq_true, if_true, List.cons_append,
            List.lookup_cons, ih]
          by_cases same : location = first
          · subst same
            simp [replaced]
          · simp [beq_eq_false_iff_ne.2 same]
  exact others tree.files

theorem file?_remove (tree : FileTree) {location : Place} (apart : location ≠ place) :
    (tree.remove place).file? location = tree.file? location := by
  have others (files : List (Place × File)) :
      (files.filter fun entry => entry.1 != place).lookup location =
        files.lookup location := by
    induction files with
    | nil => rfl
    | cons entry files ih =>
        rcases entry with ⟨first, content⟩
        rw [List.filter_cons]
        by_cases removed : first = place
        · subst removed
          simp [ih, List.lookup_cons, beq_eq_false_iff_ne.2 apart]
        · simp [removed, List.lookup_cons, ih]
  exact others tree.files

/-- A place is a directory if it is the root, or if the working directory, a folder or a file shows
that it is one. -/
theorem isDirectory_iff :
    tree.isDirectory place ↔ place = [] ∨ place <+: tree.current ∨
      (∃ folder ∈ tree.folders, place <+: folder) ∨
      ∃ entry ∈ tree.files, place <+: entry.1 ∧ place ≠ entry.1 := by
  simp [isDirectory, isBelow, or_assoc]

theorem isDirectory_above (isDirectory : tree.isDirectory place) (leads : above <+: place) :
    tree.isDirectory above := by
  rw [isDirectory_iff] at isDirectory ⊢
  rcases isDirectory with rfl | current | ⟨folder, member, inside⟩ | ⟨entry, member, inside, below⟩
  · exact .inl (List.prefix_nil.1 leads)
  · exact .inr (.inl (leads.trans current))
  · exact .inr (.inr (.inl ⟨folder, member, leads.trans inside⟩))
  · refine .inr (.inr (.inr ⟨entry, member, leads.trans inside, ?_⟩))
    rintro rfl
    exact below (inside.eq_of_length_le leads.length_le)

theorem prefix_dropLast (leads : above <+: place) (below : above ≠ place) :
    above <+: place.dropLast := by
  rcases List.eq_nil_or_concat' place with rfl | ⟨directory, name, rfl⟩
  · exact absurd (List.prefix_nil.1 leads) below
  · rcases List.prefix_concat_iff.1 leads with same | inside
    · exact absurd same below
    · simpa using inside

/-- A file in a directory that is there makes no new directory. -/
theorem isDirectory_putFile (parent : tree.isDirectory place.dropLast) (file : File)
    (location : Place) :
    (tree.putFile place file).isDirectory location = tree.isDirectory location := by
  rw [Bool.eq_iff_iff, isDirectory_iff, isDirectory_iff]
  have shown (leads : location <+: place) (below : location ≠ place) :
      tree.isDirectory location :=
    isDirectory_above parent (prefix_dropLast leads below)
  rw [isDirectory_iff] at shown
  constructor
  · rintro (root | current | folder | ⟨entry, member, leads, below⟩)
    · exact .inl root
    · exact .inr (.inl current)
    · exact .inr (.inr (.inl folder))
    · rcases List.mem_append.1 member with kept | new
      · exact .inr (.inr (.inr ⟨entry, (List.mem_filter.1 kept).1, leads, below⟩))
      · rw [List.mem_singleton.1 new] at leads below
        exact shown leads below
  · rintro (root | current | folder | ⟨entry, member, leads, below⟩)
    · exact .inl root
    · exact .inr (.inl current)
    · exact .inr (.inr (.inl folder))
    · refine .inr (.inr (.inr ?_))
      by_cases replaced : entry.1 = place
      · exact ⟨(place, file), List.mem_append_right _ (List.mem_singleton_self _),
          replaced ▸ leads, replaced ▸ below⟩
      · refine ⟨entry, List.mem_append_left _ (List.mem_filter.2 ⟨member, ?_⟩), leads, below⟩
        simpa using replaced

theorem isDirectory_remove (isDirectory : tree.isDirectory above) :
    (tree.remove place).isDirectory above := by
  rw [isDirectory_iff] at isDirectory ⊢
  rcases isDirectory with rfl | current | ⟨folder, member, inside⟩ | ⟨entry, member, inside, below⟩
  · exact .inl rfl
  · exact .inr (.inl current)
  · exact .inr (.inr (.inl ⟨folder, List.mem_append_left _ member, inside⟩))
  · by_cases removed : entry.1 = place
    · refine .inr (.inr (.inl ⟨place.dropLast, List.mem_append_right _ List.mem_cons_self, ?_⟩))
      rw [removed] at inside below
      exact prefix_dropLast inside below
    · refine .inr (.inr (.inr ⟨entry, List.mem_filter.2 ⟨member, ?_⟩, inside, below⟩))
      simpa using removed

/-! ## Where paths lead -/

/-- A path that leads to something other than a directory ends in a directory. -/
theorem isDirectory_dropLast_of_follow {start : Place} {parts : List Text}
    (leads : tree.follow start parts = .ok place) (file : tree.isDirectory place = false) :
    parts = [] ∧ place = start ∨ tree.isDirectory place.dropLast := by
  induction parts generalizing start with
  | nil => exact .inl ⟨rfl, (Except.ok.inj leads).symm⟩
  | cons part parts ih =>
      rw [follow] at leads
      split at leads
      · next isDirectory =>
          split at leads
          · rcases ih leads with ⟨-, rfl⟩ | parent
            · simp [isDirectory] at file
            · exact .inr parent
          · split at leads
            · rcases ih leads with ⟨-, rfl⟩ | parent
              · have above := isDirectory_above isDirectory (List.dropLast_prefix start)
                simp [above] at file
              · exact .inr parent
            · split at leads
              · cases leads
              · rcases ih leads with ⟨-, rfl⟩ | parent
                · exact .inr (by simpa using isDirectory)
                · exact .inr parent
      · split at leads <;> cases leads

theorem follow_of_locate {path : Path} (leads : tree.locate path = .ok place) :
    fault? path.toText = none ∧
      tree.follow (tree.start (Path.ofText path.toText)) (Text.splitOn '/' path.toText) =
        .ok place := by
  rw [locate, locateText] at leads
  split at leads
  · cases leads
  · next valid => exact ⟨valid, leads⟩

/-- What is no directory lies in one. -/
theorem isDirectory_dropLast_of_locate {path : Path} (leads : tree.locate path = .ok place)
    (file : tree.isDirectory place = false) : tree.isDirectory place.dropLast := by
  rcases isDirectory_dropLast_of_follow (follow_of_locate leads).2 file with ⟨empty, -⟩ | parent
  · exact absurd empty (Text.splitOn_ne_nil '/' _)
  · exact parent

/-- A tree has the directories of another one, seen from the same working directory. -/
structure Extends (tree grown : FileTree) : Prop where
  /-- The working directory is the same. -/
  current_eq : grown.current = tree.current
  /-- Directories stay directories. -/
  isDirectory : ∀ place, tree.isDirectory place → grown.isDirectory place

theorem Extends.refl (tree : FileTree) : Extends tree tree :=
  ⟨rfl, fun _ isDirectory => isDirectory⟩

theorem Extends.trans (first : Extends tree grown) (second : Extends grown other) :
    Extends tree other :=
  ⟨second.current_eq.trans first.current_eq,
    fun place isDirectory => second.isDirectory place (first.isDirectory place isDirectory)⟩

/-- A path that does not stop for want of a directory is followed in the same way. -/
theorem Extends.follow_eq (more : Extends tree grown) {start : Place} {parts : List Text}
    (found : tree.follow start parts ≠ .error .missing)
    (solid : tree.follow start parts ≠ .error .notDirectory) :
    grown.follow start parts = tree.follow start parts := by
  induction parts generalizing start with
  | nil => rfl
  | cons part parts ih =>
      rw [FileTree.follow] at found solid
      rw [FileTree.follow, FileTree.follow]
      by_cases isDirectory : tree.isDirectory start
      · rw [if_pos isDirectory] at found solid ⊢
        rw [if_pos (more.isDirectory start isDirectory)]
        split
        · next skipped =>
            rw [if_pos skipped] at found solid
            exact ih found solid
        · next kept =>
            rw [if_neg kept] at found solid
            split
            · next up =>
                rw [if_pos up] at found solid
                exact ih found solid
            · next down =>
                rw [if_neg down] at found solid
                split
                · rfl
                · next short =>
                    rw [if_neg short] at found solid
                    exact ih found solid
      · rw [if_neg isDirectory] at found solid
        split at found
        · next isFile => simp [isFile] at solid
        · simp at found

theorem Extends.locate_eq (more : Extends tree grown) {path : Path}
    (found : tree.locate path ≠ .error .missing)
    (solid : tree.locate path ≠ .error .notDirectory) : grown.locate path = tree.locate path := by
  have start : grown.start (Path.ofText path.toText) = tree.start (Path.ofText path.toText) := by
    simp only [FileTree.start, more.current_eq]
  rw [FileTree.locate, locateText] at found solid
  rw [FileTree.locate, FileTree.locate, locateText, locateText]
  split
  · rfl
  · next valid =>
      rw [valid] at found solid
      rw [start]
      exact more.follow_eq found solid

theorem Extends.locate (more : Extends tree grown) {path : Path}
    (leads : tree.locate path = .ok place) : grown.locate path = .ok place := by
  rw [more.locate_eq (by simp [leads]) (by simp [leads]), leads]

/-- Two trees have the same directories, seen from the same working directory. -/
structure SameDirectories (tree other : FileTree) : Prop where
  /-- The working directory is the same. -/
  current_eq : other.current = tree.current
  /-- The directories are the same. -/
  isDirectory_eq : ∀ place, other.isDirectory place = tree.isDirectory place

theorem SameDirectories.refl (tree : FileTree) : SameDirectories tree tree :=
  ⟨rfl, fun _ => rfl⟩

theorem SameDirectories.trans (first : SameDirectories tree grown)
    (second : SameDirectories grown other) : SameDirectories tree other :=
  ⟨second.current_eq.trans first.current_eq,
    fun place => (second.isDirectory_eq place).trans (first.isDirectory_eq place)⟩

theorem SameDirectories.symm (same : SameDirectories tree other) : SameDirectories other tree :=
  ⟨same.current_eq.symm, fun place => (same.isDirectory_eq place).symm⟩

theorem SameDirectories.toExtends (same : SameDirectories tree other) : Extends tree other :=
  ⟨same.current_eq, fun place isDirectory => (same.isDirectory_eq place).trans isDirectory⟩

theorem sameDirectories_putFile (parent : tree.isDirectory place.dropLast) (file : File) :
    SameDirectories tree (tree.putFile place file) :=
  ⟨rfl, isDirectory_putFile parent file⟩

/-- Removing a file removes no directory, and makes none. -/
theorem sameDirectories_remove (parent : tree.isDirectory place.dropLast) :
    SameDirectories tree (tree.remove place) := by
  refine ⟨rfl, fun location => Bool.eq_iff_iff.2 ⟨?_, isDirectory_remove⟩⟩
  intro isDirectory
  rw [isDirectory_iff] at isDirectory
  rcases isDirectory with root | current | ⟨folder, member, inside⟩ | ⟨entry, member, inside, below⟩
  · exact isDirectory_iff.2 (.inl root)
  · exact isDirectory_iff.2 (.inr (.inl current))
  · rcases List.mem_append.1 member with kept | new
    · exact isDirectory_iff.2 (.inr (.inr (.inl ⟨folder, kept, inside⟩)))
    · rw [List.mem_singleton.1 new] at inside
      exact isDirectory_above parent inside
  · exact isDirectory_iff.2
      (.inr (.inr (.inr ⟨entry, (List.mem_filter.1 member).1, inside, below⟩)))

/-! ## Folders -/

/-- Folders were made where there was nothing, and no file was touched. -/
structure Widens (tree grown : FileTree) : Prop extends Extends tree grown where
  /-- The files are the same. -/
  files_eq : grown.files = tree.files
  /-- No file became a directory. -/
  isDirectory_new : ∀ place, grown.isDirectory place →
    tree.isDirectory place ∨ tree.file? place = none

theorem Widens.refl (tree : FileTree) : Widens tree tree :=
  ⟨.refl tree, rfl, fun _ => .inl⟩

theorem Widens.file?_eq (widens : Widens tree grown) (place : Place) :
    grown.file? place = tree.file? place := by
  rw [file?, widens.files_eq]
  rfl

theorem Widens.trans (first : Widens tree grown) (second : Widens grown other) :
    Widens tree other := by
  refine ⟨first.toExtends.trans second.toExtends, second.files_eq.trans first.files_eq, ?_⟩
  intro place isDirectory
  rcases second.isDirectory_new place isDirectory with before | free
  · exact first.isDirectory_new place before
  · exact .inr ((first.file?_eq place).symm.trans free)

theorem isDirectory_addFolder (parent : tree.isDirectory place.dropLast) (location : Place) :
    ({ tree with folders := tree.folders ++ [place] } : FileTree).isDirectory location ↔
      tree.isDirectory location ∨ location = place := by
  have shown (leads : location <+: place) : tree.isDirectory location ∨ location = place := by
    by_cases same : location = place
    · exact .inr same
    · exact .inl (isDirectory_above parent (prefix_dropLast leads same))
  rw [isDirectory_iff] at shown
  rw [isDirectory_iff, isDirectory_iff]
  constructor
  · rintro (root | current | ⟨folder, member, inside⟩ | file)
    · exact .inl (.inl root)
    · exact .inl (.inr (.inl current))
    · rcases List.mem_append.1 member with kept | new
      · exact .inl (.inr (.inr (.inl ⟨folder, kept, inside⟩)))
      · rw [List.mem_singleton.1 new] at inside
        exact shown inside
    · exact .inl (.inr (.inr (.inr file)))
  · rintro ((root | current | ⟨folder, member, inside⟩ | file) | rfl)
    · exact .inl root
    · exact .inr (.inl current)
    · exact .inr (.inr (.inl ⟨folder, List.mem_append_left _ member, inside⟩))
    · exact .inr (.inr (.inr file))
    · exact .inr (.inr (.inl ⟨location, List.mem_append_right _ List.mem_cons_self,
        List.prefix_refl location⟩))

theorem hasDirectory_iff {path : Path} :
    tree.hasDirectory path ↔ ∃ place, tree.locate path = .ok place ∧ tree.isDirectory place := by
  unfold hasDirectory
  split
  · next place leads => simp [leads]
  · next leads => simp [leads]

theorem widens_makeFolder {path : Path} (made : tree.makeFolder path = .ok grown) :
    Widens tree grown ∧ grown.hasDirectory path := by
  rcases bind_eq_ok_iff.1 made with ⟨place, leads, made⟩
  split at made
  · cases made
  · next free =>
      obtain rfl := Except.ok.inj made
      simp only [Bool.or_eq_true, not_or, Bool.not_eq_true, Option.isSome_eq_false_iff,
        Option.isNone_iff_eq_none] at free
      have added := isDirectory_addFolder (isDirectory_dropLast_of_locate leads free.1)
      have more : Extends tree { tree with folders := tree.folders ++ [place] } :=
        ⟨rfl, fun location before => (added location).2 (.inl before)⟩
      refine ⟨⟨more, rfl, ?_⟩, hasDirectory_iff.2 ⟨place, more.locate leads, ?_⟩⟩
      · intro location isDirectory
        rcases (added location).1 isDirectory with before | rfl
        · exact .inl before
        · exact .inr free.2
      · exact (added place).2 (.inr rfl)

theorem widens_ensureFolder {path : Path} (made : tree.ensureFolder path = .ok grown) :
    Widens tree grown ∧ grown.hasDirectory path := by
  rw [ensureFolder] at made
  split at made
  · next new =>
      obtain rfl := Except.ok.inj made
      exact widens_makeFolder new
  · split at made
    · next there =>
        obtain rfl := Except.ok.inj made
        exact ⟨.refl tree, there⟩
    · cases made

theorem widens_ensureFolders {anchor : Path.Anchor} {parts : List Text}
    (made : tree.ensureFolders anchor parts = .ok grown) :
    Widens tree grown ∧ (parts = [] ∨ grown.hasDirectory ⟨anchor, parts.reverse⟩) := by
  induction parts generalizing grown with
  | nil =>
      obtain rfl := Except.ok.inj made
      exact ⟨.refl tree, .inl rfl⟩
  | cons part above ih =>
      rw [ensureFolders] at made
      split at made
      · rcases bind_eq_ok_iff.1 made with ⟨between, before, after⟩
        have last := widens_ensureFolder after
        exact ⟨(ih before).1.trans last.1, .inr last.2⟩
      · have last := widens_ensureFolder made
        exact ⟨last.1, .inr last.2⟩

/-- A folder that is there need not be made. -/
theorem ensureFolders_of_hasDirectory {anchor : Path.Anchor} {parts : List Text}
    (there : parts = [] ∨ tree.hasDirectory ⟨anchor, parts.reverse⟩) :
    tree.ensureFolders anchor parts = .ok tree := by
  cases parts with
  | nil => rfl
  | cons part above =>
      have there : tree.hasDirectory ⟨anchor, (part :: above).reverse⟩ := by simpa using there
      rcases hasDirectory_iff.1 there with ⟨place, leads, isDirectory⟩
      have taken : tree.makeFolder ⟨anchor, (part :: above).reverse⟩ = .error .taken := by
        rw [makeFolder, leads]
        simp [isDirectory, bind, Except.bind, throw, throwThe, MonadExceptOf.throw]
      simp only [ensureFolders, ensureFolder, taken, there, if_true]

end FileTree

end IdlFormat
