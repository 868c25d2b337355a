import IdlFormat.Proofs.Discovery
import Mathlib.Data.Char
import Mathlib.Data.List.Lex

/-!
# The files that are found

A search takes just the files below a directory that the filter wants and does not exclude, neither
themselves nor a directory on the way to them (`mem_search_iff`), and it goes deep enough for all
of them. So each path of a run stands for a known set of files (`StandsFor`), and what is found is
all that the paths stand for, each file once, as the first path that leads to it spells it.

The files of a search that meets a directory twice differ in their spelling only, so the set of
places that are found hangs on the set of paths alone.
-/

namespace IdlFormat

/-! ## The order of paths -/

namespace Text

theorem le_iff {left right : Text} : le left right ↔ left ≤ right := by
  induction left generalizing right with
  | nil =>
      cases right with
      | nil => simp [le]
      | cons d right => simp [le, (List.nil_lt_cons d right).le]
  | cons c left ih =>
      cases right with
      | nil => simp [le]
      | cons d right =>
          rw [le_iff_lt_or_eq, List.cons_lt_cons_iff, List.cons.injEq]
          simp only [le, Bool.or_eq_true, Bool.and_eq_true, decide_eq_true_eq, ih, le_iff_lt_or_eq]
          have less : c.toNat < d.toNat ↔ c < d := Iff.rfl
          tauto

end Text

namespace Path

theorem leParts_iff {left right : List Text} : leParts left right ↔ left ≤ right := by
  induction left generalizing right with
  | nil =>
      cases right with
      | nil => simp [leParts]
      | cons second right => simp [leParts, (List.nil_lt_cons second right).le]
  | cons first left ih =>
      cases right with
      | nil => simp [leParts]
      | cons second right =>
          rw [le_iff_lt_or_eq, List.cons_lt_cons_iff, List.cons.injEq, leParts]
          split
          · next same => simp [same, ih, le_iff_lt_or_eq]
          · next other => simp [other, Text.le_iff, le_iff_lt_or_eq]

/-- Paths are ordered like their lists of components. -/
theorem le_iff {left right : Path} : left.le right ↔ left.components ≤ right.components :=
  leParts_iff

end Path

namespace FileTree

variable {tree : FileTree} {place : Place}

theorem mem_fileNames_iff {name : Text} :
    name ∈ tree.fileNames place ↔ ∃ file, (place ++ [name], file) ∈ tree.files := by
  refine ⟨Discovery.exists_file_of_mem_fileNames, ?_⟩
  rintro ⟨file, inside⟩
  refine List.mem_filterMap.2 ⟨_, inside, ?_⟩
  simp

/-- The folder right below a directory on the way to a file. -/
theorem mem_folderNames_of_mem_files {name : Text} {names : List Text} {file : File}
    (inside : (place ++ name :: names, file) ∈ tree.files) (deeper : names ≠ []) :
    name ∈ tree.folderNames place := by
  have shown : place ++ name :: names.dropLast ∈ tree.shownFolders := by
    refine List.mem_append_right _ (List.mem_cons_of_mem _ (List.mem_map.2 ⟨_, inside, ?_⟩))
    simp [List.dropLast_append_of_ne_nil, List.dropLast_cons_of_ne_nil deeper]
  refine List.mem_eraseDups.2 (List.mem_filterMap.2 ⟨_, shown, ?_⟩)
  simp

theorem length_lt_depth {folder : Place} (shown : folder ∈ tree.shownFolders) :
    folder.length < tree.depth := by
  have bound (sizes : List Nat) (least : Nat) :
      least ≤ sizes.foldl max least ∧ ∀ size ∈ sizes, size ≤ sizes.foldl max least := by
    induction sizes generalizing least with
    | nil => simp
    | cons size sizes ih =>
        rcases ih (max least size) with ⟨above, others⟩
        rw [List.foldl_cons, List.forall_mem_cons]
        exact ⟨by omega, by omega, others⟩
  exact Nat.lt_succ_of_le ((bound _ 0).2 _ (List.mem_map_of_mem shown))

theorem length_le_depth {file : File} (inside : (place, file) ∈ tree.files) :
    place.length ≤ tree.depth := by
  have shown : place.dropLast ∈ tree.shownFolders :=
    List.mem_append_right _ (List.mem_cons_of_mem _ (List.mem_map.2 ⟨_, inside, rfl⟩))
  have below := length_lt_depth shown
  rw [List.length_dropLast] at below
  omega

end FileTree

namespace Discovery

open FileTree

variable {filter : FileFilter} {tree : FileTree} {top : Place}

/-- Names lead from a directory down to a file that a search takes: the suffix is wanted, and
neither the file nor a directory on the way to it is excluded. -/
structure Takes (filter : FileFilter) (tree : FileTree) (top : Place) (names : List Text) :
    Prop where
  /-- The file lies below the directory. -/
  below : names ≠ []
  /-- The names lead to a file. -/
  isFile : ∃ file, (top ++ names, file) ∈ tree.files
  /-- The suffix is wanted. -/
  hasExtension : filter.hasExtension (relativePath names)
  /-- Nothing up to the file, and with it, is excluded. -/
  kept : ∀ front, front ≠ [] → front <+: names → filter.isExcluded (relativePath front) = false

theorem mem_search_iff {levels : Nat} {parts names : List Text} :
    names ∈ search filter tree top levels parts ↔
      ∃ rest, names = parts ++ rest ∧ rest.length ≤ levels ∧ rest ≠ [] ∧
        (∃ file, (top ++ names, file) ∈ tree.files) ∧ filter.hasExtension (relativePath names) ∧
        ∀ front, front ≠ [] → front <+: rest →
          filter.isExcluded (relativePath (parts ++ front)) = false := by
  induction levels generalizing parts with
  | zero => simp [search]
  | succ levels ih =>
      rw [search]
      simp only [List.mem_append, List.mem_filter, List.mem_map, List.mem_flatMap, ih,
        Bool.and_eq_true, Bool.not_eq_true']
      constructor
      · rintro (⟨⟨name, listed, rfl⟩, wanted, kept⟩ |
          ⟨_, ⟨⟨name, -, rfl⟩, entered⟩, rest, rfl, short, filled, isFile, wanted, kept⟩)
        · refine ⟨[name], rfl, by simp, by simp, ?_, wanted, ?_⟩
          · simpa using mem_fileNames_iff.1 listed
          · intro front filled leads
            rcases List.prefix_cons_iff.1 leads with rfl | ⟨others, rfl, empty⟩
            · exact absurd rfl filled
            · rwa [List.prefix_nil.1 empty]
        · refine ⟨name :: rest, by simp, by simpa using short, by simp, isFile, wanted, ?_⟩
          intro front filled leads
          rcases List.prefix_cons_iff.1 leads with rfl | ⟨others, rfl, deeper⟩
          · exact absurd rfl filled
          · rcases List.eq_nil_or_concat' others with rfl | ⟨_, _, rfl⟩
            · exact entered
            · simpa using kept _ (by simp) deeper
      · rintro ⟨rest, rfl, short, filled, isFile, wanted, kept⟩
        rcases List.exists_cons_of_ne_nil filled with ⟨name, rest, rfl⟩
        have entered := kept [name] (by simp) (by simp)
        cases rest with
        | nil =>
            refine .inl ⟨⟨name, mem_fileNames_iff.2 ?_, rfl⟩, wanted, entered⟩
            simpa using isFile
        | cons next rest =>
            rcases isFile with ⟨file, inside⟩
            refine .inr ⟨parts ++ [name], ⟨⟨name, ?_, rfl⟩, entered⟩, next :: rest, by simp,
              by simpa using short, by simp, ⟨file, by simpa using inside⟩, wanted, ?_⟩
            · exact mem_folderNames_of_mem_files (by simpa using inside) (by simp)
            · intro front filled leads
              simpa using kept (name :: front) (by simp) (by simpa using leads)

/-- The search goes deep enough. -/
theorem mem_search_depth_iff {names : List Text} :
    names ∈ search filter tree top tree.depth [] ↔ Takes filter tree top names := by
  rw [mem_search_iff]
  constructor
  · rintro ⟨_, rfl, -, filled, isFile, wanted, kept⟩
    exact ⟨filled, isFile, wanted, kept⟩
  · rintro ⟨filled, ⟨file, inside⟩, wanted, kept⟩
    refine ⟨names, rfl, ?_, filled, ⟨file, inside⟩, wanted, kept⟩
    have bound := length_le_depth inside
    rw [List.length_append] at bound
    omega

/-! ## What a path stands for -/

variable {path result : Path} {paths files : List Path}

/-- A path stands for itself if there is no directory at it, and else for the files that a search of
the directory takes. -/
inductive StandsFor (filter : FileFilter) (tree : FileTree) (path : Path) : Path → Prop
  /-- There is no directory at the path. -/
  | itself (other : tree.hasDirectory path = false) : StandsFor filter tree path path
  /-- A file below the directory at the path. -/
  | below {names : List Text} (directory : tree.hasDirectory path)
      (takes : Takes filter tree (tree.resolve path) names) :
      StandsFor filter tree path { path with parts := path.parts ++ names }

theorem standsFor_of_not_hasDirectory (other : tree.hasDirectory path = false) :
    StandsFor filter tree path result ↔ result = path := by
  constructor
  · intro stands
    cases stands with
    | itself _ => rfl
    | below directory _ => simp [other] at directory
  · rintro rfl
    exact .itself other

theorem standsFor_of_hasDirectory (directory : tree.hasDirectory path) :
    StandsFor filter tree path result ↔ ∃ names, Takes filter tree (tree.resolve path) names ∧
      { path with parts := path.parts ++ names } = result := by
  constructor
  · intro stands
    cases stands with
    | itself other => simp [other] at directory
    | below _ takes => exact ⟨_, takes, rfl⟩
  · rintro ⟨names, takes, rfl⟩
    exact .below directory takes

/-- The files that a path stands for, if they can be looked for at all. -/
theorem mem_expand_iff (proper : path.Proper) (found : expand filter tree path = .ok files) :
    result ∈ files ↔ StandsFor filter tree path result := by
  rw [expand] at found
  cases leads : tree.locate path with
  | error obstacle =>
      obtain rfl : [path] = files := by cases obstacle <;> simp_all
      rw [List.mem_singleton, standsFor_of_not_hasDirectory (by simp [hasDirectory, leads])]
  | ok place =>
      have atPlace : tree.hasDirectory path = tree.isDirectory place := by
        rw [hasDirectory, leads]
      simp only [leads] at found
      split at found
      · next directory =>
          obtain rfl := Except.ok.inj found
          rw [List.mem_map, standsFor_of_hasDirectory (atPlace.trans directory),
            ← eq_resolve_of_locate proper leads]
          simp only [mem_search_depth_iff]
      · next other =>
          obtain rfl := Except.ok.inj found
          rw [List.mem_singleton,
            standsFor_of_not_hasDirectory (by rw [atPlace, Bool.eq_false_iff.2 other])]

theorem exists_expand_iff :
    (∃ files, expand filter tree path = .ok files) ↔
      tree.locate path ≠ .error .tooLong ∧ tree.locate path ≠ .error .noPath := by
  cases leads : tree.locate path with
  | error obstacle => cases obstacle <;> simp [expand, leads]
  | ok place =>
      simp only [expand, leads]
      split <;> simp

/-- Names that do not lead up are resolved to themselves. -/
theorem resolve_append {names : List Text} (down : ∀ name ∈ names, name ≠ ['.', '.'])
    (path : Path) :
    tree.resolve { path with parts := path.parts ++ names } = tree.resolve path ++ names := by
  have onward (place : Place) : names.foldl
      (fun place part => if part = ['.', '.'] then place.dropLast else place ++ [part]) place =
        place ++ names := by
    induction names generalizing place with
    | nil => simp
    | cons name names ih =>
        rw [List.forall_mem_cons] at down
        rw [List.foldl_cons, if_neg down.1, ih down.2]
        simp
  rw [resolve, List.foldl_append, onward]
  rfl

theorem resolve_of_takes (named : tree.Named) {names : List Text}
    (takes : Takes filter tree (tree.resolve path) names) :
    tree.resolve { path with parts := path.parts ++ names } = tree.resolve path ++ names := by
  rcases takes.isFile with ⟨file, inside⟩
  exact resolve_append
    (fun name member => (named _ inside name (List.mem_append_right _ member)).notUp) path

/-- A path stands for one file at each place at most, so the spelling of a file is settled by the
path that it is found by. -/
theorem StandsFor.eq_of_resolve_eq (named : tree.Named) {other : Path}
    (first : StandsFor filter tree path result) (second : StandsFor filter tree path other)
    (same : tree.resolve other = tree.resolve result) : other = result := by
  cases directory : tree.hasDirectory path with
  | false =>
      rw [standsFor_of_not_hasDirectory directory] at first second
      rw [first, second]
  | true =>
      rw [standsFor_of_hasDirectory directory] at first second
      rcases first with ⟨names, takes, rfl⟩
      rcases second with ⟨others, otherwise, rfl⟩
      rw [resolve_of_takes named takes, resolve_of_takes named otherwise,
        List.append_cancel_left_eq] at same
      rw [same]

/-- The places of what a path stands for. -/
theorem exists_standsFor_iff (named : tree.Named) {place : Place} :
    (∃ result, StandsFor filter tree path result ∧ tree.resolve result = place) ↔
      tree.hasDirectory path = false ∧ tree.resolve path = place ∨
        tree.hasDirectory path ∧ ∃ names, Takes filter tree (tree.resolve path) names ∧
          tree.resolve path ++ names = place := by
  cases directory : tree.hasDirectory path with
  | false => simp [standsFor_of_not_hasDirectory directory]
  | true =>
      simp only [standsFor_of_hasDirectory directory, Bool.true_eq_false, false_and, false_or,
        true_and]
      constructor
      · rintro ⟨_, ⟨names, takes, rfl⟩, rfl⟩
        exact ⟨names, takes, (resolve_of_takes named takes).symm⟩
      · rintro ⟨names, takes, rfl⟩
        exact ⟨_, ⟨names, takes, rfl⟩, resolve_of_takes named takes⟩

/-! ## Each file as it was first met -/

theorem exists_before_of_mem_dropRepeated {seen : List Place}
    (member : result ∈ dropRepeated tree seen paths) :
    ∃ before after, paths = before ++ result :: after ∧
      ∀ other ∈ before, tree.resolve other ≠ tree.resolve result := by
  induction paths generalizing seen with
  | nil => simp [dropRepeated] at member
  | cons path paths ih =>
      have fresh := (nodup_dropRepeated tree seen (path :: paths)).2 result member
      rw [dropRepeated] at member
      split at member
      · next old =>
          rcases ih member with ⟨before, after, rfl, others⟩
          refine ⟨path :: before, after, rfl, List.forall_mem_cons.2 ⟨?_, others⟩⟩
          exact ne_of_mem_of_not_mem old fresh
      · rcases List.mem_cons.1 member with rfl | later
        · exact ⟨[], paths, rfl, by simp⟩
        · have new := (nodup_dropRepeated tree _ paths).2 result later
          rcases ih later with ⟨before, after, rfl, others⟩
          refine ⟨path :: before, after, rfl, List.forall_mem_cons.2 ⟨?_, others⟩⟩
          exact ne_of_mem_of_not_mem List.mem_cons_self new

/-- No place is lost with the repeated paths. -/
theorem mem_map_dropRepeated_iff {seen : List Place} {place : Place} :
    place ∈ (dropRepeated tree seen paths).map tree.resolve ↔
      place ∉ seen ∧ place ∈ paths.map tree.resolve := by
  induction paths generalizing seen with
  | nil => simp [dropRepeated]
  | cons path paths ih =>
      rw [dropRepeated, List.map_cons, List.mem_cons]
      split
      · next old =>
          rw [ih]
          have other (fresh : place ∉ seen) : place ≠ tree.resolve path :=
            (ne_of_mem_of_not_mem old fresh).symm
          tauto
      · next new =>
          rw [List.map_cons, List.mem_cons, ih, List.mem_cons]
          by_cases same : place = tree.resolve path
          · simp [same, new]
          · simp [same]

section Expanded

variable {groups : List (List Path)}

/-- What is met is what the paths stand for. -/
theorem mem_flatten_iff (proper : ∀ path ∈ paths, path.Proper)
    (expanded : List.Forall₂ (fun path group => expand filter tree path = .ok group) paths groups) :
    result ∈ groups.flatten ↔ ∃ path ∈ paths, StandsFor filter tree path result := by
  induction expanded with
  | nil => simp
  | cons own _ ih =>
      rw [List.forall_mem_cons] at proper
      rw [List.flatten_cons, List.mem_append, mem_expand_iff proper.1 own, ih proper.2]
      simp

/-- What is met is met by a path, and everything that the paths before it stand for was met
before. -/
theorem exists_path_of_flatten_eq {before after : List Path}
    (proper : ∀ path ∈ paths, path.Proper)
    (expanded : List.Forall₂ (fun path group => expand filter tree path = .ok group) paths groups)
    (met : groups.flatten = before ++ result :: after) :
    ∃ front path back, paths = front ++ path :: back ∧ StandsFor filter tree path result ∧
      ∀ earlier ∈ front, ∀ other, StandsFor filter tree earlier other → other ∈ before := by
  induction expanded generalizing before with
  | nil => simp at met
  | @cons path group paths groups own _ ih =>
      rw [List.forall_mem_cons] at proper
      rw [List.flatten_cons] at met
      have cut : (∃ between, before = group ++ between ∧
          groups.flatten = between ++ result :: after) ∨ result ∈ group := by
        rcases List.append_eq_append_iff.1 met with ⟨between, rfl, later⟩ | ⟨between, rfl, later⟩
        · exact .inl ⟨between, rfl, later⟩
        · cases between with
          | nil => exact .inl ⟨[], by simp, later.symm⟩
          | cons first between =>
              obtain ⟨rfl, -⟩ := List.cons.inj later
              exact .inr (by simp)
      rcases cut with ⟨between, rfl, later⟩ | inside
      · rcases ih proper.2 later with ⟨front, source, back, rfl, stands, earlier⟩
        refine ⟨path :: front, source, back, rfl, stands, List.forall_mem_cons.2 ⟨?_, ?_⟩⟩
        · intro other standsFirst
          exact List.mem_append_left _ ((mem_expand_iff proper.1 own).2 standsFirst)
        · intro source member other standsLater
          exact List.mem_append_right _ (earlier source member other standsLater)
      · exact ⟨[], path, paths, rfl, (mem_expand_iff proper.1 own).1 inside, by simp⟩

end Expanded

/-! ## The files of a run -/

theorem discover_eq_ok_iff :
    discover filter tree paths = .ok files ↔ ∃ groups,
      List.Forall₂ (fun path group => expand filter tree path = .ok group) paths groups ∧
        (dropRepeated tree [] groups.flatten).mergeSort Path.le = files := by
  rw [discover, bind_eq_ok_iff]
  simp only [mapM_eq_ok_iff, pure, Except.pure, Except.ok.injEq]

theorem pairwise_discover (found : discover filter tree paths = .ok files) :
    files.Pairwise fun left right => left.components ≤ right.components := by
  rcases discover_eq_ok_iff.1 found with ⟨groups, -, rfl⟩
  have trans (first second third : Path) (left : first.le second) (right : second.le third) :
      first.le third :=
    Path.le_iff.2 ((Path.le_iff.1 left).trans (Path.le_iff.1 right))
  have total (first second : Path) : first.le second || second.le first := by
    rw [Bool.or_eq_true, Path.le_iff, Path.le_iff]
    exact le_total _ _
  exact (List.pairwise_mergeSort trans total _).imp Path.le_iff.1

/-- The places that are found are those of all that the paths stand for. -/
theorem mem_map_discover_iff (proper : ∀ path ∈ paths, path.Proper)
    (found : discover filter tree paths = .ok files) {place : Place} :
    place ∈ files.map tree.resolve ↔
      ∃ path ∈ paths, ∃ result,
        StandsFor filter tree path result ∧ tree.resolve result = place := by
  rcases discover_eq_ok_iff.1 found with ⟨groups, expanded, rfl⟩
  rw [((List.mergeSort_perm _ _).map tree.resolve).mem_iff, mem_map_dropRepeated_iff, List.mem_map]
  simp only [mem_flatten_iff proper expanded, List.not_mem_nil, not_false_eq_true, true_and]
  constructor
  · rintro ⟨result, ⟨path, member, stands⟩, rfl⟩
    exact ⟨path, member, result, stands, rfl⟩
  · rintro ⟨path, member, result, stands, rfl⟩
    exact ⟨result, ⟨path, member, stands⟩, rfl⟩

/-- A file is found by the first path that leads to it. -/
theorem exists_path_of_mem_discover (proper : ∀ path ∈ paths, path.Proper)
    (found : discover filter tree paths = .ok files) (member : result ∈ files) :
    ∃ front path back, paths = front ++ path :: back ∧ StandsFor filter tree path result ∧
      ∀ earlier ∈ front, ∀ other, StandsFor filter tree earlier other →
        tree.resolve other ≠ tree.resolve result := by
  rcases discover_eq_ok_iff.1 found with ⟨groups, expanded, rfl⟩
  rcases exists_before_of_mem_dropRepeated ((List.mergeSort_perm _ _).mem_iff.1 member) with
    ⟨before, after, met, others⟩
  rcases exists_path_of_flatten_eq proper expanded met with
    ⟨front, path, back, shape, stands, earlier⟩
  exact ⟨front, path, back, shape, stands,
    fun source inside other standsFirst => others other (earlier source inside other standsFirst)⟩

/-- Files are found unless a path cannot be looked up. -/
theorem exists_discover_iff :
    (∃ files, discover filter tree paths = .ok files) ↔ ∀ path ∈ paths,
      tree.locate path ≠ .error .tooLong ∧ tree.locate path ≠ .error .noPath := by
  have expands (paths : List Path) :
      (∃ groups,
        List.Forall₂ (fun path group => expand filter tree path = .ok group) paths groups) ↔
        ∀ path ∈ paths, ∃ group, expand filter tree path = .ok group := by
    induction paths with
    | nil => simp
    | cons path paths ih =>
        rw [List.forall_mem_cons, ← ih]
        simp [List.forall₂_cons_left_iff]
  simp only [← @exists_expand_iff filter, ← expands, discover_eq_ok_iff]
  constructor
  · rintro ⟨files, groups, expanded, -⟩
    exact ⟨groups, expanded⟩
  · rintro ⟨groups, expanded⟩
    exact ⟨_, groups, expanded, rfl⟩

/-- The files of a run are sorted, lie at different places, and lie where a path that is no
directory leads to or where a search of a directory takes a file. So their places do not hang on the
order of the paths, nor on repeated ones; and each file is spelled by the first path that leads to
it. Files are found unless a path is too long or none. -/
theorem discover_sound_and_complete (named : tree.Named) (proper : ∀ path ∈ paths, path.Proper) :
    ((∃ files, discover filter tree paths = .ok files) ↔ ∀ path ∈ paths,
      tree.locate path ≠ .error .tooLong ∧ tree.locate path ≠ .error .noPath) ∧
    ∀ files, discover filter tree paths = .ok files →
      files.Pairwise (fun left right => left.components ≤ right.components) ∧
      (files.map tree.resolve).Nodup ∧
      (∀ place, place ∈ files.map tree.resolve ↔
        (∃ path ∈ paths, tree.hasDirectory path = false ∧ tree.resolve path = place) ∨
          ∃ path ∈ paths, tree.hasDirectory path ∧ ∃ names,
            Takes filter tree (tree.resolve path) names ∧ tree.resolve path ++ names = place) ∧
      (∀ others : List Path, (∀ path, path ∈ others ↔ path ∈ paths) →
        ∃ found, discover filter tree others = .ok found ∧
          ∀ place, place ∈ found.map tree.resolve ↔ place ∈ files.map tree.resolve) ∧
      ∀ file ∈ files, ∃ front path back, paths = front ++ path :: back ∧
        StandsFor filter tree path file ∧
        (∀ other, StandsFor filter tree path other →
          tree.resolve other = tree.resolve file → other = file) ∧
        ∀ earlier ∈ front, ∀ other, StandsFor filter tree earlier other →
          tree.resolve other ≠ tree.resolve file := by
  refine ⟨exists_discover_iff, fun files found => ⟨pairwise_discover found,
    nodup_resolve_discover found, ?_, ?_, ?_⟩⟩
  · intro place
    rw [mem_map_discover_iff proper found]
    simp only [exists_standsFor_iff named, and_or_left, exists_or]
  · intro others same
    have returns : ∃ files, discover filter tree others = .ok files := by
      rw [exists_discover_iff]
      intro path member
      exact exists_discover_iff.1 ⟨files, found⟩ path ((same path).1 member)
    rcases returns with ⟨otherFiles, otherwise⟩
    refine ⟨otherFiles, otherwise, fun place => ?_⟩
    rw [mem_map_discover_iff (fun path member => proper path ((same path).1 member)) otherwise,
      mem_map_discover_iff proper found]
    simp only [same]
  · intro file member
    rcases exists_path_of_mem_discover proper found member with
      ⟨front, path, back, shape, stands, earlier⟩
    exact ⟨front, path, back, shape, stands,
      fun other standsToo => stands.eq_of_resolve_eq named standsToo, earlier⟩

/-- A project with an excluded directory and a file that is not wanted. -/
def projectTree : FileTree where
  files := [
    (["home".toList, "a".toList, "x.idl".toList], ⟨[], 0⟩),
    (["home".toList, "a".toList, "notes.txt".toList], ⟨[], 0⟩),
    (["home".toList, "a".toList, "build".toList, "y.idl".toList], ⟨[], 0⟩),
    (["home".toList, "a-b.IDL".toList], ⟨[], 0⟩)]
  current := ["home".toList]

/-- Paths that overlap, one of them to an excluded file and one to nothing. -/
def projectPaths : List Path :=
  ["a/../a".toList, "a/build/y.idl".toList, ".".toList, "none".toList].map Path.ofText

/-- What the paths stand for, one after the other. -/
def projectGroups : List (List Path) :=
  [["a/../a/x.idl".toList], ["a/build/y.idl".toList], ["a-b.IDL".toList, "a/x.idl".toList],
    ["none".toList]].map (List.map Path.ofText)

/-- What is found in the project. -/
def projectFiles : List Path :=
  ["a/../a/x.idl".toList, "a/build/y.idl".toList, "a-b.IDL".toList, "none".toList].map Path.ofText

theorem discover_project : discover {} projectTree projectPaths = .ok projectFiles := by
  have expanded : projectPaths.mapM (expand {} projectTree) = .ok projectGroups := by
    decide +kernel
  have once : dropRepeated projectTree [] projectGroups.flatten = projectFiles := by
    decide +kernel
  have sorted : projectFiles.mergeSort Path.le = projectFiles :=
    List.mergeSort_of_pairwise (by decide +kernel)
  refine bind_eq_ok_iff.2 ⟨projectGroups, expanded, congrArg Except.ok ?_⟩
  rw [once, sorted]

theorem discover_sound_and_complete_project :
    projectTree.Named ∧ (∀ path ∈ projectPaths, path.Proper) ∧
      discover {} projectTree projectPaths = .ok projectFiles ∧
      projectFiles.Pairwise (fun left right => left.components ≤ right.components) ∧
      (projectFiles.map projectTree.resolve).Nodup ∧
      (∀ place, place ∈ projectFiles.map projectTree.resolve ↔
        (∃ path ∈ projectPaths, projectTree.hasDirectory path = false ∧
          projectTree.resolve path = place) ∨
        ∃ path ∈ projectPaths, projectTree.hasDirectory path ∧ ∃ names,
          Takes {} projectTree (projectTree.resolve path) names ∧
            projectTree.resolve path ++ names = place) ∧
      ∃ found, discover {} projectTree (projectPaths.reverse ++ projectPaths) = .ok found ∧
        ∀ place, place ∈ found.map projectTree.resolve ↔
          place ∈ projectFiles.map projectTree.resolve := by
  have named : projectTree.Named := by decide +kernel
  have proper : ∀ path ∈ projectPaths, path.Proper := by
    intro path member
    rcases List.mem_map.1 member with ⟨text, -, rfl⟩
    exact proper_ofText text
  rcases (discover_sound_and_complete named proper).2 projectFiles discover_project with
    ⟨sorted, once, places, independent, -⟩
  exact ⟨named, proper, discover_project, sorted, once, places, independent _ (by simp)⟩

end Discovery

end IdlFormat
