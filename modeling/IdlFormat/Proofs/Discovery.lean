import IdlFormat.Discovery.Basic
import IdlFormat.Proofs.Place
import Mathlib.Data.List.Nodup

/-!
# What a search finds

The files that the paths of a run stand for lie at different places (`nodup_resolve_discover`). The
path of a file that was found in a directory leads to that file, since everything above a file is a
directory; only a path that gets too long leads nowhere (`reaches_of_discover`).
-/

namespace IdlFormat

namespace FileTree

/-- The places of all files are made of names. -/
def Named (tree : FileTree) : Prop :=
  ∀ entry ∈ tree.files, ∀ name ∈ entry.1, IsName name

instance (tree : FileTree) : Decidable tree.Named :=
  inferInstanceAs (Decidable (∀ entry ∈ tree.files, ∀ name ∈ entry.1, IsName name))

end FileTree

namespace Discovery

open FileTree

variable {filter : FileFilter} {tree : FileTree} {place top : Place} {path : Path}
  {paths files : List Path}

/-! ## Searching a directory -/

theorem exists_file_of_mem_fileNames {name : Text} (member : name ∈ tree.fileNames place) :
    ∃ file, (place ++ [name], file) ∈ tree.files := by
  rw [fileNames, List.mem_filterMap] at member
  rcases member with ⟨⟨location, file⟩, inside, last⟩
  simp only at last
  split at last
  · next direct =>
      simp only [Bool.and_eq_true, decide_eq_true_eq, List.isPrefixOf_iff_prefix] at direct
      rcases direct with ⟨⟨rest, rfl⟩, length⟩
      rcases List.getLast?_eq_some_iff.1 last with ⟨above, shape⟩
      obtain ⟨only, rfl⟩ : ∃ only, rest = [only] := by
        apply List.length_eq_one_iff.1
        simpa using length
      obtain rfl : only = name := by simpa using last
      exact ⟨file, inside⟩
  · cases last

theorem exists_file_of_mem_search {levels : Nat} {parts names : List Text}
    (member : names ∈ search filter tree top levels parts) :
    ∃ file, (top ++ names, file) ∈ tree.files := by
  induction levels generalizing parts with
  | zero => simp [search] at member
  | succ levels ih =>
      rw [search] at member
      simp only [List.mem_append, List.mem_filter, List.mem_map, List.mem_flatMap] at member
      rcases member with ⟨⟨name, inside, rfl⟩, -⟩ | ⟨folder, -, deeper⟩
      · rcases exists_file_of_mem_fileNames inside with ⟨file, found⟩
        exact ⟨file, by simpa using found⟩
      · exact ih deeper

theorem reaches_of_expand (named : tree.Named) (proper : path.Proper)
    (leads : tree.locate path = .ok place) (found : expand filter tree path = .ok files) :
    ∀ other ∈ files, other.Proper ∧ tree.Reaches other := by
  simp only [expand, leads] at found
  split at found
  · obtain rfl := Except.ok.inj found
    intro other member
    rcases List.mem_map.1 member with ⟨names, searched, rfl⟩
    rcases exists_file_of_mem_search searched with ⟨file, inside⟩
    have isName : ∀ name ∈ names, IsName name :=
      fun name within => named _ inside name (List.mem_append_right place within)
    have deeper : Path.Proper { path with parts := path.parts ++ names } := by
      intro part within
      rcases List.mem_append.1 within with early | late
      · exact proper part early
      · exact ⟨(isName part late).isStep, (isName part late).clean⟩
    have followed : tree.follow (tree.start path) (path.parts ++ names) = .ok (place ++ names) := by
      rw [follow_append, follow_of_proper proper leads]
      exact follow_names inside isName
    exact ⟨deeper, reaches_of_follow deeper followed⟩
  · obtain rfl := Except.ok.inj found
    intro other member
    obtain rfl := List.mem_singleton.1 member
    exact ⟨proper, .of_locate leads⟩

/-! ## Each file once -/

theorem dropRepeated_sublist (tree : FileTree) (seen : List Place) (paths : List Path) :
    (dropRepeated tree seen paths).Sublist paths := by
  induction paths generalizing seen with
  | nil => exact .refl _
  | cons path paths ih =>
      rw [dropRepeated]
      split
      · exact (ih seen).cons path
      · exact (ih _).cons_cons path

theorem nodup_dropRepeated (tree : FileTree) (seen : List Place) (paths : List Path) :
    ((dropRepeated tree seen paths).map tree.resolve).Nodup ∧
      ∀ path ∈ dropRepeated tree seen paths, tree.resolve path ∉ seen := by
  induction paths generalizing seen with
  | nil => simp [dropRepeated]
  | cons path paths ih =>
      rw [dropRepeated]
      split
      · exact ih seen
      · next new =>
          rcases ih (tree.resolve path :: seen) with ⟨once, fresh⟩
          simp only [List.mem_cons, not_or] at fresh
          refine ⟨?_, ?_⟩
          · rw [List.map_cons, List.nodup_cons]
            refine ⟨?_, once⟩
            rintro repeated
            rcases List.mem_map.1 repeated with ⟨other, member, same⟩
            exact (fresh other member).1 same
          · rw [List.forall_mem_cons]
            exact ⟨new, fun other member => (fresh other member).2⟩

/-- The files of a run lie at different places. -/
theorem nodup_resolve_discover (found : discover filter tree paths = .ok files) :
    (files.map tree.resolve).Nodup := by
  rcases bind_eq_ok_iff.1 found with ⟨groups, -, sorted⟩
  obtain rfl := Except.ok.inj sorted
  have once := (nodup_dropRepeated tree [] groups.flatten).1
  exact ((List.mergeSort_perm _ _).map tree.resolve).nodup_iff.2 once

/-- The paths of the files of a run lead to their places, unless they are too long. -/
theorem reaches_of_discover (named : tree.Named)
    (leads : ∀ path ∈ paths, path.Proper ∧ ∃ place, tree.locate path = .ok place)
    (found : discover filter tree paths = .ok files) :
    ∀ path ∈ files, path.Proper ∧ tree.Reaches path := by
  rcases bind_eq_ok_iff.1 found with ⟨groups, expanded, sorted⟩
  obtain rfl := Except.ok.inj sorted
  intro path member
  have inside := (dropRepeated_sublist tree [] groups.flatten).subset
    ((List.mergeSort_perm _ _).mem_iff.1 member)
  rcases List.mem_flatten.1 inside with ⟨group, ingroup, inside⟩
  rcases exists_of_mapM_eq_ok expanded ingroup with ⟨source, given, expanded⟩
  rcases leads source given with ⟨proper, place, leads⟩
  exact reaches_of_expand named proper leads expanded path inside

end Discovery

end IdlFormat
