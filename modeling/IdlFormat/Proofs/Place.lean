import IdlFormat.Proofs.Clean
import IdlFormat.Proofs.FileTree
import Mathlib.Data.List.Flatten
import Mathlib.Tactic.MkIffOfInductiveProp
import Mathlib.Tactic.SplitIfs

/-!
# Where paths lead

A path is written as a text before it is followed, and that text is cut at its slashes. For a path
whose components hold no slash this gives the components back, with some that do not move in front
of them. So such a path leads to the place that it names, if it leads anywhere
(`eq_resolve_of_locate`), and reading a text as a path does not change where it leads
(`locate_ofText`).

What is read at a path changes when directories are made only if the path goes up somewhere
(`Widens.toOption_read_eq_of_down`).
-/

namespace IdlFormat

namespace Path

/-- The components of the path move along it and hold no slash. -/
def Proper (path : Path) : Prop :=
  ∀ part ∈ path.parts, isStep part ∧ '/' ∉ part

end Path

namespace Text

/-- Leaving pieces out of a text leaves characters out of it. -/
theorem join_filter_sublist (separator : Text) (keep : Text → Bool) (pieces : List Text) :
    (join separator (pieces.filter keep)).Sublist (join separator pieces) := by
  cases pieces with
  | nil => exact .refl _
  | cons piece pieces =>
      have rest : ((pieces.filter keep).flatMap (separator ++ ·)).Sublist
          (pieces.flatMap (separator ++ ·)) := List.filter_sublist.flatMap _
      rw [List.filter_cons, join_cons]
      split
      · rw [join_cons]
        exact (List.Sublist.refl piece).append rest
      · refine List.Sublist.trans ?_ (rest.trans (List.sublist_append_right piece _))
        cases pieces.filter keep with
        | nil => exact List.nil_sublist _
        | cons first others =>
            rw [join_cons, List.flatMap_cons, List.append_assoc]
            exact List.sublist_append_right separator _

end Text

namespace FileTree

variable {tree : FileTree} {place target : Place} {path : Path}

/-! ## Steps along a path -/

theorem isDirectory_start (tree : FileTree) (path : Path) : tree.isDirectory (tree.start path) := by
  rw [isDirectory_iff, start]
  split
  · exact .inr (.inl (List.prefix_refl _))
  · exact .inl rfl

theorem follow_skipped (isDirectory : tree.isDirectory place) {skipped : List Text}
    (still : ∀ part ∈ skipped, Path.isStep part = false) (parts : List Text) :
    tree.follow place (skipped ++ parts) = tree.follow place parts := by
  induction skipped with
  | nil => rfl
  | cons part skipped ih =>
      rw [List.forall_mem_cons] at still
      have stays : (part.isEmpty || decide (part = ['.'])) = true := by
        simpa only [Path.isStep, Bool.not_eq_false'] using still.1
      rw [List.cons_append, follow, if_pos isDirectory, if_pos stays, ih still.2]

theorem follow_append (tree : FileTree) (place : Place) (first second : List Text) :
    tree.follow place (first ++ second) =
      tree.follow place first >>= fun between => tree.follow between second := by
  induction first generalizing place with
  | nil => rfl
  | cons part first ih =>
      rw [List.cons_append, follow, follow]
      split
      · split
        · exact ih place
        · split
          · exact ih _
          · split
            · rfl
            · exact ih _
      · split <;> rfl

/-- The steps that do not move can be left out. -/
theorem follow_filter {parts : List Text} (leads : tree.follow place parts = .ok target) :
    tree.follow place (parts.filter Path.isStep) = .ok target := by
  induction parts generalizing place with
  | nil => exact leads
  | cons part parts ih =>
      rw [follow] at leads
      split at leads
      · next isDirectory =>
          split at leads
          · next skipped =>
              have still : Path.isStep part = false := by simp [Path.isStep, skipped]
              rw [List.filter_cons_of_neg (by simp [still])]
              exact ih leads
          · next moves =>
              have steps : Path.isStep part := by simpa [Path.isStep] using moves
              rw [List.filter_cons_of_pos steps, follow, if_pos isDirectory, if_neg moves]
              split at leads
              · next up =>
                  rw [if_pos up]
                  exact ih leads
              · next down =>
                  rw [if_neg down]
                  split at leads
                  · cases leads
                  · next short =>
                      rw [if_neg short]
                      exact ih leads
      · split at leads <;> cases leads

/-- Steps that can be taken lead to the place that they name. -/
theorem eq_foldl_of_follow {parts : List Text} (steps : ∀ part ∈ parts, Path.isStep part)
    (leads : tree.follow place parts = .ok target) :
    parts.foldl (fun place part => if part = ['.', '.'] then place.dropLast else place ++ [part])
      place = target := by
  induction parts generalizing place with
  | nil => exact Except.ok.inj leads
  | cons part parts ih =>
      rw [List.forall_mem_cons] at steps
      have moves : ¬ (part.isEmpty || decide (part = ['.'])) = true := by
        simpa [Path.isStep] using steps.1
      rw [follow, if_neg moves] at leads
      rw [List.foldl_cons]
      split at leads
      · split at leads
        · next up =>
            rw [if_pos up]
            exact ih steps.2 leads
        · next down =>
            rw [if_neg down]
            split at leads
            · cases leads
            · exact ih steps.2 leads
      · split at leads <;> cases leads

/-- Steps down that can be taken have names that are not too long, and lead to what they name. -/
theorem eq_append_of_follow {parts : List Text}
    (steps : ∀ part ∈ parts, Path.isStep part ∧ part ≠ ['.', '.'])
    (leads : tree.follow place parts = .ok target) :
    target = place ++ parts ∧ ∀ part ∈ parts, (Utf8.encode part).length ≤ nameLimit := by
  induction parts generalizing place with
  | nil => simpa [follow] using leads.symm
  | cons part parts ih =>
      rw [List.forall_mem_cons] at steps
      have moves : ¬ (part.isEmpty || decide (part = ['.'])) = true := by
        simpa [Path.isStep] using steps.1.1
      rw [follow, if_neg moves, if_neg steps.1.2] at leads
      split at leads
      · split at leads
        · cases leads
        · next short =>
            rcases ih steps.2 leads with ⟨same, others⟩
            exact ⟨by simpa using same, List.forall_mem_cons.2 ⟨not_lt.1 short, others⟩⟩
      · split at leads <;> cases leads

/-! ## Paths as texts -/

theorem splitOn_toText (proper : path.Proper) :
    ∃ skipped, Text.splitOn '/' path.toText = skipped ++ path.parts ∧
      ∀ part ∈ skipped, Path.isStep part = false := by
  rcases path with ⟨anchor, parts⟩
  have joined (filled : parts ≠ []) : Text.splitOn '/' (Text.join ['/'] parts) = parts := by
    rcases List.exists_cons_of_ne_nil filled with ⟨part, parts, rfl⟩
    exact Text.splitOn_join fun part member => (proper part member).2
  have slash := Text.splitOn_cons_self '/'
  cases parts with
  | nil =>
      cases anchor with
      | relative => exact ⟨[['.']], rfl, by decide⟩
      | root => exact ⟨[[], []], rfl, by decide⟩
      | doubleRoot => exact ⟨[[], [], []], rfl, by decide⟩
  | cons part parts =>
      have inner := joined (List.cons_ne_nil _ _)
      cases anchor with
      | relative => exact ⟨[], inner, by simp⟩
      | root => exact ⟨[[]], by simp [Path.toText, Path.Anchor.text, slash, inner], by decide⟩
      | doubleRoot =>
          exact ⟨[[], []], by simp [Path.toText, Path.Anchor.text, slash, inner], by decide⟩

theorem anchor_ofText_toText (proper : path.Proper) :
    (Path.ofText path.toText).anchor = path.anchor := by
  rcases path with ⟨anchor, parts⟩
  have joined : (Text.join ['/'] parts).takeWhile (· = '/') = [] := by
    cases parts with
    | nil => rfl
    | cons part parts =>
        rcases proper part List.mem_cons_self with ⟨steps, clean⟩
        cases part with
        | nil => simp [Path.isStep] at steps
        | cons c part =>
            have other : c ≠ '/' := by
              rintro rfl
              exact clean List.mem_cons_self
            simp [Text.join_cons, other]
  cases anchor with
  | relative =>
      cases parts with
      | nil => rfl
      | cons part parts =>
          simp [Path.ofText, Path.toText, Path.Anchor.text, joined, Path.Anchor.ofSlashes]
  | root => simp [Path.ofText, Path.toText, Path.Anchor.text, joined, Path.Anchor.ofSlashes]
  | doubleRoot => simp [Path.ofText, Path.toText, Path.Anchor.text, joined, Path.Anchor.ofSlashes]

/-- A path is followed component by component, unless its text is none of a path. -/
theorem locate_eq (proper : path.Proper) (tree : FileTree) :
    tree.locate path =
      match fault? path.toText with
      | some obstacle => .error obstacle
      | none => tree.follow (tree.start path) path.parts := by
  rcases splitOn_toText proper with ⟨skipped, cut, still⟩
  have start : tree.start (Path.ofText path.toText) = tree.start path := by
    simp only [FileTree.start, anchor_ofText_toText proper]
  cases fault : fault? path.toText with
  | some obstacle => simp only [locate, locateText, fault]
  | none =>
      simp only [locate, locateText, fault]
      rw [start, cut, follow_skipped (isDirectory_start tree path) still]

/-- A path that leads somewhere leads to the place that it names. -/
theorem eq_resolve_of_locate (proper : path.Proper) (leads : tree.locate path = .ok place) :
    place = tree.resolve path := by
  rw [locate_eq proper] at leads
  split at leads
  · cases leads
  · exact (eq_foldl_of_follow (fun part member => (proper part member).1) leads).symm

theorem proper_ofText (text : Text) : (Path.ofText text).Proper := by
  intro part member
  rw [Path.ofText, List.mem_filter] at member
  exact ⟨member.2, Text.not_mem_of_mem_splitOn member.1⟩

theorem join_parts_sublist (text : Text) :
    (Text.join ['/'] ((Text.splitOn '/' text).filter Path.isStep)).Sublist text := by
  have shorter := Text.join_filter_sublist ['/'] Path.isStep (Text.splitOn '/' text)
  rwa [Text.join_splitOn] at shorter

theorem toText_of_anchor {path : Path} (rooted : path.anchor ≠ .relative) :
    path.toText = path.anchor.text ++ Text.join ['/'] path.parts := by
  rcases path with ⟨anchor, parts⟩
  cases anchor with
  | relative => exact absurd rfl rooted
  | root => rfl
  | doubleRoot => rfl

theorem ofSlashes_succ_ne (count : Nat) : Path.Anchor.ofSlashes (count + 1) ≠ .relative := by
  unfold Path.Anchor.ofSlashes
  split <;> simp_all

/-- A text that is read as a path gets no longer. -/
theorem toText_ofText_sublist {text : Text} (filled : text ≠ []) :
    (Path.ofText text).toText.Sublist text := by
  rcases List.exists_cons_of_ne_nil filled with ⟨c, rest, rfl⟩
  have slash (text : Text) : (Text.splitOn '/' ('/' :: text)).filter Path.isStep =
      (Text.splitOn '/' text).filter Path.isStep := by
    simp [Text.splitOn, Path.isStep]
  cases anchor : (Path.ofText (c :: rest)).anchor with
  | relative =>
      have first : c ≠ '/' := by
        rintro rfl
        simp only [Path.ofText, decide_true, List.takeWhile_cons_of_pos, List.length_cons] at anchor
        exact ofSlashes_succ_ne _ anchor
      cases parts : (Path.ofText (c :: rest)).parts with
      | nil =>
          rcases Text.exists_splitOn_eq '/' rest with ⟨piece, pieces, inner⟩
          have dot : c = '.' := by
            by_contra other
            simp [Path.ofText, Text.splitOn, first, inner, Path.isStep, other] at parts
          subst dot
          simp [Path.toText, anchor, parts]
      | cons part others =>
          have shape : (Path.ofText (c :: rest)).toText =
              Text.join ['/'] (Path.ofText (c :: rest)).parts := by
            simp [Path.toText, anchor, parts, Path.Anchor.text]
          rw [shape]
          exact join_parts_sublist (c :: rest)
  | root =>
      have first : c = '/' := by
        by_contra other
        simp [Path.ofText, other, Path.Anchor.ofSlashes] at anchor
      subst first
      rw [toText_of_anchor (by simp [anchor]), anchor, Path.ofText, slash]
      exact (join_parts_sublist rest).cons_cons '/'
  | doubleRoot =>
      have first : c = '/' := by
        by_contra other
        simp [Path.ofText, other, Path.Anchor.ofSlashes] at anchor
      subst first
      cases rest with
      | nil => cases anchor
      | cons d rest =>
          have second : d = '/' := by
            by_contra other
            simp [Path.ofText, other, Path.Anchor.ofSlashes] at anchor
          subst second
          rw [toText_of_anchor (by simp [anchor]), anchor, Path.ofText, slash, slash]
          exact ((join_parts_sublist rest).cons_cons '/').cons_cons '/'

theorem toText_ne_nil (proper : path.Proper) : path.toText ≠ [] := by
  rcases path with ⟨anchor, parts⟩
  cases anchor with
  | relative =>
      cases parts with
      | nil => simp [Path.toText]
      | cons part parts =>
          have steps := (proper part List.mem_cons_self).1
          cases part with
          | nil => simp [Path.isStep] at steps
          | cons c part => simp [Path.toText, Text.join_cons]
  | root => simp [Path.toText, Path.Anchor.text]
  | doubleRoot => simp [Path.toText, Path.Anchor.text]

theorem fault?_eq_none_iff {text : Text} :
    fault? text = none ↔
      '\x00' ∉ text ∧ (Utf8.encode text).length ≤ pathLimit ∧ text ≠ [] := by
  unfold fault?
  split
  · next null => simp [null]
  · next clean =>
      split
      · next long =>
          simp only [reduceCtorEq, false_iff, not_and]
          omega
      · next short =>
          cases text with
          | nil => simp
          | cons c text => simpa [clean] using short

/-- Reading a text as a path does not change where it leads. -/
theorem locate_ofText {text : Text} (leads : tree.locateText text = .ok place) :
    tree.locate (Path.ofText text) = .ok place := by
  rw [locateText] at leads
  split at leads
  · cases leads
  · next valid =>
      rcases fault?_eq_none_iff.1 valid with ⟨clean, short, filled⟩
      have shorter := toText_ofText_sublist filled
      have still : fault? (Path.ofText text).toText = none := by
        refine fault?_eq_none_iff.2 ⟨fun null => clean (shorter.subset null), ?_, ?_⟩
        · exact (shorter.flatMap Utf8.encodeChar).length_le.trans short
        · exact toText_ne_nil (proper_ofText text)
      rw [locate_eq (proper_ofText text), still]
      exact follow_filter leads

/-! ## Names -/

section Names

variable {names : List Text} {file : File}

/-- A text that can be the name of a file. -/
@[mk_iff]
structure IsName (name : Text) : Prop where
  /-- The name is a step of a path. -/
  isStep : Path.isStep name
  /-- The name does not lead up. -/
  notUp : name ≠ ['.', '.']
  /-- The name holds no slash. -/
  clean : '/' ∉ name
  /-- The name is not too long. -/
  short : (Utf8.encode name).length ≤ nameLimit

instance (name : Text) : Decidable (IsName name) :=
  decidable_of_iff' _ (isName_iff name)

/-- The path does not stop for want of a directory. -/
def Reaches (tree : FileTree) (path : Path) : Prop :=
  tree.locate path ≠ .error .missing ∧ tree.locate path ≠ .error .notDirectory

theorem Reaches.of_locate (leads : tree.locate path = .ok place) : tree.Reaches path := by
  simp [Reaches, leads]

theorem mem_files_of_file? (found : tree.file? place = some file) : (place, file) ∈ tree.files := by
  rcases List.lookup_eq_some_iff.1 found with ⟨before, behind, whole, -⟩
  simp [whole]

theorem follow_of_proper (proper : path.Proper) (leads : tree.locate path = .ok place) :
    tree.follow (tree.start path) path.parts = .ok place := by
  rw [locate_eq proper] at leads
  split at leads
  · cases leads
  · exact leads

/-- A path whose steps can be taken leads to its place, unless its text is too long or none of a
path. -/
theorem reaches_of_follow (proper : path.Proper)
    (leads : tree.follow (tree.start path) path.parts = .ok place) : tree.Reaches path := by
  have filled := toText_ne_nil proper
  rw [Reaches, locate_eq proper, leads]
  unfold fault?
  split_ifs <;> simp_all

/-- Everything above a file is a directory, so its names can be followed. -/
theorem follow_names (inside : (place ++ names, file) ∈ tree.files)
    (named : ∀ name ∈ names, IsName name) : tree.follow place names = .ok (place ++ names) := by
  induction names generalizing place with
  | nil => rw [follow, List.append_nil]
  | cons name names ih =>
      rw [List.forall_mem_cons] at named
      have above : tree.isDirectory place :=
        isDirectory_iff.2 (.inr (.inr (.inr ⟨_, inside, List.prefix_append _ _, by simp⟩)))
      have moves : ¬ (name.isEmpty || decide (name = ['.'])) = true := by
        simpa [Path.isStep] using named.1.isStep
      rw [follow, if_pos above, if_neg moves, if_neg named.1.notUp,
        if_neg (not_lt.2 named.1.short), ih (by simpa using inside) named.2]
      simp

end Names

/-! ## Reading at a path -/

variable {other grown : FileTree}

theorem resolve_eq (same : other.current = tree.current) (path : Path) :
    other.resolve path = tree.resolve path := by
  simp only [resolve, start, same]

theorem toOption_read (tree : FileTree) (path : Path) :
    (tree.read path).toOption =
      (tree.locate path).toOption.bind fun place =>
        if tree.isDirectory place then none else (tree.file? place).map File.content := by
  rw [read]
  cases tree.locate path with
  | error obstacle => rfl
  | ok place =>
      cases isDirectory : tree.isDirectory place with
      | true => simp [bind, Except.bind, openFile, entry, isDirectory, Except.toOption, throw,
          throwThe, MonadExceptOf.throw]
      | false =>
          cases found : tree.file? place <;>
            simp [bind, Except.bind, openFile, entry, isDirectory, found, Except.toOption, pure,
              Except.pure]

/-- What is read at a path depends on the file there, which is no directory. -/
theorem toOption_read_eq (leads : (other.locate path).toOption = (tree.locate path).toOption)
    (same : ∀ place, tree.locate path = .ok place → other.file? place = tree.file? place ∧
      (tree.file? place = none ∨ other.isDirectory place = tree.isDirectory place)) :
    (other.read path).toOption = (tree.read path).toOption := by
  rw [toOption_read, toOption_read, leads]
  cases located : tree.locate path with
  | error obstacle => rfl
  | ok place =>
      rcases same place located with ⟨file, none | directory⟩
      · simp [Except.toOption, file, none]
      · simp [Except.toOption, file, directory]

theorem SameDirectories.toOption_locate (same : SameDirectories tree other) (path : Path) :
    (other.locate path).toOption = (tree.locate path).toOption := by
  cases before : tree.locate path with
  | ok place => rw [same.toExtends.locate before]
  | error obstacle =>
      cases after : other.locate path with
      | error _ => rfl
      | ok place =>
          rw [same.symm.toExtends.locate after] at before
          cases before

theorem SameDirectories.toOption_read_eq (same : SameDirectories tree other) (proper : path.Proper)
    (file : other.file? (tree.resolve path) = tree.file? (tree.resolve path)) :
    (other.read path).toOption = (tree.read path).toOption := by
  apply FileTree.toOption_read_eq (same.toOption_locate path)
  intro place leads
  rw [eq_resolve_of_locate proper leads]
  exact ⟨file, .inr (same.isDirectory_eq _)⟩

/-- Making folders does not change what is read at a path that does not stop for want of one. -/
theorem Widens.toOption_read_eq (widens : Widens tree grown) (reaches : tree.Reaches path) :
    (grown.read path).toOption = (tree.read path).toOption := by
  apply FileTree.toOption_read_eq
  · rw [widens.toExtends.locate_eq reaches.1 reaches.2]
  · intro place leads
    refine ⟨widens.file?_eq place, ?_⟩
    by_cases isDirectory : grown.isDirectory place
    · rcases widens.isDirectory_new place isDirectory with before | free
      · exact .inr (by rw [isDirectory, before])
      · exact .inl free
    · refine .inr (Bool.eq_iff_iff.2 ⟨fun after => absurd after isDirectory, ?_⟩)
      exact widens.toExtends.isDirectory place

/-- Making folders does not change what is read at a path that only leads down: if there is a file
at its end, everything above is there already. -/
theorem Widens.toOption_read_eq_of_down (widens : Widens tree grown) (proper : path.Proper)
    (down : ['.', '.'] ∉ path.parts) :
    (grown.read path).toOption = (tree.read path).toOption := by
  by_cases reaches : tree.Reaches path
  · exact widens.toOption_read_eq reaches
  have stops : (tree.read path).toOption = none := by
    rw [toOption_read]
    cases leads : tree.locate path with
    | error obstacle => rfl
    | ok place => exact absurd (.of_locate leads) reaches
  rw [stops, toOption_read]
  cases leads : grown.locate path with
  | error obstacle => rfl
  | ok place =>
      have free : tree.file? place = none := by
        -- A file at the end of the path would show all directories above it.
        by_contra taken
        rcases Option.ne_none_iff_exists'.1 taken with ⟨file, found⟩
        have followed := follow_of_proper proper leads
        have start : grown.start path = tree.start path := by
          simp only [FileTree.start, widens.current_eq]
        rcases eq_append_of_follow
          (fun part member => ⟨(proper part member).1, fun up => down (up ▸ member)⟩) followed with
          ⟨rfl, short⟩
        have names : ∀ part ∈ path.parts, IsName part := fun part member =>
          ⟨(proper part member).1, fun up => down (up ▸ member), (proper part member).2,
            short part member⟩
        rw [start] at found
        apply reaches
        exact reaches_of_follow proper (follow_names (mem_files_of_file? found) names)
      simp [Except.toOption, widens.file?_eq, free]

end FileTree

end IdlFormat
