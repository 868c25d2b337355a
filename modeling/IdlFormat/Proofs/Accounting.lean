import IdlFormat.Proofs.Discovery
import IdlFormat.Proofs.Invocation

/-!
# What a run does to its files

A run gives every file one outcome, which is determined by the text of the file when the run starts
(`Accounts`). Its counts and its exit code sum the outcomes up. Nothing else changes except the log
(`accounts_format`).

The files lie at different places, none of them the place of the log, and reading, logging and
writing one file touches two places at most: that of the file and that of the log. So what a run
reads from a file is what was there at the start, and what it leaves there is still there at the
end.
-/

namespace IdlFormat

namespace Terminal

theorem plain_eq_self {text : Text} (absent : '\x1b' ∉ text) : plain text = text := by
  fun_induction plain text with
  | case1 => rfl
  | case2 c rest after found ih =>
      unfold afterSequence? at found
      split at found
      · next shape =>
          rw [shape] at absent
          exact absurd List.mem_cons_self absent
      · cases found
  | case3 c rest missing ih =>
      simp only [List.mem_cons, not_or] at absent
      rw [ih absent.2]

end Terminal

namespace Log

open FileTree

variable {tree after : FileTree} {sink : Sink} {now : Float} {event : Event} {place : Place}

/-- Logging touches the place of the log only. -/
theorem Ready.file?_eq (ready : Ready sink tree) (proper : sink.path.Proper)
    (logged : sink.log tree now event = .ok after)
    (apart : sink.enabled → place ≠ tree.resolve sink.path) :
    after.file? place = tree.file? place := by
  cases active : sink.enabled with
  | false =>
      obtain rfl : tree = after := by simpa [Sink.log, active] using logged
      rfl
  | true =>
      rcases ready active with ⟨location, opens⟩
      rw [opens.log active, Except.ok.injEq] at logged
      rw [← logged, appendAt, file?_putFile, if_neg]
      rw [eq_resolve_of_locate proper opens.leads]
      exact apart active

/-- An old log is left alone or removed. -/
theorem prune_cases {path : Path} {days : Int} (pruned : prune tree now path days = .ok after) :
    after = tree ∨ ∃ place, tree.locate path = .ok place ∧ tree.isDirectory place = false ∧
      after = tree.remove place := by
  rw [prune] at pruned
  split at pruned
  · exact .inl (Except.ok.inj pruned).symm
  · next place found located =>
      rcases bind_eq_ok_iff.1 located with ⟨location, leads, entered⟩
      split at pruned
      · exact .inl (Except.ok.inj pruned).symm
      · rcases bind_eq_ok_iff.1 pruned with ⟨oldest, -, pruned⟩
        obtain rfl := Except.ok.inj pruned
        split
        · next old =>
            cases inside : tree.entry location with
            | error obstacle =>
                rw [inside] at entered
                cases entered
            | ok entry =>
                rw [inside] at entered
                obtain ⟨rfl, rfl⟩ := Prod.mk.inj (Except.ok.inj entered)
                have isFile : tree.isDirectory location = false := by
                  by_contra isDirectory
                  rw [FileTree.entry, if_pos (by simpa using isDirectory)] at inside
                  simp [← Except.ok.inj inside] at old
                exact .inr ⟨location, leads, isFile, rfl⟩
        · exact .inl rfl

/-- Opening the log of a run changes nothing but the log. -/
theorem start_frame {settings : LogSettings} {run : Text}
    (opened : start tree now settings run = .ok (after, sink)) :
    sink.path.Proper ∧ SameDirectories tree after ∧ (∀ entry ∈ after.files, entry ∈ tree.files) ∧
      ∀ place, (sink.enabled → place ≠ tree.resolve sink.path) →
        after.file? place = tree.file? place := by
  rcases start_cases opened with ⟨rfl, pruned⟩
  have proper : Path.Proper (Sink.ofSettings settings run).path := proper_ofText _
  refine ⟨proper, ?_⟩
  rcases pruned with ⟨active, pruned⟩ | ⟨-, rfl⟩
  · rcases prune_cases pruned with rfl | ⟨place, leads, isFile, rfl⟩
    · exact ⟨.refl _, fun _ member => member, fun _ _ => rfl⟩
    · refine ⟨sameDirectories_remove (isDirectory_dropLast_of_locate leads isFile),
        fun entry member => (List.mem_filter.1 member).1, ?_⟩
      intro location apart
      apply file?_remove
      rw [eq_resolve_of_locate proper leads]
      exact apart active
  · exact ⟨.refl _, fun _ member => member, fun _ _ => rfl⟩

/-- The directory of the log is made, if there is a log. -/
def Makes (sink : Sink) (tree grown : FileTree) : Prop :=
  if sink.enabled then tree.ensureParent sink.path = .ok grown else grown = tree

theorem Makes.widens {grown : FileTree} (makes : Makes sink tree grown) : Widens tree grown := by
  unfold Makes at makes
  split at makes
  · exact (widens_ensureFolders makes).1
  · subst makes
    exact .refl grown

/-- The first event of a run opens its log: it may make the directory of the log, and touches no
file but the log. -/
structure Opening (sink : Sink) (tree after : FileTree) : Prop where
  /-- The log can be written to. -/
  ready : Ready sink after
  /-- The directory of the log was made. -/
  folders : ∃ grown, Makes sink tree grown ∧ SameDirectories grown after
  /-- The other files are as they were. -/
  file?_eq : ∀ place, (sink.enabled → place ≠ tree.resolve sink.path) →
    after.file? place = tree.file? place

namespace Opening

theorem exists_log (proper : sink.path.Proper) (canOpen : sink.enabled → CanOpen tree sink.path)
    (now : Float) (event : Event) :
    ∃ after, sink.log tree now event = .ok after ∧ Opening sink tree after := by
  cases active : sink.enabled with
  | false =>
      refine ⟨tree, by simp [Sink.log, active], fun on => ?_, ⟨tree, ?_, .refl tree⟩,
        fun _ _ => rfl⟩
      · simp [active] at on
      · simp [Makes, active]
  | true =>
      rcases canOpen active with ⟨grown, place, made, opens⟩
      have ready : Ready sink grown := fun _ => ⟨place, opens⟩
      have widens := (widens_ensureFolders made).1
      rcases ready.exists_log now event with ⟨after, logged⟩
      have same := ready.sameDirectories logged
      refine ⟨after, ?_, ready.of_sameDirectories same, ⟨grown, ?_, same⟩, ?_⟩
      · rw [opens.log active] at logged
        rw [Sink.log, if_pos active, append_of_ensureParent made opens, logged]
      · simpa [Makes, active] using made
      · intro location apart
        rw [ready.file?_eq proper logged, widens.file?_eq]
        rwa [resolve_eq widens.current_eq]

theorem current_eq (opening : Opening sink tree after) : after.current = tree.current := by
  rcases opening.folders with ⟨grown, makes, same⟩
  rw [same.current_eq, makes.widens.current_eq]

/-- What is read from a file of the run does not change. -/
theorem toOption_read_eq (opening : Opening sink tree after) {path : Path} (proper : path.Proper)
    (reaches : tree.Reaches path)
    (apart : sink.enabled → tree.resolve path ≠ tree.resolve sink.path) :
    (after.read path).toOption = (tree.read path).toOption := by
  rcases opening.folders with ⟨grown, makes, same⟩
  rw [← makes.widens.toOption_read_eq reaches]
  apply same.toOption_read_eq proper
  rw [resolve_eq makes.widens.current_eq, makes.widens.file?_eq]
  exact opening.file?_eq _ apart

end Opening

end Log

namespace Command

namespace Run

open FileTree Log

/-! ## One file -/

/-- What becomes of a file, given its text if it has one: the file before and after the run, and the
outcome. -/
inductive Treated (run : Run) (path : Path) :
    Option Text → Option File → Option File → Outcome → Prop
  /-- A file that cannot be read stays as it is, and counts as failed. -/
  | unread (file : Option File) : Treated run path none file file .failed
  /-- A text that is shown, or does not change, is not written. -/
  | kept {given formatted : Text} (formats : Document.format run.style given = .ok formatted)
      (settled : run.call.toOutput ∨ formatted = given) (file : Option File) :
      Treated run path (some given) file file .kept
  /-- A change that is not to be saved is counted. -/
  | reported {given formatted : Text} (formats : Document.format run.style given = .ok formatted)
      (silent : run.call.toOutput = false) (changes : formatted ≠ given) (reports : ¬ run.Saves)
      (file : Option File) : Treated run path (some given) file file .changed
  /-- A file that may not be written stays as it is, and counts as failed. -/
  | unwritten {given formatted : Text} (formats : Document.format run.style given = .ok formatted)
      (silent : run.call.toOutput = false) (changes : formatted ≠ given) (saves : run.Saves)
      (denied : path.toText ∈ run.surroundings.unwritable) (file : Option File) :
      Treated run path (some given) file file .failed
  /-- A change that is saved gives the file its formatted text. -/
  | written {given formatted : Text} (formats : Document.format run.style given = .ok formatted)
      (silent : run.call.toOutput = false) (changes : formatted ≠ given) (saves : run.Saves)
      (allowed : path.toText ∉ run.surroundings.unwritable) (file : Option File) :
      Treated run path (some given) file
        (some ⟨Utf8.encode formatted, run.surroundings.now⟩) .changed

/-- What a run made of a file, by the trees before and after it. -/
def Accounts (run : Run) (before after : FileTree) (path : Path) (outcome : Outcome) : Prop :=
  Treated run path (run.readFile before path).toOption (before.file? (before.resolve path))
    (after.file? (before.resolve path)) outcome

variable {run : Run} {path : Path} {tree after other : FileTree} {outcome : Outcome}
  {report : List Event}

theorem toOption_readFile (run : Run) (tree : FileTree) (path : Path) :
    (run.readFile tree path).toOption =
      if path.toText ∈ run.surroundings.unreadable then none
      else (tree.read path).toOption.bind fun bytes => (Utf8.decode bytes).toOption := by
  rw [readFile]
  simp only
  split
  · rfl
  · cases tree.read path with
    | error obstacle => rfl
    | ok bytes => cases shape : Utf8.decode bytes <;>
        simp [Except.mapError, bind, Except.bind, shape, Except.toOption]

theorem toOption_readFile_eq (run : Run)
    (same : (other.read path).toOption = (tree.read path).toOption) :
    (run.readFile other path).toOption = (run.readFile tree path).toOption := by
  rw [toOption_readFile, toOption_readFile, same]

/-- A file that was read is found at its path. -/
theorem exists_of_readFile {given : Text} (read : run.readFile tree path = .ok given) :
    ∃ place, tree.locate path = .ok place ∧ tree.isDirectory place = false := by
  have readable := congrArg Except.toOption read
  rw [toOption_readFile] at readable
  split at readable
  · cases readable
  · rcases Option.bind_eq_some_iff.1 readable with ⟨bytes, opened, -⟩
    rw [toOption_read] at opened
    rcases Option.bind_eq_some_iff.1 opened with ⟨place, located, opened⟩
    split at opened
    · cases opened
    · next isFile =>
        exact ⟨place, toOption_eq_some_iff.1 located, by simpa using isFile⟩

theorem mem_unwritable_of_writeFile {formatted message : Text} {place : Place}
    (leads : tree.locate path = .ok place) (isFile : tree.isDirectory place = false)
    (unwritten : run.writeFile tree path formatted = .error message) :
    path.toText ∈ run.surroundings.unwritable := by
  rw [writeFile] at unwritten
  simp only at unwritten
  split at unwritten
  · next denied => exact denied
  · simp [FileTree.write, FileTree.update, leads, isFile, bind, Except.bind, pure, Except.pure,
      Except.mapError] at unwritten

theorem not_mem_unwritable_of_writeFile {formatted : Text}
    (written : run.writeFile tree path formatted = .ok after) :
    path.toText ∉ run.surroundings.unwritable := by
  intro denied
  simp [writeFile, denied, throw, throwThe, MonadExceptOf.throw, bind, Except.bind] at written

/-- The files of a run lie at different places, none of which is that of its log; and the log can be
written to. -/
structure Separate (run : Run) (tree : FileTree) (paths : List Path) : Prop where
  /-- The log can be written to. -/
  ready : Ready run.sink tree
  /-- The path of the log is proper. -/
  logProper : run.sink.path.Proper
  /-- The paths of the files are proper. -/
  proper : ∀ path ∈ paths, path.Proper
  /-- Each file is there once. -/
  once : (paths.map tree.resolve).Nodup
  /-- The log is none of the files. -/
  apart : run.sink.enabled → tree.resolve run.sink.path ∉ paths.map tree.resolve

namespace Separate

variable {paths : List Path}

theorem tail (separate : Separate run tree (path :: paths)) (same : SameDirectories tree other) :
    Separate run other paths := by
  have resolves := resolve_eq same.current_eq
  have unmoved : paths.map other.resolve = paths.map tree.resolve :=
    List.map_congr_left fun path _ => resolves path
  have once := separate.once
  have apart := separate.apart
  rw [List.map_cons, List.nodup_cons] at once
  simp only [List.map_cons, List.mem_cons, not_or] at apart
  refine ⟨separate.ready.of_sameDirectories same, separate.logProper,
    (List.forall_mem_cons.1 separate.proper).2, ?_, ?_⟩
  · rw [unmoved]
    exact once.2
  · rw [unmoved, resolves]
    exact fun active => (apart active).2

theorem head_not_mem (separate : Separate run tree (path :: paths)) :
    tree.resolve path ∉ paths.map tree.resolve :=
  (List.nodup_cons.1 separate.once).1

theorem ne_log (separate : Separate run tree paths) {path : Path} (member : path ∈ paths) :
    run.sink.enabled → tree.resolve path ≠ tree.resolve run.sink.path := by
  intro active same
  exact separate.apart active (same ▸ List.mem_map_of_mem member)

end Separate

/-- One file is treated by its text, and no other place is touched except that of the log. -/
theorem FileStep.accounts {paths : List Path}
    (step : FileStep run path tree outcome report after)
    (separate : Separate run tree (path :: paths)) :
    Accounts run tree after path outcome ∧
      ∀ place, place ≠ tree.resolve path →
        (run.sink.enabled → place ≠ tree.resolve run.sink.path) →
        after.file? place = tree.file? place := by
  have ready := separate.ready
  have logProper := separate.logProper
  have apart := separate.ne_log List.mem_cons_self
  have proper := separate.proper path List.mem_cons_self
  rw [Accounts]
  cases step with
  | unread unread logged =>
      have file := ready.file?_eq logProper logged apart
      rw [unread, file]
      exact ⟨.unread _, fun place _ => ready.file?_eq logProper logged⟩
  | kept read formats settled logged =>
      have file := ready.file?_eq logProper logged apart
      rw [read, file]
      exact ⟨.kept formats settled _, fun place _ => ready.file?_eq logProper logged⟩
  | reported read formats silent changes reports logged =>
      have file := ready.file?_eq logProper logged apart
      rw [read, file]
      exact ⟨.reported formats silent changes reports _,
        fun place _ => ready.file?_eq logProper logged⟩
  | @unwritten _ _ _ between _ read formats silent changes saves logged unwritten noted =>
      have same := ready.sameDirectories logged
      have later := ready.of_sameDirectories same
      have frame (place : Place)
          (elsewhere : run.sink.enabled → place ≠ tree.resolve run.sink.path) :
          after.file? place = tree.file? place := by
        rw [later.file?_eq logProper noted, ready.file?_eq logProper logged elsewhere]
        rwa [resolve_eq same.current_eq]
      -- The file was read at its path, so only a lack of permission keeps it from being written.
      rcases exists_of_readFile read with ⟨place, leads, isFile⟩
      have denied := mem_unwritable_of_writeFile (same.toExtends.locate leads)
        (by rw [same.isDirectory_eq, isFile]) unwritten
      rw [read, frame _ apart]
      exact ⟨.unwritten formats silent changes saves denied _, fun place _ => frame place⟩
  | @written _ _ between _ read formats silent changes saves logged written =>
      have same := ready.sameDirectories logged
      rcases exists_of_writeFile written with ⟨place, leads, -, rfl⟩
      have own : place = tree.resolve path := by
        rw [eq_resolve_of_locate proper leads, resolve_eq same.current_eq]
      subst own
      rw [read, file?_putFile, if_pos rfl]
      refine ⟨.written formats silent changes saves (not_mem_unwritable_of_writeFile written) _, ?_⟩
      intro place other elsewhere
      rw [file?_putFile, if_neg other, ready.file?_eq logProper logged elsewhere]

/-! ## All files -/

section Files

variable {paths : List Path} {outcomes : List Outcome} {reports : List (List Event)}

/-- What a run made of a file is the same by other trees in which the file is the same. -/
theorem Accounts.of_eq (accounts : Accounts run tree after path outcome)
    {early late : FileTree} (current : early.current = tree.current)
    (read : (tree.read path).toOption = (early.read path).toOption)
    (before : tree.file? (tree.resolve path) = early.file? (tree.resolve path))
    (later : after.file? (tree.resolve path) = late.file? (tree.resolve path)) :
    Accounts run early late path outcome := by
  rw [Accounts, toOption_readFile_eq run read, before, later] at accounts
  rwa [Accounts, resolve_eq current]

/-- The same for all files of a run. -/
theorem forall₂_accounts_of_eq (accounts : List.Forall₂ (Accounts run tree after) paths outcomes)
    {early late : FileTree} (current : early.current = tree.current)
    (same : ∀ path ∈ paths, (tree.read path).toOption = (early.read path).toOption ∧
      tree.file? (tree.resolve path) = early.file? (tree.resolve path) ∧
      after.file? (tree.resolve path) = late.file? (tree.resolve path)) :
    List.Forall₂ (Accounts run early late) paths outcomes := by
  refine ((List.forall₂_and_left paths outcomes).2 ⟨same, accounts⟩).imp ?_
  rintro path outcome ⟨⟨read, before, later⟩, accounts⟩
  exact accounts.of_eq current read before later

/-- What is read from the other files does not change when one file is treated. -/
theorem FileStep.others_unchanged (step : FileStep run path tree outcome report after)
    (separate : Separate run tree (path :: paths)) {path : Path} (member : path ∈ paths) :
    after.file? (tree.resolve path) = tree.file? (tree.resolve path) ∧
      (after.read path).toOption = (tree.read path).toOption := by
  have file : after.file? (tree.resolve path) = tree.file? (tree.resolve path) := by
    apply (step.accounts separate).2
    · intro same
      exact separate.head_not_mem (same ▸ List.mem_map_of_mem member)
    · exact separate.ne_log (List.mem_cons_of_mem _ member)
  have proper := separate.proper path (List.mem_cons_of_mem _ member)
  exact ⟨file, (step.sameDirectories separate.ready).toOption_read_eq proper file⟩

/-- Files at different places are treated by their texts at the start. -/
theorem FileSteps.accounts (steps : FileSteps run tree paths outcomes reports after)
    (separate : Separate run tree paths) :
    List.Forall₂ (Accounts run tree after) paths outcomes ∧
      ∀ place ∉ paths.map tree.resolve,
        (run.sink.enabled → place ≠ tree.resolve run.sink.path) →
        after.file? place = tree.file? place := by
  induction steps with
  | nil => exact ⟨.nil, fun _ _ _ => rfl⟩
  | @cons tree between after path paths outcome outcomes report reports step steps ih =>
      have same := step.sameDirectories separate.ready
      have resolves := resolve_eq same.current_eq
      have unmoved : paths.map between.resolve = paths.map tree.resolve :=
        List.map_congr_left fun path _ => resolves path
      rcases step.accounts separate with ⟨own, frame⟩
      rcases ih (separate.tail same) with ⟨others, frames⟩
      rw [unmoved, resolves] at frames
      -- The later steps leave the first file alone, and the first step leaves theirs alone.
      refine ⟨.cons ?_ ?_, ?_⟩
      · refine own.of_eq rfl rfl rfl (frames _ separate.head_not_mem ?_).symm
        exact separate.ne_log List.mem_cons_self
      · apply forall₂_accounts_of_eq others same.current_eq.symm
        intro path member
        rcases step.others_unchanged separate member with ⟨file, read⟩
        rw [resolves]
        exact ⟨read, file, rfl⟩
      · intro place elsewhere notLog
        simp only [List.map_cons, List.mem_cons, not_or] at elsewhere
        rw [frames place elsewhere.2 notLog, frame place elsewhere.1 notLog]

end Files

/-! ## A run comes to its end -/

section Ends

variable {workspace : Workspace}

theorem exists_returns_failFile (ready : Ready run.sink workspace.tree) (stage : String)
    (path : Path) (message : Text) :
    ∃ outcome later, (run.failFile stage path message).Returns workspace outcome later := by
  rcases ready.exists_log run.surroundings.now (.fileFailed path stage.toList message) with
    ⟨tree, logged⟩
  exact ⟨_, _, returns_failFile_iff.2 ⟨rfl, tree, logged, rfl⟩⟩

theorem exists_returns_saveFile (ready : Ready run.sink workspace.tree) (path : Path)
    (formatted : Text) :
    ∃ outcome later, (run.saveFile path formatted).Returns workspace outcome later := by
  unfold saveFile
  split
  · exact ⟨_, _, rfl⟩
  · split
    · apply Session.exists_returns_bind (Session.returns_tree_iff.2 ⟨rfl, rfl⟩)
      split
      · exact exists_returns_failFile ready "write" path _
      · exact ⟨_, _, rfl⟩
    · exact ⟨_, _, rfl⟩

theorem exists_returns_formatFile (ready : Ready run.sink workspace.tree)
    (formats : ∀ given, run.readFile workspace.tree path = .ok given →
      ∃ formatted, Document.format run.style given = .ok formatted) :
    ∃ outcome later, (run.formatFile path).Returns workspace outcome later := by
  rw [formatFile]
  apply Session.exists_returns_bind (Session.returns_tree_iff.2 ⟨rfl, rfl⟩)
  split
  · exact exists_returns_failFile ready "read" path _
  · next given read =>
      rcases formats given read with ⟨formatted, gives⟩
      apply Session.exists_returns_bind (Session.returns_orCrash_iff.2 ⟨gives, rfl⟩)
      rcases ready.exists_log run.surroundings.now (run.formattedEvent path given formatted) with
        ⟨tree, logged⟩
      apply Session.exists_returns_bind (returns_log_iff.2 ⟨tree, logged, rfl⟩)
      have later := ready.of_sameDirectories (ready.sameDirectories logged)
      split
      · exact ⟨_, _, rfl⟩
      · split
        · exact ⟨_, _, rfl⟩
        · simp only
          split
          · apply Session.exists_returns_bind (Session.returns_write_iff.2 rfl)
            exact exists_returns_saveFile later path formatted
          · exact exists_returns_saveFile later path formatted

/-- A run whose files are separate, and whose texts can be formatted, treats all of them. -/
theorem exists_returns_formatFiles {paths : List Path}
    (separate : Separate run workspace.tree paths)
    (formats : ∀ path ∈ paths, ∀ given, run.readFile workspace.tree path = .ok given →
      ∃ formatted, Document.format run.style given = .ok formatted) :
    ∃ outcomes later, (run.formatFiles paths).Returns workspace outcomes later := by
  induction paths generalizing workspace with
  | nil => exact ⟨_, _, rfl⟩
  | cons path paths ih =>
      rw [List.forall_mem_cons] at formats
      rcases exists_returns_formatFile separate.ready formats.1 with ⟨outcome, between, first⟩
      rcases fileStep_of_returns first with ⟨report, step⟩
      have others : ∃ outcomes later, (run.formatFiles paths).Returns between outcomes later := by
        apply ih (separate.tail (step.sameDirectories separate.ready))
        intro other member given read
        apply formats.2 other member given
        have unchanged := toOption_readFile_eq run (step.others_unchanged separate member).2
        rw [read] at unchanged
        exact toOption_eq_some_iff.1 unchanged.symm
      rcases others with ⟨outcomes, later, rest⟩
      apply Session.exists_returns_bind first
      exact Session.exists_returns_bind rest ⟨_, _, rfl⟩

end Ends

/-! ## Sums -/

theorem count_add_count (outcomes : List Outcome) :
    outcomes.count .changed + outcomes.count .kept + outcomes.count .failed = outcomes.length := by
  induction outcomes with
  | nil => rfl
  | cons outcome outcomes ih =>
      cases outcome <;> simp [← ih] <;> omega

theorem ending_eq (call : FormatCall) (outcomes : List Outcome) :
    ending call outcomes =
      if .failed ∈ outcomes then .error (.exit 2)
      else if call.check ∧ .changed ∈ outcomes then .error (.exit 1)
      else .ok () := by
  unfold ending exitCode
  by_cases failed : .failed ∈ outcomes
  · simp [failed]
  · by_cases changed : call.check ∧ .changed ∈ outcomes
    · simp [failed, changed]
    · simp only [failed, changed, Bool.and_eq_true, decide_eq_true_eq, if_false]
      rfl

theorem plain_summary (call : FormatCall) (outcomes : List Outcome) :
    Terminal.plain (summary call outcomes ++ ['\n']) = summary call outcomes ++ ['\n'] := by
  apply Terminal.plain_eq_self
  have digits (count : Nat) : '\x1b' ∉ Text.ofNat count := by
    intro member
    have digit := Mask.isDigit_of_mem_ofNat member
    simp at digit
  unfold summary
  split <;> simp [digits]

/-! ## The whole run -/

/-- A run has logged its start, and its files are as they were before: they can be read as in the
first tree, and the log has a place of its own. -/
structure Begins (run : Run) (tree started : FileTree) (files : List Path) : Prop where
  /-- The working directory is the same. -/
  current_eq : started.current = tree.current
  /-- The files and the log lie apart. -/
  separate : Separate run started files
  /-- All files but the log are the same. -/
  file?_eq : ∀ place, (run.sink.enabled → place ≠ tree.resolve run.sink.path) →
    started.file? place = tree.file? place
  /-- The same is read from the files of the run. -/
  read_eq : ∀ path ∈ files, (started.read path).toOption = (tree.read path).toOption

namespace Begins

variable {files : List Path} {pruned started : FileTree} {workspace : Workspace}

theorem of_opening (logProper : run.sink.path.Proper) (same : SameDirectories tree pruned)
    (others : ∀ place, (run.sink.enabled → place ≠ tree.resolve run.sink.path) →
      pruned.file? place = tree.file? place)
    (opening : Opening run.sink pruned started)
    (reached : ∀ path ∈ files, path.Proper ∧ pruned.Reaches path)
    (once : (files.map pruned.resolve).Nodup)
    (apart : run.sink.enabled → tree.resolve run.sink.path ∉ files.map tree.resolve) :
    Begins run tree started files := by
  have resolves := resolve_eq same.current_eq
  have moves := resolve_eq (opening.current_eq.trans same.current_eq)
  have places : files.map started.resolve = files.map tree.resolve :=
    List.map_congr_left fun path _ => moves path
  refine ⟨opening.current_eq.trans same.current_eq, ?_, ?_, ?_⟩
  · refine ⟨opening.ready, logProper, fun path member => (reached path member).1, ?_, ?_⟩
    · rw [places, ← List.map_congr_left fun path _ => resolves path]
      exact once
    · rw [places, moves]
      exact apart
  · intro place elsewhere
    rw [opening.file?_eq place (by rwa [resolves]), others place elsewhere]
  · intro path member
    rcases reached path member with ⟨proper, reaches⟩
    have elsewhere : run.sink.enabled → tree.resolve path ≠ tree.resolve run.sink.path := by
      intro active equal
      exact apart active (equal ▸ List.mem_map_of_mem member)
    -- Dropping an old log leaves the directories alone, so only making new ones needs `Reaches`.
    rw [opening.toOption_read_eq proper reaches (by rwa [resolves, resolves])]
    exact same.toOption_read_eq proper (others _ elsewhere)

/-- A run that has begun comes to its end and accounts for its files by the tree before it. -/
theorem exists_result (begins : Begins run tree started files)
    (start : run.sink.log workspace.tree run.surroundings.now
      (.runStarted run.call.paths files.length run.call.mode) = .ok started)
    (formats : ∀ path ∈ files, ∀ given, run.readFile tree path = .ok given →
      ∃ formatted, Document.format run.style given = .ok formatted) :
    ∃ outcomes later,
      (run.complete files).result workspace = (ending run.call outcomes, later) ∧
      List.Forall₂ (Accounts run tree later.tree) files outcomes ∧
      (∀ place ∉ files.map tree.resolve,
        (run.sink.enabled → place ≠ tree.resolve run.sink.path) →
        later.tree.file? place = tree.file? place) ∧
      SameDirectories started later.tree ∧
      (run.call.toOutput = false → ∃ before,
        later.errors = before ++ summary run.call outcomes ++ ['\n']) := by
  have separate := begins.separate
  have moves := resolve_eq begins.current_eq
  have places : files.map started.resolve = files.map tree.resolve :=
    List.map_congr_left fun path _ => moves path
  have formatted : ∀ path ∈ files, ∀ given, run.readFile started path = .ok given →
      ∃ formatted, Document.format run.style given = .ok formatted := by
    intro path member given readable
    apply formats path member given
    have unchanged := toOption_readFile_eq run (begins.read_eq path member)
    rw [readable] at unchanged
    exact toOption_eq_some_iff.1 unchanged.symm
  rcases @exists_returns_formatFiles run { workspace with tree := started } files separate
    formatted with ⟨outcomes, between, treat⟩
  rcases fileSteps_of_returns treat with ⟨reports, steps⟩
  rcases steps.accounts separate with ⟨accounts, frame⟩
  have middle := steps.sameDirectories separate.ready
  have ready := separate.ready.of_sameDirectories middle
  rcases ready.exists_log run.surroundings.now (.runCompleted files.length
    (outcomes.count .changed) (outcomes.count .failed)) with ⟨ended, stop⟩
  rcases exists_result_complete start treat stop with ⟨later, ran, rfl, printed⟩
  have final (place : Place) (elsewhere : run.sink.enabled → place ≠ tree.resolve run.sink.path) :
      later.tree.file? place = between.tree.file? place := by
    apply ready.file?_eq separate.logProper stop
    rwa [resolve_eq middle.current_eq, moves]
  refine ⟨outcomes, later, ran, ?_, ?_, middle.trans (ready.sameDirectories stop), ?_⟩
  · apply forall₂_accounts_of_eq accounts begins.current_eq.symm
    intro path member
    have elsewhere := separate.ne_log member
    rw [moves, moves] at elsewhere
    rw [moves]
    exact ⟨begins.read_eq path member, begins.file?_eq _ elsewhere, (final _ elsewhere).symm⟩
  · intro place elsewhere notLog
    rw [final place notLog, frame place (by rwa [places]) (by rwa [moves]),
      begins.file?_eq place notLog]
  · intro silent
    exact ⟨between.errors, by rw [printed silent, plain_summary, List.append_assoc]⟩

end Begins

end Run

open FileTree Log

/-- There is a path to each file that a run finds. -/
theorem reaches_of_start {surroundings : Surroundings} {call : FormatCall} {config : Config}
    {workspace : Workspace} {run : Text} {pruned : FileTree} {sink : Sink} {files : List Path}
    (named : workspace.tree.Named)
    (leads : ∀ text ∈ call.paths, ∃ place, workspace.tree.locateText text = .ok place)
    (opened : Log.start workspace.tree surroundings.now config.log run = .ok (pruned, sink))
    (found : Discovery.discover config.filter pruned (call.paths.map Path.ofText) = .ok files) :
    ∀ path ∈ files, path.Proper ∧ pruned.Reaches path := by
  rcases start_frame opened with ⟨-, same, kept, -⟩
  have located : ∀ path ∈ call.paths.map Path.ofText,
      path.Proper ∧ ∃ place, pruned.locate path = .ok place := by
    intro path member
    rcases List.mem_map.1 member with ⟨text, given, rfl⟩
    rcases leads text given with ⟨place, leads⟩
    exact ⟨proper_ofText text, place, same.toExtends.locate (locate_ofText leads)⟩
  exact Discovery.reaches_of_discover (fun entry member => named entry (kept entry member)) located
    found

/-- A call that is taken, and names no standard input, is a run on its paths. -/
theorem result_format {surroundings : Surroundings} {texts : List Text} {call : FormatCall}
    {config : Config} {workspace : Workspace}
    (taken : ((readFormatCall texts).result workspace).1 = .ok call)
    (loaded : ((loadConfig surroundings call.config).result workspace).1 = .ok config)
    (noInput : ['-'] ∉ call.paths) :
    (format surroundings texts).result workspace =
      (formatPaths surroundings call config).result workspace := by
  have reads : (readFormatCall texts).Returns workspace call _ := Prod.ext taken rfl
  have loads : (loadConfig surroundings call.config).Returns workspace config _ :=
    Prod.ext loaded rfl
  rw [← (located_of_readFormatCall reads).1, Session.Returns] at reads
  rw [← keeps_loadConfig _ _ _ loads, Session.Returns] at loads
  simp only [format, Session.result_bind, reads, loads, if_neg noInput]

/-- A run on paths gives each of its files one outcome and touches nothing else but its log. The
outcomes determine what it prints in the end and its exit code. -/
theorem accounts_format {surroundings : Surroundings} {texts : List Text} {call : FormatCall}
    {config : Config} {workspace : Workspace} {pruned : FileTree} {sink : Sink} {files : List Path}
    (named : workspace.tree.Named)
    (taken : ((readFormatCall texts).result workspace).1 = .ok call)
    (loaded : ((loadConfig surroundings call.config).result workspace).1 = .ok config)
    (noInput : ['-'] ∉ call.paths)
    (opened : Log.start workspace.tree surroundings.now config.log
      (Log.runName (workspace.runs + 1)) = .ok (pruned, sink))
    (found : Discovery.discover config.filter pruned (call.paths.map Path.ofText) = .ok files)
    (filled : files ≠ []) (single : call.toOutput → files.length = 1)
    (canOpen : sink.enabled → CanOpen pruned sink.path)
    (apart : sink.enabled →
      workspace.tree.resolve sink.path ∉ files.map workspace.tree.resolve)
    (formats : ∀ path ∈ files, ∀ given,
      Run.readFile ⟨call, call.style config, sink, surroundings⟩ workspace.tree path = .ok given →
      ∃ formatted, Document.format (call.style config) given = .ok formatted) :
    ∃ outcomes later,
      (format surroundings texts).result workspace =
        (if .failed ∈ outcomes then .error (.exit 2)
          else if call.check ∧ .changed ∈ outcomes then .error (.exit 1)
          else .ok (), later) ∧
      List.Forall₂
        (Run.Accounts ⟨call, call.style config, sink, surroundings⟩ workspace.tree later.tree)
        files outcomes ∧
      outcomes.count .changed + outcomes.count .kept + outcomes.count .failed = files.length ∧
      (call.toOutput = false → ∃ before,
        later.errors = before ++ Run.summary call outcomes ++ ['\n']) ∧
      (∀ place ∉ files.map workspace.tree.resolve,
        (sink.enabled → place ≠ workspace.tree.resolve sink.path) →
        later.tree.file? place = workspace.tree.file? place) ∧
      ∃ grown, Makes sink pruned grown ∧ SameDirectories grown later.tree := by
  have leads : ∀ text ∈ call.paths, ∃ place, workspace.tree.locateText text = .ok place := by
    intro text member
    have reads : (readFormatCall texts).Returns workspace call _ := Prod.ext taken rfl
    exact (located_of_readFormatCall reads).2 text member fun dash => noInput (dash ▸ member)
  rcases start_frame opened with ⟨logProper, same, -, others⟩
  rcases Opening.exists_log logProper canOpen surroundings.now
    (.runStarted call.paths files.length call.mode) with ⟨started, start, opening⟩
  have begins : Run.Begins ⟨call, call.style config, sink, surroundings⟩ workspace.tree started
      files :=
    .of_opening logProper same others opening (reaches_of_start named leads opened found)
      (Discovery.nodup_resolve_discover found) apart
  rcases @Run.Begins.exists_result _ _ _ _
    { workspace with tree := pruned, runs := workspace.runs + 1 } begins start formats with
    ⟨outcomes, later, ran, accounts, frame, last, printed⟩
  rcases opening.folders with ⟨grown, makes, first⟩
  refine ⟨outcomes, later, ?_, accounts, ?_, printed, frame, grown, makes, first.trans last⟩
  · rw [result_format taken loaded noInput, result_formatPaths opened found filled single, ran,
      Run.ending_eq]
  · rw [Run.count_add_count, accounts.length_eq]

/-- The arguments of the call that formats the two files. -/
def mixedTexts : List Text :=
  "--in-place".toList :: mixedCall.paths

theorem exists_format_mixedFiles (path : Path) (member : path ∈ mixedPaths) (given : Text)
    (read : mixedRun.readFile mixedFiles.tree path = .ok given) :
    ∃ formatted, Document.format mixedRun.style given = .ok formatted := by
  simp only [mixedPaths, mixedCall, List.map_cons, List.map_nil, List.mem_cons, List.not_mem_nil,
    or_false] at member
  rcases member with rfl | rfl
  · obtain rfl : "x ;".toList = given := Except.ok.inj read
    exact ⟨"x;\n".toList, by decide +kernel⟩
  · cases read

theorem accounts_format_mixedFiles :
    ∃ outcomes later,
      (format early mixedTexts).result mixedFiles =
        (if .failed ∈ outcomes then .error (.exit 2) else .ok (), later) ∧
      List.Forall₂ (mixedRun.Accounts mixedFiles.tree later.tree) mixedPaths outcomes ∧
      outcomes.count .changed + outcomes.count .kept + outcomes.count .failed = 2 ∧
      (∃ before, later.errors = before ++ Run.summary mixedCall outcomes ++ ['\n']) ∧
      (∀ place ∉ mixedPaths.map mixedFiles.tree.resolve,
        place ≠ mixedFiles.tree.resolve firstSink.path →
        later.tree.file? place = mixedFiles.tree.file? place) ∧
      SameDirectories mixedFiles.tree later.tree := by
  have taken : ((readFormatCall mixedTexts).result mixedFiles).1 = .ok mixedCall := rfl
  have loaded : ((loadConfig early none).result mixedFiles).1 = .ok loggedConfig := rfl
  have canOpen : CanOpen mixedFiles.tree firstSink.path := by
    refine ⟨mixedFiles.tree, ["log".toList], rfl, ?_, ?_, ?_⟩ <;> decide +kernel
  rcases accounts_format (by decide +kernel) taken loaded (by decide) start_mixedFiles
    discover_mixedFiles (by decide) (by decide) (fun _ => canOpen) (by decide +kernel)
    exists_format_mixedFiles with
    ⟨outcomes, later, ran, accounts, sums, printed, frame, grown, makes, same⟩
  obtain rfl : mixedFiles.tree = grown := Except.ok.inj makes
  refine ⟨outcomes, later, by simpa [mixedCall] using ran, accounts, sums, printed rfl, ?_, same⟩
  exact fun place elsewhere notLog => frame place elsewhere fun _ => notLog

end Command

end IdlFormat
