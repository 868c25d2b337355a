import IdlFormat.Log.Basic
import IdlFormat.Proofs.FileTree

/-!
# The file of a log

A log is opened when its first event is written: its directory is made if need be, and its path
leads to a place that is no directory (`Opens`). From then on it stays open, whatever files are
written, since that changes no directory. So all later events are appended to one file.
-/

namespace IdlFormat

namespace FileTree

/-- What the file at a place holds; nothing if there is none. -/
def contentAt (tree : FileTree) (place : Place) : Bytes :=
  ((tree.file? place).map File.content).getD []

theorem contentAt_putFile (tree : FileTree) (place : Place) (file : File) :
    (tree.putFile place file).contentAt place = file.content := by
  simp [contentAt, file?_putFile]

theorem contentAt_putFile_of_ne (tree : FileTree) {place other : Place} (apart : other ≠ place)
    (file : File) : (tree.putFile place file).contentAt other = tree.contentAt other := by
  simp [contentAt, file?_putFile, apart]

end FileTree

namespace Log

open FileTree

variable {tree other grown after : FileTree} {path : Path} {place : Place} {sink : Sink}
  {now : Float} {line : Text}

/-- The path of a log leads to a place for its file, and its directory is there. -/
structure Opens (tree : FileTree) (path : Path) (place : Place) : Prop where
  /-- The path leads to the place. -/
  leads : tree.locate path = .ok place
  /-- The place is no directory. -/
  isFile : tree.isDirectory place = false
  /-- There is no directory to be made. -/
  ready : path.parent.parts = [] ∨ tree.hasDirectory path.parent

namespace Opens

theorem parent (opens : Opens tree path place) : tree.isDirectory place.dropLast :=
  isDirectory_dropLast_of_locate opens.leads opens.isFile

theorem ensureParent (opens : Opens tree path place) : tree.ensureParent path = .ok tree := by
  apply ensureFolders_of_hasDirectory
  rcases opens.ready with none | there
  · exact .inl (by simp [none])
  · exact .inr (by simpa [Path.parent] using there)

theorem of_ensureParent (made : tree.ensureParent path = .ok grown)
    (leads : grown.locate path = .ok place) (isFile : grown.isDirectory place = false) :
    Opens grown path place := by
  rcases (widens_ensureFolders made).2 with none | there
  · exact ⟨leads, isFile, .inl (by simpa using none)⟩
  · exact ⟨leads, isFile, .inr (by simpa [Path.parent] using there)⟩

theorem of_sameDirectories (opens : Opens tree path place) (same : SameDirectories tree other) :
    Opens other path place := by
  refine ⟨same.toExtends.locate opens.leads, ?_, ?_⟩
  · rw [same.isDirectory_eq, opens.isFile]
  · rcases opens.ready with none | there
    · exact .inl none
    · rcases hasDirectory_iff.1 there with ⟨directory, leads, isDirectory⟩
      exact .inr (hasDirectory_iff.2 ⟨directory, same.toExtends.locate leads,
        same.toExtends.isDirectory directory isDirectory⟩)

end Opens

/-- The log at a path can be written to: its directory can be made if it is not there, and its file
can be opened. -/
def CanOpen (tree : FileTree) (path : Path) : Prop :=
  ∃ grown place, tree.ensureParent path = .ok grown ∧ Opens grown path place

/-- The tree after bytes were written at the end of a file. -/
def appendAt (tree : FileTree) (place : Place) (now : Float) (bytes : Bytes) : FileTree :=
  tree.putFile place ⟨tree.contentAt place ++ bytes, now⟩

theorem Opens.sameDirectories_appendAt (opens : Opens tree path place) (now : Float)
    (bytes : Bytes) : SameDirectories tree (appendAt tree place now bytes) :=
  sameDirectories_putFile opens.parent _

theorem append_of_ensureParent (made : tree.ensureParent sink.path = .ok grown)
    (opens : Opens grown sink.path place) (now : Float) (line : Text) :
    sink.append tree now line = .ok (appendAt grown place now (Utf8.encode line)) := by
  apply bind_eq_ok_iff.2
  refine ⟨grown, made, bind_eq_ok_iff.2 ⟨place, opens.leads, ?_⟩⟩
  simp only [opens.isFile]
  rfl

theorem Opens.append (opens : Opens tree sink.path place) (now : Float) (line : Text) :
    sink.append tree now line = .ok (appendAt tree place now (Utf8.encode line)) :=
  append_of_ensureParent opens.ensureParent opens now line

/-- Whatever is written to a log, its directory is made and its file appended to. -/
theorem exists_of_append (written : sink.append tree now line = .ok after) :
    ∃ grown place, tree.ensureParent sink.path = .ok grown ∧ Opens grown sink.path place ∧
      after = appendAt grown place now (Utf8.encode line) := by
  rcases bind_eq_ok_iff.1 written with ⟨grown, made, written⟩
  rcases bind_eq_ok_iff.1 written with ⟨place, leads, written⟩
  split at written
  · cases written
  · next isFile =>
      refine ⟨grown, place, made, .of_ensureParent made leads (by simpa using isFile), ?_⟩
      exact (Except.ok.inj written).symm

/-- A run drops an old log, and its sink is that of its settings. -/
theorem start_cases {settings : LogSettings} {run : Text}
    (opened : start tree now settings run = .ok (after, sink)) :
    sink = .ofSettings settings run ∧
      (settings.enabled = true ∧
          prune tree now sink.path settings.retentionDays = .ok after ∨
        settings.enabled = false ∧ after = tree) := by
  rw [start] at opened
  cases active : settings.enabled with
  | false =>
      obtain ⟨rfl, rfl⟩ : tree = after ∧ .ofSettings settings run = sink := by
        simpa [active] using opened
      exact ⟨rfl, .inr ⟨rfl, rfl⟩⟩
  | true =>
      rw [active, if_pos rfl] at opened
      cases dropped : prune tree now (Sink.ofSettings settings run).path settings.retentionDays with
      | error excess =>
          rw [dropped] at opened
          cases opened
      | ok pruned =>
          rw [dropped] at opened
          obtain ⟨rfl, rfl⟩ := Prod.mk.inj (Except.ok.inj opened)
          exact ⟨rfl, .inl ⟨rfl, dropped⟩⟩

/-! ## Events -/

section Events

variable {event : Event}

/-- The log can be written to without making a directory, if it is written to at all. -/
def Ready (sink : Sink) (tree : FileTree) : Prop :=
  sink.enabled → ∃ place, Opens tree sink.path place

theorem Ready.of_sameDirectories (ready : Ready sink tree) (same : SameDirectories tree other) :
    Ready sink other := by
  intro active
  rcases ready active with ⟨place, opens⟩
  exact ⟨place, opens.of_sameDirectories same⟩

theorem Opens.log (opens : Opens tree sink.path place) (active : sink.enabled) (now : Float)
    (event : Event) :
    sink.log tree now event =
      .ok (appendAt tree place now
        (Utf8.encode (sink.line now event.kind.toList event.data))) := by
  rw [Sink.log, if_pos active, opens.append]

theorem Ready.exists_log (ready : Ready sink tree) (now : Float) (event : Event) :
    ∃ after, sink.log tree now event = .ok after := by
  cases active : sink.enabled with
  | false => exact ⟨tree, by simp [Sink.log, active]⟩
  | true =>
      rcases ready active with ⟨place, opens⟩
      exact ⟨_, opens.log active now event⟩

/-- Logging changes no directory once the log is open. -/
theorem Ready.sameDirectories (ready : Ready sink tree)
    (logged : sink.log tree now event = .ok after) : SameDirectories tree after := by
  cases active : sink.enabled with
  | false =>
      obtain rfl : tree = after := by simpa [Sink.log, active] using logged
      exact .refl tree
  | true =>
      rcases ready active with ⟨place, opens⟩
      rw [opens.log active, Except.ok.injEq] at logged
      exact logged ▸ opens.sameDirectories_appendAt _ _

/-- The first event of a run opens the log; its directory is made before it is written to. -/
theorem exists_opens_of_log (active : sink.enabled) (logged : sink.log tree now event = .ok after) :
    ∃ grown place, tree.ensureParent sink.path = .ok grown ∧ Opens grown sink.path place ∧
      sink.log grown now event = .ok after := by
  rw [Sink.log, if_pos active] at logged
  rcases exists_of_append logged with ⟨grown, place, made, opens, rfl⟩
  exact ⟨grown, place, made, opens, opens.log active now event⟩

end Events

end Log

end IdlFormat
