import IdlFormat.Proofs.FormatRun

/-!
# The log of a run

A run that does not break off leaves its whole course in the log (`log_formatPaths`): that it
started, one report for each file in the order of the files, and that it completed, each on a line
of its own and all under the name of the run. The numbers at the end agree with the reports, except
that a run which shows the formatted text counts no file as changed.

The run must not write to its own log, which it would do if the log were one of the files that it
formats in place.
-/

namespace IdlFormat

namespace Event

/-- The text of a file changed. -/
def isChange : Event → Bool
  | .fileFormatted _ changed _ _ _ => changed
  | _ => false

/-- A file could not be read or written. -/
def isFailure : Event → Bool
  | .fileFailed .. => true
  | _ => false

/-- What is reported on a file: that it could not be read, or that it was formatted and maybe that
it could not be written. -/
inductive Report (path : Path) : List Event → Prop
  /-- The file was not read. -/
  | unread (message : Text) : Report path [.fileFailed path "read".toList message]
  /-- The file was formatted. -/
  | formatted (changed : Bool) (inputBytes outputBytes : Nat) (duration : Float) :
      Report path [.fileFormatted path changed inputBytes outputBytes duration]
  /-- The file was formatted, but not written. -/
  | unwritten (changed : Bool) (inputBytes outputBytes : Nat) (duration : Float) (message : Text) :
      Report path [.fileFormatted path changed inputBytes outputBytes duration,
        .fileFailed path "write".toList message]

/-- A report says that the text of the file changed, and of no failure. -/
def showsChange (report : List Event) : Bool :=
  report.any isChange && !report.any isFailure

end Event

namespace Log

open FileTree

variable {tree between after : FileTree} {sink : Sink} {now : Float} {place : Place}
  {event : Event} {events more : List Event}

/-- The lines of events in the log. -/
def Sink.lines (sink : Sink) (now : Float) (events : List Event) : Text :=
  events.flatMap fun event => sink.line now event.kind.toList event.data

/-- The lines of events were written at the end of the file at a place. -/
def Appended (sink : Sink) (now : Float) (place : Place) (tree after : FileTree)
    (events : List Event) : Prop :=
  after.contentAt place = tree.contentAt place ++ Utf8.encode (sink.lines now events)

theorem Appended.append (first : Appended sink now place tree between events)
    (second : Appended sink now place between after more) :
    Appended sink now place tree after (events ++ more) := by
  rw [Appended] at first second ⊢
  rw [second, first]
  simp [Sink.lines, Utf8.encode]

theorem appended_of_log (opens : Opens tree sink.path place) (active : sink.enabled)
    (logged : sink.log tree now event = .ok after) :
    Appended sink now place tree after [event] := by
  rw [opens.log active, Except.ok.injEq] at logged
  simp [← logged, Appended, appendAt, contentAt_putFile, Sink.lines]

end Log

namespace Command

namespace Run

open FileTree Log

variable {run : Run} {path : Path} {tree after : FileTree} {outcome : Outcome}
  {report : List Event} {place : Place}

/-! ## One file -/

theorem FileStep.isReport (step : FileStep run path tree outcome report after) :
    Event.Report path report := by
  cases step with
  | unread => exact .unread _
  | kept => exact .formatted ..
  | reported => exact .formatted ..
  | unwritten => exact .unwritten ..
  | written => exact .formatted ..

theorem FileStep.changed_iff (step : FileStep run path tree outcome report after) :
    outcome = .changed ↔ run.call.toOutput = false ∧ Event.showsChange report := by
  have flag (given formatted : Text) :
      Event.showsChange [run.formattedEvent path given formatted] ↔ formatted ≠ given := by
    rw [ne_comm]
    simp [Event.showsChange, formattedEvent, Event.formatted, Event.isChange, Event.isFailure]
  cases step with
  | unread => simp [Event.showsChange, Event.isChange]
  | kept _ _ settled =>
      rcases settled with shown | same
      · simp [shown]
      · simp [flag, same]
  | reported _ _ silent changes => simp [flag, silent, changes]
  | unwritten => simp [Event.showsChange, Event.isFailure]
  | written _ _ silent changes => simp [flag, silent, changes]

theorem FileStep.countP_isFailure (step : FileStep run path tree outcome report after) :
    report.countP Event.isFailure = if outcome = .failed then 1 else 0 := by
  cases step with
  | unread => rfl
  | kept => rfl
  | reported => rfl
  | unwritten => rfl
  | written => rfl

theorem FileStep.appended (step : FileStep run path tree outcome report after)
    (opens : Opens tree run.sink.path place) (active : run.sink.enabled)
    (apart : run.Saves → tree.locate path ≠ .ok place) :
    Appended run.sink run.surroundings.now place tree after report := by
  have ready : Ready run.sink tree := fun _ => ⟨place, opens⟩
  cases step with
  | unread _ logged => exact appended_of_log opens active logged
  | kept _ _ _ logged => exact appended_of_log opens active logged
  | reported _ _ _ _ _ logged => exact appended_of_log opens active logged
  | unwritten _ _ _ _ _ logged _ noted =>
      have later := opens.of_sameDirectories (ready.sameDirectories logged)
      exact (appended_of_log opens active logged).append (appended_of_log later active noted)
  | written _ _ _ _ saves logged written =>
      rcases exists_of_writeFile written with ⟨location, leads, -, rfl⟩
      have other : place ≠ location := by
        rintro rfl
        exact apart saves ((ready.sameDirectories logged).symm.toExtends.locate leads)
      rw [Appended, contentAt_putFile_of_ne _ other]
      exact appended_of_log opens active logged

/-! ## All files -/

section Files

variable {paths : List Path} {outcomes : List Outcome} {reports : List (List Event)}

theorem FileSteps.isReport (steps : FileSteps run tree paths outcomes reports after) :
    List.Forall₂ Event.Report paths reports := by
  induction steps with
  | nil => exact .nil
  | cons step _ ih => exact .cons step.isReport ih

theorem FileSteps.count_changed (steps : FileSteps run tree paths outcomes reports after) :
    outcomes.count .changed =
      if run.call.toOutput then 0 else reports.countP Event.showsChange := by
  induction steps with
  | nil => simp
  | @cons _ _ _ _ _ outcome _ report _ step _ ih =>
      have own := step.changed_iff
      rw [List.count_cons, List.countP_cons, ih]
      cases shown : run.call.toOutput <;> simp [shown] at own ⊢ <;> simp [own]

theorem FileSteps.count_failed (steps : FileSteps run tree paths outcomes reports after) :
    outcomes.count .failed = reports.flatten.countP Event.isFailure := by
  induction steps with
  | nil => rfl
  | cons step _ ih =>
      rw [List.count_cons, List.flatten_cons, List.countP_append, step.countP_isFailure, ih]
      simp [Nat.add_comm]

theorem FileSteps.appended (steps : FileSteps run tree paths outcomes reports after)
    (opens : Opens tree run.sink.path place) (active : run.sink.enabled)
    (apart : run.Saves → ∀ path ∈ paths, tree.locate path ≠ .ok place) :
    Appended run.sink run.surroundings.now place tree after reports.flatten := by
  induction steps with
  | nil => simp [Appended, Sink.lines, Utf8.encode]
  | cons step _ ih =>
      have same := step.sameDirectories fun _ => ⟨place, opens⟩
      have first := step.appended opens active fun saves => (List.forall_mem_cons.1 (apart saves)).1
      refine first.append (ih (opens.of_sameDirectories same) ?_)
      intro saves path member leads
      exact (List.forall_mem_cons.1 (apart saves)).2 path member (same.symm.toExtends.locate leads)

end Files

end Run

open FileTree Log

/-- A run that does not break off leaves its start, its reports and its end in the log. -/
theorem log_formatPaths {surroundings : Surroundings} {call : FormatCall} {config : Config}
    {workspace later : Workspace} {pruned : FileTree} {sink : Sink} {files : List Path}
    {result : Except Halt Unit} (active : config.log.enabled)
    (opened : Log.start workspace.tree surroundings.now config.log
      (Log.runName (workspace.runs + 1)) = .ok (pruned, sink))
    (found : Discovery.discover config.filter pruned (call.paths.map Path.ofText) = .ok files)
    (filled : files ≠ []) (single : call.toOutput → files.length = 1)
    (ran : (formatPaths surroundings call config).result workspace = (result, later))
    (finished : ∀ cause, result ≠ .error (.crash cause))
    (apart : call.inPlace → call.check = false →
      ∀ path ∈ files, later.tree.locate path ≠ later.tree.locate sink.path) :
    ∃ place reports, later.tree.locate sink.path = .ok place ∧
      List.Forall₂ Event.Report files reports ∧
      later.tree.contentAt place = pruned.contentAt place ++
        Utf8.encode (sink.lines surroundings.now
          (.runStarted call.paths files.length call.mode :: reports.flatten ++
            [.runCompleted files.length
              ((if call.toOutput then 0 else reports.countP Event.showsChange : Nat) : Int)
              (reports.flatten.countP Event.isFailure)])) := by
  have writes : sink.enabled := by
    rw [(start_cases opened).1]
    exact active
  rw [result_formatPaths opened found filled single] at ran
  rcases Run.complete_cases ran finished with
    ⟨started, outcomes, reports, treated, start, steps, stop⟩
  rcases exists_opens_of_log writes start with ⟨grown, place, made, opens, start⟩
  have ready : Ready sink grown := fun _ => ⟨place, opens⟩
  -- No directory changes from here on, so the path of the log keeps leading to its place.
  have early := ready.sameDirectories start
  have middle := steps.sameDirectories (ready.of_sameDirectories early)
  have late := (ready.of_sameDirectories (early.trans middle)).sameDirectories stop
  have stays := opens.of_sameDirectories ((early.trans middle).trans late)
  have treats := steps.appended (opens.of_sameDirectories early) writes (by
    intro saves path member leads
    apply apart saves.1 (by simpa using saves.2) path member
    rw [stays.leads]
    exact (middle.trans late).toExtends.locate leads)
  have whole := ((appended_of_log opens writes start).append treats).append
    (appended_of_log (opens.of_sameDirectories (early.trans middle)) writes stop)
  refine ⟨place, reports, stays.leads, steps.isReport, ?_⟩
  have content : pruned.contentAt place = grown.contentAt place := by
    rw [contentAt, contentAt, (widens_ensureFolders made).1.file?_eq]
  rw [content, whole, steps.count_changed, steps.count_failed]
  rfl

theorem ended_mixedFiles :
    ((formatPaths early mixedCall loggedConfig).result mixedFiles).1 = .error (.exit 2) := by
  rw [result_mixedFiles]
  decide +kernel

theorem log_formatPaths_mixedFiles :
    let later := ((formatPaths early mixedCall loggedConfig).result mixedFiles).2
    ∃ place reports, later.tree.locate firstSink.path = .ok place ∧
      List.Forall₂ Event.Report mixedPaths reports ∧
      later.tree.contentAt place = mixedFiles.tree.contentAt place ++
        Utf8.encode (firstSink.lines early.now
          (.runStarted mixedCall.paths 2 mixedCall.mode :: reports.flatten ++
            [.runCompleted 2 (reports.countP Event.showsChange)
              (reports.flatten.countP Event.isFailure)])) := by
  intro later
  have ran : (formatPaths early mixedCall loggedConfig).result mixedFiles =
      (.error (.exit 2), later) :=
    Prod.ext ended_mixedFiles rfl
  have apart : ∀ path ∈ mixedPaths, later.tree.locate path ≠ later.tree.locate firstSink.path := by
    rw [show later = _ from congrArg Prod.snd result_mixedFiles]
    decide +kernel
  exact log_formatPaths rfl start_mixedFiles discover_mixedFiles (by decide) (by decide) ran
    (by simp) fun _ _ => apart

end Command

end IdlFormat
