import IdlFormat.Command.Format
import IdlFormat.Proofs.Logging

/-!
# Steps of a run

A run logs its start, treats its files one after the other, and logs its end. What it can do with
one file is said once, by `FileStep`: one case for each way in which a file is treated, with the
events that are logged and the trees before and after. What a whole run does to the tree is a chain
of such steps (`FileSteps`).
-/

namespace IdlFormat

namespace Command

/-! ## Sessions -/

namespace Session

variable {α β : Type}

/-- What a session comes to on a workspace, and the workspace that it leaves. -/
def result (session : Session α) (workspace : Workspace) : Except Halt α × Workspace :=
  session.run.run workspace

/-- The session returns a value and leaves a workspace. -/
def Returns (session : Session α) (workspace : Workspace) (value : α) (after : Workspace) : Prop :=
  session.result workspace = (.ok value, after)

variable {first : Session α} {next : α → Session β} {workspace after : Workspace} {value : β}

theorem result_bind (first : Session α) (next : α → Session β) (workspace : Workspace) :
    (first >>= next).result workspace =
      match first.result workspace with
      | (.ok value, between) => (next value).result between
      | (.error halt, between) => (.error halt, between) := by
  simp only [result, ExceptT.run_bind, StateT.run_bind]
  rcases first.run.run workspace with ⟨outcome, between⟩
  cases outcome <;> rfl

theorem returns_bind_iff :
    (first >>= next).Returns workspace value after ↔
      ∃ middle between, first.Returns workspace middle between ∧
        (next middle).Returns between value after := by
  unfold Returns
  rw [result_bind]
  rcases first.result workspace with ⟨outcome, between⟩
  cases outcome with
  | error halt => simp
  | ok middle => simp

theorem exists_returns_bind {middle : α} {between : Workspace}
    (early : first.Returns workspace middle between)
    (late : ∃ value after, (next middle).Returns between value after) :
    ∃ value after, (first >>= next).Returns workspace value after := by
  rcases late with ⟨value, after, late⟩
  exact ⟨value, after, returns_bind_iff.2 ⟨middle, between, early, late⟩⟩

theorem returns_pure_iff {own : β} :
    (pure own : Session β).Returns workspace value after ↔ own = value ∧ workspace = after := by
  have same : (pure own : Session β).result workspace = (.ok own, workspace) := rfl
  simp [Returns, same]

theorem returns_tree_iff {tree : FileTree} :
    Session.tree.Returns workspace tree after ↔ workspace.tree = tree ∧ workspace = after := by
  have same : Session.tree.result workspace = (.ok workspace.tree, workspace) := rfl
  simp [Returns, same]

theorem returns_setTree_iff {tree : FileTree} :
    (setTree tree).Returns workspace () after ↔ { workspace with tree } = after := by
  have same : (setTree tree).result workspace = (.ok (), { workspace with tree }) := rfl
  simp [Returns, same]

theorem returns_write_iff {text : Text} :
    (write text).Returns workspace () after ↔
      { workspace with output := workspace.output ++ Terminal.plain text } = after := by
  have same : (write text).result workspace =
    (.ok (), { workspace with output := workspace.output ++ Terminal.plain text }) := rfl
  simp [Returns, same]

theorem returns_complain_iff {text : Text} :
    (complain text).Returns workspace () after ↔
      { workspace with errors := workspace.errors ++ Terminal.plain (text ++ ['\n']) } = after := by
  have same : (complain text).result workspace =
    (.ok (), { workspace with errors := workspace.errors ++ Terminal.plain (text ++ ['\n']) }) := rfl
  simp [Returns, same]

theorem returns_orCrash_iff {ε : Type} {cause : ε → Crash} {attempt : Except ε β} :
    (orCrash cause attempt).Returns workspace value after ↔
      attempt = .ok value ∧ workspace = after := by
  cases attempt with
  | ok own =>
      rw [orCrash, returns_pure_iff, Except.ok.injEq]
  | error fault =>
      have same : (orCrash cause (.error fault : Except ε β)).result workspace =
        (.error (.crash (cause fault)), workspace) := rfl
      simp [Returns, same]

/-- A session that is ended before its last step is ended by a crash. -/
def Persists (session : Session α) : Prop :=
  ∀ workspace halt after, session.result workspace = (.error halt, after) →
    ∃ cause, halt = .crash cause

theorem persists_bind (early : first.Persists) (late : ∀ value, (next value).Persists) :
    (first >>= next).Persists := by
  intro workspace halt after ran
  rw [result_bind] at ran
  split at ran
  · exact late _ _ _ _ ran
  · next outcome between halted =>
      obtain ⟨rfl, rfl⟩ : outcome = halt ∧ between = after := by simpa using ran
      exact early _ _ _ halted

theorem persists_of_result {session : Session α} {value : Workspace → α}
    {change : Workspace → Workspace}
    (same : ∀ workspace, session.result workspace = (.ok (value workspace), change workspace)) :
    session.Persists := by
  intro workspace halt after ran
  rw [same] at ran
  cases ran

theorem persists_pure (own : β) : (pure own : Session β).Persists :=
  persists_of_result fun _ => rfl

theorem persists_orCrash {ε : Type} (cause : ε → Crash) (attempt : Except ε β) :
    (orCrash cause attempt).Persists := by
  cases attempt with
  | ok own => exact persists_pure own
  | error fault =>
      intro workspace halt after ran
      cases ran
      exact ⟨_, rfl⟩

/-- A session that does not crash has taken its first steps. -/
theorem exists_returns_of_result (early : first.Persists) {result : Except Halt β}
    (ran : (first >>= next).result workspace = (result, after))
    (finished : ∀ cause, result ≠ .error (.crash cause)) :
    ∃ middle between, first.Returns workspace middle between ∧
      (next middle).result between = (result, after) := by
  rw [result_bind] at ran
  split at ran
  · next middle between returned => exact ⟨middle, between, returned, ran⟩
  · next halt between halted =>
      rcases early _ _ _ halted with ⟨cause, rfl⟩
      exact absurd (congrArg Prod.fst ran).symm (finished cause)

end Session

namespace Run

variable {run : Run} {path : Path} {tree after : FileTree} {outcome : Outcome}
  {events : List Event} {workspace later : Workspace}

/-! ## One file -/

theorem returns_log_iff {event : Event} :
    (run.log event).Returns workspace () later ↔
      ∃ tree, run.sink.log workspace.tree run.surroundings.now event = .ok tree ∧
        { workspace with tree } = later := by
  simp only [Run.log, Session.returns_bind_iff, Session.returns_tree_iff,
    Session.returns_orCrash_iff, Session.returns_setTree_iff]
  constructor
  · rintro ⟨_, _, ⟨rfl, rfl⟩, tree, _, ⟨logged, rfl⟩, rfl⟩
    exact ⟨tree, logged, rfl⟩
  · rintro ⟨tree, logged, rfl⟩
    exact ⟨_, _, ⟨rfl, rfl⟩, tree, _, ⟨logged, rfl⟩, rfl⟩

/-- The event that a text was formatted in a run. -/
def formattedEvent (run : Run) (path : Path) (given formatted : Text) : Event :=
  .formatted path given formatted (run.surroundings.now - run.surroundings.now)

/-- The changes of a run are written to the files. -/
def Saves (run : Run) : Prop :=
  run.call.inPlace ∧ ¬ run.call.check

instance (run : Run) : Decidable run.Saves :=
  inferInstanceAs (Decidable (_ ∧ _))

/-- What a run can do with a file: the outcome, the events that are logged, and the trees before and
after. -/
inductive FileStep (run : Run) (path : Path) (tree : FileTree) :
    Outcome → List Event → FileTree → Prop
  /-- The file cannot be read. -/
  | unread {message : Text} {after : FileTree} (unread : run.readFile tree path = .error message)
      (logged : run.sink.log tree run.surroundings.now
        (.fileFailed path "read".toList message) = .ok after) :
      FileStep run path tree .failed [.fileFailed path "read".toList message] after
  /-- The text is shown, or it does not change. -/
  | kept {given formatted : Text} {after : FileTree} (read : run.readFile tree path = .ok given)
      (formats : Document.format run.style given = .ok formatted)
      (settled : run.call.toOutput ∨ formatted = given)
      (logged : run.sink.log tree run.surroundings.now
        (run.formattedEvent path given formatted) = .ok after) :
      FileStep run path tree .kept [run.formattedEvent path given formatted] after
  /-- The text changes, which is reported. -/
  | reported {given formatted : Text} {after : FileTree} (read : run.readFile tree path = .ok given)
      (formats : Document.format run.style given = .ok formatted)
      (silent : run.call.toOutput = false) (changes : formatted ≠ given) (reports : ¬ run.Saves)
      (logged : run.sink.log tree run.surroundings.now
        (run.formattedEvent path given formatted) = .ok after) :
      FileStep run path tree .changed [run.formattedEvent path given formatted] after
  /-- The text changes, but the file cannot be written. -/
  | unwritten {given formatted message : Text} {between after : FileTree}
      (read : run.readFile tree path = .ok given)
      (formats : Document.format run.style given = .ok formatted)
      (silent : run.call.toOutput = false) (changes : formatted ≠ given) (saves : run.Saves)
      (logged : run.sink.log tree run.surroundings.now
        (run.formattedEvent path given formatted) = .ok between)
      (unwritten : run.writeFile between path formatted = .error message)
      (noted : run.sink.log between run.surroundings.now
        (.fileFailed path "write".toList message) = .ok after) :
      FileStep run path tree .failed
        [run.formattedEvent path given formatted, .fileFailed path "write".toList message] after
  /-- The text changes, and the file is written. -/
  | written {given formatted : Text} {between after : FileTree}
      (read : run.readFile tree path = .ok given)
      (formats : Document.format run.style given = .ok formatted)
      (silent : run.call.toOutput = false) (changes : formatted ≠ given) (saves : run.Saves)
      (logged : run.sink.log tree run.surroundings.now
        (run.formattedEvent path given formatted) = .ok between)
      (written : run.writeFile between path formatted = .ok after) :
      FileStep run path tree .changed [run.formattedEvent path given formatted] after

theorem returns_failFile_iff {stage : String} {message : Text} :
    (run.failFile stage path message).Returns workspace outcome later ↔
      outcome = .failed ∧ ∃ tree,
        run.sink.log workspace.tree run.surroundings.now (.fileFailed path stage.toList message) =
          .ok tree ∧
        { workspace with
          tree
          errors := workspace.errors ++ Terminal.plain ("error: cannot ".toList ++ stage.toList ++
            [' '] ++ path.toText ++ [':', ' '] ++ message ++ ['\n']) } = later := by
  rw [failFile]
  constructor
  · intro ran
    rcases Session.returns_bind_iff.1 ran with ⟨_, _, complained, ran⟩
    obtain rfl := Session.returns_complain_iff.1 complained
    rcases Session.returns_bind_iff.1 ran with ⟨_, _, noted, ran⟩
    rcases returns_log_iff.1 noted with ⟨tree, logged, rfl⟩
    rcases Session.returns_pure_iff.1 ran with ⟨rfl, rfl⟩
    exact ⟨rfl, tree, logged, rfl⟩
  · rintro ⟨rfl, tree, logged, rfl⟩
    refine Session.returns_bind_iff.2 ⟨(), _, Session.returns_complain_iff.2 rfl, ?_⟩
    refine Session.returns_bind_iff.2 ⟨(), _, returns_log_iff.2 ⟨tree, logged, rfl⟩, ?_⟩
    exact Session.returns_pure_iff.2 ⟨rfl, rfl⟩

theorem saveFile_cases {formatted : Text}
    (ran : (run.saveFile path formatted).Returns workspace outcome later) :
    (¬ run.Saves ∧ outcome = .changed ∧ later.tree = workspace.tree) ∨
      (run.Saves ∧ outcome = .failed ∧ ∃ message,
        run.writeFile workspace.tree path formatted = .error message ∧
        run.sink.log workspace.tree run.surroundings.now
          (.fileFailed path "write".toList message) = .ok later.tree) ∨
      (run.Saves ∧ outcome = .changed ∧
        run.writeFile workspace.tree path formatted = .ok later.tree) := by
  rw [saveFile] at ran
  split at ran
  · next checks =>
      rcases Session.returns_bind_iff.1 ran with ⟨_, _, reported, ran⟩
      rcases Session.returns_pure_iff.1 ran with ⟨rfl, rfl⟩
      obtain rfl := Session.returns_complain_iff.1 reported
      exact .inl ⟨fun saves => saves.2 checks, rfl, rfl⟩
  · next writes =>
      split at ran
      · next inPlace =>
          rcases Session.returns_bind_iff.1 ran with ⟨_, _, tree, ran⟩
          rcases Session.returns_tree_iff.1 tree with ⟨rfl, rfl⟩
          split at ran
          · next message unwritten =>
              rcases returns_failFile_iff.1 ran with ⟨rfl, after, logged, rfl⟩
              exact .inr (.inl ⟨⟨inPlace, writes⟩, rfl, message, unwritten, logged⟩)
          · next after written =>
              rcases Session.returns_bind_iff.1 ran with ⟨_, _, set, ran⟩
              rcases Session.returns_bind_iff.1 ran with ⟨_, _, reported, ran⟩
              rcases Session.returns_pure_iff.1 ran with ⟨rfl, rfl⟩
              obtain rfl := Session.returns_setTree_iff.1 set
              obtain rfl := Session.returns_complain_iff.1 reported
              exact .inr (.inr ⟨⟨inPlace, writes⟩, rfl, written⟩)
      · next shows =>
          rcases Session.returns_pure_iff.1 ran with ⟨rfl, rfl⟩
          exact .inl ⟨fun saves => shows saves.1, rfl, rfl⟩

/-- A run treats a file in one of the ways of `FileStep`. -/
theorem fileStep_of_returns (ran : (run.formatFile path).Returns workspace outcome later) :
    ∃ events, FileStep run path workspace.tree outcome events later.tree := by
  rw [formatFile] at ran
  rcases Session.returns_bind_iff.1 ran with ⟨_, _, tree, ran⟩
  rcases Session.returns_tree_iff.1 tree with ⟨rfl, rfl⟩
  split at ran
  · next message unread =>
      rcases returns_failFile_iff.1 ran with ⟨rfl, after, logged, rfl⟩
      exact ⟨_, .unread unread logged⟩
  · next given read =>
      rcases Session.returns_bind_iff.1 ran with ⟨formatted, _, returned, ran⟩
      rcases Session.returns_orCrash_iff.1 returned with ⟨formats, rfl⟩
      rcases Session.returns_bind_iff.1 ran with ⟨_, _, noted, ran⟩
      rcases returns_log_iff.1 noted with ⟨between, logged, rfl⟩
      split at ran
      · next shown =>
          rcases Session.returns_bind_iff.1 ran with ⟨_, _, wrote, ran⟩
          rcases Session.returns_pure_iff.1 ran with ⟨rfl, rfl⟩
          obtain rfl := Session.returns_write_iff.1 wrote
          exact ⟨_, .kept read formats (.inl shown) logged⟩
      · next silent =>
          split at ran
          · next same =>
              rcases Session.returns_pure_iff.1 ran with ⟨rfl, rfl⟩
              exact ⟨_, .kept read formats (.inr same) logged⟩
          · next changes =>
              have saved : ∃ workspace : Workspace, workspace.tree = between ∧
                  (run.saveFile path formatted).Returns workspace outcome later := by
                simp only at ran
                split at ran
                · rcases Session.returns_bind_iff.1 ran with ⟨_, _, wrote, ran⟩
                  exact ⟨_, by rw [← Session.returns_write_iff.1 wrote], ran⟩
                · exact ⟨_, rfl, ran⟩
              have hidden : run.call.toOutput = false := by simpa using silent
              rcases saved with ⟨_, rfl, saved⟩
              rcases saveFile_cases saved with ⟨reports, rfl, same⟩ |
                ⟨saves, rfl, message, unwritten, noted⟩ | ⟨saves, rfl, written⟩
              · rw [same]
                exact ⟨_, .reported read formats hidden changes reports logged⟩
              · exact ⟨_, .unwritten read formats hidden changes saves logged unwritten noted⟩
              · exact ⟨_, .written read formats hidden changes saves logged written⟩

/-- Writing a file puts it where its path leads. -/
theorem exists_of_writeFile {text : Text} (written : run.writeFile tree path text = .ok after) :
    ∃ place, tree.locate path = .ok place ∧ tree.isDirectory place = false ∧
      after = tree.putFile place ⟨Utf8.encode text, run.surroundings.now⟩ := by
  rw [writeFile] at written
  simp only at written
  split at written
  · cases written
  · cases put : tree.write run.surroundings.now path (Utf8.encode text) with
    | error obstacle =>
        rw [put] at written
        cases written
    | ok grown =>
        rw [put] at written
        obtain rfl : grown = after := Except.ok.inj written
        rcases bind_eq_ok_iff.1 put with ⟨place, leads, put⟩
        split at put
        · cases put
        · next isFile => exact ⟨place, leads, by simpa using isFile, (Except.ok.inj put).symm⟩

theorem FileStep.sameDirectories (step : FileStep run path tree outcome events after)
    (ready : Log.Ready run.sink tree) : FileTree.SameDirectories tree after := by
  cases step with
  | unread _ logged => exact ready.sameDirectories logged
  | kept _ _ _ logged => exact ready.sameDirectories logged
  | reported _ _ _ _ _ logged => exact ready.sameDirectories logged
  | unwritten _ _ _ _ _ logged _ noted =>
      have first := ready.sameDirectories logged
      exact first.trans ((ready.of_sameDirectories first).sameDirectories noted)
  | written _ _ _ _ _ logged written =>
      rcases exists_of_writeFile written with ⟨place, leads, isFile, rfl⟩
      exact (ready.sameDirectories logged).trans
        (FileTree.sameDirectories_putFile (FileTree.isDirectory_dropLast_of_locate leads isFile) _)

/-! ## All files -/

/-- Files are treated one after the other, each with its outcome and its report in the log. -/
inductive FileSteps (run : Run) :
    FileTree → List Path → List Outcome → List (List Event) → FileTree → Prop
  /-- There is no file. -/
  | nil (tree : FileTree) : FileSteps run tree [] [] [] tree
  /-- A file is treated before the others. -/
  | cons {tree between after : FileTree} {path : Path} {paths : List Path} {outcome : Outcome}
      {outcomes : List Outcome} {report : List Event} {reports : List (List Event)}
      (step : FileStep run path tree outcome report between)
      (steps : FileSteps run between paths outcomes reports after) :
      FileSteps run tree (path :: paths) (outcome :: outcomes) (report :: reports) after

theorem fileSteps_of_returns {paths : List Path} {outcomes : List Outcome}
    (ran : (run.formatFiles paths).Returns workspace outcomes later) :
    ∃ reports, FileSteps run workspace.tree paths outcomes reports later.tree := by
  induction paths generalizing workspace outcomes with
  | nil =>
      rcases Session.returns_pure_iff.1 ran with ⟨rfl, rfl⟩
      exact ⟨[], .nil _⟩
  | cons path paths ih =>
      rcases Session.returns_bind_iff.1 ran with ⟨outcome, between, first, ran⟩
      rcases Session.returns_bind_iff.1 ran with ⟨others, _, rest, ran⟩
      rcases Session.returns_pure_iff.1 ran with ⟨rfl, rfl⟩
      rcases fileStep_of_returns first with ⟨report, step⟩
      rcases ih rest with ⟨reports, steps⟩
      exact ⟨report :: reports, .cons step steps⟩

theorem FileSteps.sameDirectories {paths : List Path} {outcomes : List Outcome}
    {reports : List (List Event)} (steps : FileSteps run tree paths outcomes reports after)
    (ready : Log.Ready run.sink tree) : FileTree.SameDirectories tree after := by
  induction steps with
  | nil => exact .refl _
  | cons step _ ih =>
      have first := step.sameDirectories ready
      exact first.trans (ih (ready.of_sameDirectories first))

/-! ## The whole run -/

theorem persists_log (run : Run) (event : Event) : (run.log event).Persists := by
  apply Session.persists_bind (Session.persists_of_result fun _ => rfl)
  intro tree
  apply Session.persists_bind (Session.persists_orCrash _ _)
  exact fun _ => Session.persists_of_result fun _ => rfl

theorem persists_failFile (run : Run) (stage : String) (path : Path) (message : Text) :
    (run.failFile stage path message).Persists := by
  apply Session.persists_bind (Session.persists_of_result fun _ => rfl)
  intro _
  apply Session.persists_bind (persists_log run _)
  exact fun _ => Session.persists_pure _

theorem persists_saveFile (run : Run) (path : Path) (formatted : Text) :
    (run.saveFile path formatted).Persists := by
  unfold saveFile
  split
  · exact Session.persists_of_result fun _ => rfl
  · split
    · apply Session.persists_bind (Session.persists_of_result fun _ => rfl)
      intro tree
      split
      · exact persists_failFile run _ _ _
      · exact Session.persists_of_result fun _ => rfl
    · exact Session.persists_pure _

theorem persists_formatFile (run : Run) (path : Path) : (run.formatFile path).Persists := by
  unfold formatFile
  apply Session.persists_bind (Session.persists_of_result fun _ => rfl)
  intro tree
  split
  · exact persists_failFile run _ _ _
  · apply Session.persists_bind (Session.persists_orCrash _ _)
    intro formatted
    apply Session.persists_bind (persists_log run _)
    intro _
    split
    · exact Session.persists_of_result fun _ => rfl
    · split
      · exact Session.persists_pure _
      · simp only
        split
        · apply Session.persists_bind (Session.persists_of_result fun _ => rfl)
          exact fun _ => persists_saveFile run path formatted
        · exact persists_saveFile run path formatted

theorem persists_formatFiles (run : Run) (paths : List Path) :
    (run.formatFiles paths).Persists := by
  induction paths with
  | nil => exact Session.persists_pure _
  | cons path paths ih =>
      apply Session.persists_bind (persists_formatFile run path)
      intro outcome
      exact Session.persists_bind ih fun _ => Session.persists_pure _

/-- How a run ends: an exit code other than zero halts the command. -/
def ending (call : FormatCall) (outcomes : List Outcome) : Except Halt Unit :=
  if exitCode call outcomes = 0 then .ok () else .error (.exit (exitCode call outcomes))

theorem result_ending (call : FormatCall) (outcomes : List Outcome) (workspace : Workspace) :
    (if exitCode call outcomes != 0 then Session.exit (exitCode call outcomes)
      else pure () : Session Unit).result workspace = (ending call outcomes, workspace) := by
  unfold ending
  by_cases zero : exitCode call outcomes = 0
  · rw [if_pos zero, if_neg (by simp [zero])]
    rfl
  · rw [if_neg zero, if_pos (by simp [zero])]
    rfl

/-- A run ends with its outcomes once it has logged its start, treated its files and logged its
end. -/
theorem exists_result_complete {files : List Path} {outcomes : List Outcome}
    {started ended : FileTree} {between : Workspace}
    (start : run.sink.log workspace.tree run.surroundings.now
      (.runStarted run.call.paths files.length run.call.mode) = .ok started)
    (treat : (run.formatFiles files).Returns { workspace with tree := started } outcomes between)
    (stop : run.sink.log between.tree run.surroundings.now
      (.runCompleted files.length (outcomes.count .changed) (outcomes.count .failed)) = .ok ended) :
    ∃ later, (run.complete files).result workspace = (ending run.call outcomes, later) ∧
      later.tree = ended ∧
      (run.call.toOutput = false → later.errors =
        between.errors ++ Terminal.plain (summary run.call outcomes ++ ['\n'])) := by
  have first : (run.log (.runStarted run.call.paths files.length run.call.mode)).Returns workspace ()
      { workspace with tree := started } := returns_log_iff.2 ⟨started, start, rfl⟩
  have last : (run.log (.runCompleted files.length (outcomes.count .changed)
      (outcomes.count .failed))).Returns between () { between with tree := ended } :=
    returns_log_iff.2 ⟨ended, stop, rfl⟩
  rw [Session.Returns] at first treat last
  have summed : (Session.complain (summary run.call outcomes)).result
      { between with tree := ended } =
        (.ok (), { between with
          tree := ended
          errors := between.errors ++ Terminal.plain (summary run.call outcomes ++ ['\n']) }) := rfl
  simp only [complete, Session.result_bind, first, treat, last]
  cases run.call.toOutput with
  | true => exact ⟨_, result_ending run.call outcomes _, rfl, by simp⟩
  | false =>
      simp only [Bool.not_false, if_true, Session.result_bind, summed]
      exact ⟨_, result_ending run.call outcomes _, rfl, fun _ => rfl⟩

/-- A run that does not break off logs its start, treats its files and logs its end. -/
theorem complete_cases {files : List Path} {result : Except Halt Unit}
    (ran : (run.complete files).result workspace = (result, later))
    (finished : ∀ cause, result ≠ .error (.crash cause)) :
    ∃ started outcomes reports treated,
      run.sink.log workspace.tree run.surroundings.now
        (.runStarted run.call.paths files.length run.call.mode) = .ok started ∧
      FileSteps run started files outcomes reports treated ∧
      run.sink.log treated run.surroundings.now
        (.runCompleted files.length (outcomes.count .changed) (outcomes.count .failed)) =
          .ok later.tree := by
  have whole := ran
  rw [complete] at ran
  rcases Session.exists_returns_of_result (persists_log run _) ran finished with
    ⟨_, _, noted, ran⟩
  rcases returns_log_iff.1 noted with ⟨started, start, rfl⟩
  rcases Session.exists_returns_of_result (persists_formatFiles run files) ran finished with
    ⟨outcomes, between, treat, ran⟩
  rcases fileSteps_of_returns treat with ⟨reports, steps⟩
  rcases Session.exists_returns_of_result (persists_log run _) ran finished with
    ⟨_, _, noted, -⟩
  rcases returns_log_iff.1 noted with ⟨ended, stop, rfl⟩
  rcases exists_result_complete start treat stop with ⟨own, came, rfl, -⟩
  obtain ⟨-, rfl⟩ := Prod.mk.inj (came.symm.trans whole)
  exact ⟨started, outcomes, reports, between.tree, start, steps, stop⟩

end Run

/-- A call that stands for files, and for one only if the text is shown, is a run on them. -/
theorem result_formatPaths {surroundings : Surroundings} {call : FormatCall} {config : Config}
    {workspace : Workspace} {pruned : FileTree} {sink : Log.Sink} {files : List Path}
    (opened : Log.start workspace.tree surroundings.now config.log
      (Log.runName (workspace.runs + 1)) = .ok (pruned, sink))
    (found : Discovery.discover config.filter pruned (call.paths.map Path.ofText) = .ok files)
    (filled : files ≠ []) (single : call.toOutput → files.length = 1) :
    (formatPaths surroundings call config).result workspace =
      (Run.complete ⟨call, call.style config, sink, surroundings⟩ files).result
        { workspace with tree := pruned, runs := workspace.runs + 1 } := by
  have few : (call.toOutput && decide (files.length > 1)) = false := by
    cases shown : call.toOutput with
    | false => rfl
    | true => simp [single shown]
  have got : (get : Session Workspace).result workspace = (.ok workspace, workspace) := rfl
  have seen : Session.tree.result workspace = (.ok workspace.tree, workspace) := rfl
  have crash {ε α : Type} (cause : ε → Crash) (value : α) (workspace : Workspace) :
      (Session.orCrash cause (.ok value : Except ε α)).result workspace = (.ok value, workspace) :=
    rfl
  have changed (change : Workspace → Workspace) (workspace : Workspace) :
      (modify change : Session Unit).result workspace = (.ok (), change workspace) := rfl
  simp only [formatPaths, Session.result_bind, got, seen, opened, crash, changed, found, few]
  simp [filled]

/-! ## A run on two files -/

/-- A file that changes when it is formatted, and one that is no text. -/
def mixedFiles : Workspace where
  tree := { files := [(["a.idl".toList], ⟨Utf8.encode "x ;".toList, 0.0⟩),
    (["b.idl".toList], ⟨[0xFF], 0.0⟩)] }

/-- A call that formats the two files in place. -/
def mixedCall : FormatCall where
  paths := ["a.idl".toList, "b.idl".toList]
  config := none
  inPlace := true
  check := false
  diff := false
  width := none

/-- Settings with a log. -/
def loggedConfig : Config :=
  { Config.standard with log := { enabled := true, path := "log".toList } }

/-- The sink of the first run with these settings. -/
def firstSink : Log.Sink :=
  .ofSettings loggedConfig.log (Log.runName 1)

/-- The paths of the two files. -/
def mixedPaths : List Path :=
  mixedCall.paths.map Path.ofText

/-- The log is asked for, half a second after the epoch. -/
def early : Surroundings where
  now := 0.5
  environment := [("MIDLFMT_TELEMETRY".toList, "1".toList),
    ("MIDLFMT_TELEMETRY_PATH".toList, "log".toList)]

/-- The run on the two files. -/
def mixedRun : Run :=
  ⟨mixedCall, mixedCall.style loggedConfig, firstSink, early⟩

theorem start_mixedFiles :
    Log.start mixedFiles.tree early.now loggedConfig.log (Log.runName (mixedFiles.runs + 1)) =
      .ok (mixedFiles.tree, firstSink) := rfl

theorem discover_mixedFiles :
    Discovery.discover loggedConfig.filter mixedFiles.tree (mixedCall.paths.map Path.ofText) =
      .ok mixedPaths := by
  have once : Discovery.dropRepeated mixedFiles.tree [] mixedPaths = mixedPaths := by
    decide +kernel
  have sorted : mixedPaths.mergeSort Path.le = mixedPaths :=
    List.mergeSort_of_pairwise (by decide +kernel)
  apply bind_eq_ok_iff.2
  refine ⟨mixedPaths.map ([·]), rfl, congrArg Except.ok ?_⟩
  exact (congrArg (List.mergeSort · Path.le) once).trans sorted

theorem result_mixedFiles :
    (formatPaths early mixedCall loggedConfig).result mixedFiles =
      (mixedRun.complete mixedPaths).result { mixedFiles with runs := 1 } :=
  result_formatPaths start_mixedFiles discover_mixedFiles (by decide) (by decide)

end Command

end IdlFormat
