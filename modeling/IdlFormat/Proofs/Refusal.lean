import IdlFormat.Proofs.Layering

/-!
# Configurations that are refused

A command whose configuration cannot be used is to say why, and to end with exit code 1. For most
faults it does: a file that is missing or no text, a document that is no mapping, bad settings, and
variables that are no numbers or out of bounds. A fault without a report breaks the command off
instead. `BreaksOff` lists them: a file that cannot be opened, a document that is not well formed
(or has a scalar that the reading of YAML trips over), and an entry whose key is no text.

The proof follows the faults through the steps of loading (`FailsBy`); no step after the file breaks
a command off (`crashOf?_of_override`).
-/

namespace IdlFormat

namespace Config

open Command (Crash crashOf?)

/-- The causes for which a command breaks off at the file at a path. -/
inductive BreaksOff (tree : FileTree) (path : Path) : Crash → Prop where
  /-- There may be something at the path, but it cannot be opened as a file. -/
  | unopened {obstacle : Obstacle} (there : tree.hasEntry path ≠ .ok false)
      (closed : tree.read path = .error obstacle) : BreaksOff tree path (.obstacle obstacle)
  /-- The file is text, but no document. -/
  | unloadable {bytes : Bytes} {text : Text} {fault : Yaml.Fault}
      (opened : tree.read path = .ok bytes) (decoded : Utf8.decodeStream bytes = .ok text)
      (faulty : Yaml.load text.normalizeBreaks = .error fault)
      (unreported : fault.isReported = false) : BreaksOff tree path (.unloadable fault)
  /-- The document is a mapping, but not of texts. -/
  | unnamed {document : Yaml.Node} {fields : Table Setting.Value}
      (present : readDocument tree path = .ok document)
      (mapping : document.value = .record fields) (nameless : document.hasTextKeys = false) :
      BreaksOff tree path .unnamedEntry

/-- The result is a fault at which a command breaks off. -/
def FailsBy {α : Type} (result : Except Fault α) (cause : Crash) : Prop :=
  ∃ fault, result = .error fault ∧ crashOf? fault = some cause

variable {α β Problem : Type} {cause : Crash} {config after loaded : Config}
  {environment : Environment} {tree : FileTree} {path : Path} {file : Option Text}

theorem not_failsBy_ok {value : α} : ¬ FailsBy (.ok value : Except Fault α) cause := by
  rintro ⟨fault, ⟨⟩, -⟩

theorem failsBy_error_iff {fault : Fault} :
    FailsBy (.error fault : Except Fault α) cause ↔ crashOf? fault = some cause := by
  simp [FailsBy]

theorem crashOf?_unloadable_iff {fault : Yaml.Fault} :
    crashOf? (.unloadable fault) = some cause ↔
      fault.isReported = false ∧ cause = .unloadable fault := by
  cases reported : fault.isReported <;> simp [crashOf?, reported, eq_comm]

theorem failsBy_bind_iff {first : Except Fault α} {next : α → Except Fault β} :
    FailsBy (first >>= next) cause ↔
      FailsBy first cause ∨ ∃ value, first = .ok value ∧ FailsBy (next value) cause := by
  cases first with
  | error fault => simp [FailsBy, bind, Except.bind]
  | ok value => simp [FailsBy, bind, Except.bind]

theorem failsBy_mapError_iff {result : Except Problem α} {change : Problem → Fault} :
    FailsBy (result.mapError change) cause ↔
      ∃ problem, result = .error problem ∧ crashOf? (change problem) = some cause := by
  cases result <;> simp [FailsBy, Except.mapError]

/-! ## Loading -/

theorem read_of_hasEntry_eq_error {obstacle : Obstacle}
    (found : tree.hasEntry path = .error obstacle) : tree.read path = .error obstacle := by
  unfold FileTree.hasEntry at found
  unfold FileTree.read FileTree.openFile
  split at found
  · cases found
  · next long =>
      obtain rfl := Except.error.inj found
      cases located : tree.locate path with
      | error obstacle =>
          rw [located] at long
          obtain rfl := Except.error.inj long
          rfl
      | ok place =>
          rw [located] at long
          simp only [Except.bind] at long
          simp [bind, Except.bind, long]
  · cases found

theorem failsBy_readDocument_iff : FailsBy (readDocument tree path) cause ↔
    (∃ obstacle, tree.read path = .error obstacle ∧ cause = .obstacle obstacle) ∨
    ∃ bytes text fault, tree.read path = .ok bytes ∧ Utf8.decodeStream bytes = .ok text ∧
      Yaml.load text.normalizeBreaks = .error fault ∧ fault.isReported = false ∧
      cause = .unloadable fault := by
  simp only [readDocument, failsBy_bind_iff, failsBy_mapError_iff, mapError_eq_ok_iff]
  constructor
  · rintro (⟨obstacle, closed, same⟩ | ⟨bytes, opened, ⟨fault, -, unreported⟩ |
      ⟨text, decoded, fault, faulty, unreported⟩⟩)
    · exact .inl ⟨obstacle, closed, (Option.some.inj same).symm⟩
    · cases unreported
    · exact .inr ⟨bytes, text, fault, opened, decoded, faulty,
        crashOf?_unloadable_iff.1 unreported⟩
  · rintro (⟨obstacle, closed, rfl⟩ |
      ⟨bytes, text, fault, opened, decoded, faulty, unreported, rfl⟩)
    · exact .inl ⟨obstacle, closed, rfl⟩
    · exact .inr ⟨bytes, opened, .inr ⟨text, decoded, fault, faulty,
        crashOf?_unloadable_iff.2 ⟨unreported, rfl⟩⟩⟩

theorem failsBy_ofDocument_iff {document : Yaml.Node} :
    FailsBy (ofDocument path document) cause ↔ cause = .unnamedEntry ∧
      document.hasTextKeys = false ∧ ∃ fields, document.value = .record fields := by
  unfold ofDocument
  cases shape : document.value with
  | record fields =>
      cases named : document.hasTextKeys with
      | true => simp [failsBy_mapError_iff, crashOf?]
      | false => simp [failsBy_error_iff, crashOf?, eq_comm]
  | _ => simp [failsBy_error_iff, not_failsBy_ok, crashOf?]

theorem failsBy_load_iff : FailsBy (load tree path) cause ↔ BreaksOff tree path cause := by
  rw [load_eq]
  constructor
  · intro fails
    split at fails
    · next obstacle found =>
        obtain rfl := Option.some.inj (failsBy_error_iff.1 fails)
        exact .unopened (by simp [found]) (read_of_hasEntry_eq_error found)
    · cases failsBy_error_iff.1 fails
    · next there =>
        rcases failsBy_bind_iff.1 fails with fails | ⟨document, present, fails⟩
        · rcases failsBy_readDocument_iff.1 fails with ⟨obstacle, closed, rfl⟩ |
            ⟨bytes, text, fault, opened, decoded, faulty, unreported, rfl⟩
          · exact .unopened (by simp [there]) closed
          · exact .unloadable opened decoded faulty unreported
        · obtain ⟨rfl, nameless, fields, mapping⟩ := failsBy_ofDocument_iff.1 fails
          exact .unnamed present mapping nameless
  · intro breaksOff
    cases breaksOff with
    | unopened there closed =>
        split
        · next obstacle found =>
            rw [read_of_hasEntry_eq_error found] at closed
            exact failsBy_error_iff.2 (congrArg (some ∘ Crash.obstacle) (Except.error.inj closed))
        · next missing => exact absurd missing there
        · exact failsBy_bind_iff.2 (.inl (failsBy_readDocument_iff.2 (.inl ⟨_, closed, rfl⟩)))
    | unloadable opened decoded faulty unreported =>
        rw [hasEntry_of_read opened]
        exact failsBy_bind_iff.2 (.inl (failsBy_readDocument_iff.2
          (.inr ⟨_, _, _, opened, decoded, faulty, unreported, rfl⟩)))
    | unnamed present mapping nameless =>
        rw [hasEntry_of_readDocument present]
        exact failsBy_bind_iff.2 (.inr ⟨_, present,
          failsBy_ofDocument_iff.2 ⟨rfl, nameless, _, mapping⟩⟩)

/-- A project without a file has the default, where a file that was asked for is reported. -/
theorem failsBy_loadSelected_iff :
    FailsBy (loadSelected tree file) cause ↔ BreaksOff tree (selectedPath tree file) cause := by
  rw [← failsBy_load_iff]
  cases file with
  | some text => exact Iff.rfl
  | none =>
      rw [loadSelected, loadProject, selectedPath]
      cases found : tree.hasEntry ((⟨.root, tree.current⟩ : Path).child fileName) with
      | error obstacle =>
          rw [load_eq, found]
          exact Iff.rfl
      | ok there =>
          cases there with
          | true => exact Iff.rfl
          | false =>
              rw [load_eq, found]
              refine iff_of_false not_failsBy_ok fun fails => ?_
              cases failsBy_error_iff.1 fails

/-! ## Overriding -/

theorem not_failsBy_restyle {width limit : Except Numeral.Fault Int} :
    ¬ FailsBy (config.restyle width limit) cause := by
  simp only [restyle, failsBy_bind_iff, failsBy_mapError_iff]
  rintro (⟨fault, -, ⟨⟩⟩ | ⟨width, -, ⟨fault, -, ⟨⟩⟩ |
    ⟨limit, -, ⟨fault, -, ⟨⟩⟩ | ⟨style, -, fails⟩⟩⟩)
  exact not_failsBy_ok fails

theorem not_failsBy_overrideWidth : ¬ FailsBy (overrideWidth environment config) cause := by
  unfold overrideWidth
  split
  · exact not_failsBy_restyle
  · exact not_failsBy_ok

theorem not_failsBy_overrideLimit : ¬ FailsBy (overrideLimit environment config) cause := by
  unfold overrideLimit
  split
  · exact not_failsBy_restyle
  · exact not_failsBy_ok

theorem crashOf?_of_override {fault : Fault}
    (failed : config.override environment = (after, some fault)) : crashOf? fault ≠ some cause := by
  intro unreported
  unfold override at failed
  split at failed
  · next refused =>
      obtain ⟨-, rfl⟩ := failed
      exact not_failsBy_overrideWidth ⟨_, refused, unreported⟩
  · split at failed
    · next refused =>
        obtain ⟨-, rfl⟩ := failed
        exact not_failsBy_overrideLimit ⟨_, refused, unreported⟩
    · cases failed

theorem failsBy_loadOverridden_iff : FailsBy (loadOverridden environment tree file) cause ↔
    BreaksOff tree (selectedPath tree file) cause := by
  rw [← failsBy_loadSelected_iff, loadOverridden, failsBy_bind_iff, or_iff_left]
  rintro ⟨loaded, -, fails⟩
  split at fails
  · next fault failed => exact crashOf?_of_override failed (failsBy_error_iff.1 fails)
  · exact not_failsBy_ok fails

end Config

namespace Command

open Config

variable {α : Type} {surroundings : Surroundings} {workspace after : Workspace} {config : Config}

/-- A fault that does not break a command off has a text to report. -/
theorem exists_message_of_crashOf? {fault : Config.Fault} (reported : crashOf? fault = none)
    (listing : List Setting.Problem → List Text) :
    ∃ message, fault.message? listing = some message := by
  cases fault with
  | unreadable obstacle => cases reported
  | unnamedEntry => cases reported
  | unloadable fault =>
      cases fault with
      | malformed => cases reported
      | _ => exact ⟨_, rfl⟩
  | _ => exact ⟨_, rfl⟩

/-- The workspace after a report on the configuration. -/
def Workspace.report (workspace : Workspace) (message : Text) : Workspace :=
  { workspace with
    errors := workspace.errors ++
      Terminal.plain ("Error: Invalid configuration: ".toList ++ message ++ ['\n']) }

theorem result_rejectConfig_of_crash {fault : Config.Fault} {cause : Crash}
    (unreported : crashOf? fault = some cause) :
    (rejectConfig surroundings fault : Session α).result workspace =
      (.error (.crash cause), workspace) := by
  rw [rejectConfig, unreported]
  rfl

theorem result_rejectConfig_of_report {fault : Config.Fault} {message : Text}
    (reported : crashOf? fault = none)
    (present : fault.message? surroundings.listing = some message) :
    (rejectConfig surroundings fault : Session α).result workspace =
      (.error (.exit 1), workspace.report message) := by
  rw [rejectConfig, reported, present]
  rfl

/-- A project whose file opens a list that it does not close. -/
def brokenProject : Workspace where
  tree := { files := [([".midlfmt.yml".toList], ⟨Utf8.encode "style: [".toList, 0.0⟩)] }

example : ((loadConfig wider none).result brokenProject).1 =
    .error (.crash (.unloadable .malformed)) := by decide +kernel

end Command

end IdlFormat
