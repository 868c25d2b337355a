import IdlFormat.Proofs.Invocation

/-!
# Layers of a configuration

The width of a level and the limit for attributes come from layers: a default, the configuration
file, a variable of the environment, and for the width an option of the call. Each layer is checked
when it is laid over those below (`Layered.over`), so a bad layer is not healed by a good one on top
of it. What a layer does is said once for the file (`givenBy_of_loadSelected`), once for each
variable (`overrideWidth_eq_ok_iff`, `overrideLimit_eq_ok_iff`) and once for the option
(`covers_style`).

A style holds the proofs of its bounds, so nothing is left to show about them where the overrides
stop half-way; what this does to the other sections is `override_frame`.
-/

namespace IdlFormat

open Setting

/-! ## Layers of a number -/

/-- What a source gives for a number: nothing at all, or something that is a number or is none. -/
abbrev Layer := Option (Option Int)

/-- The layer gives nothing, or it gives an allowed number. -/
def Sound (allowed : Int → Prop) (layer : Layer) : Prop :=
  ∀ given, layer = some given → ∃ number, given = some number ∧ allowed number

/-- What the layers of a number come to, the topmost of them first. -/
structure Layered (allowed : Int → Prop) (fallback : Int) (layers : List Layer) (number : Int) :
    Prop where
  /-- Each layer is sound, also one that another layer hides. -/
  sound : ∀ layer ∈ layers, Sound allowed layer
  /-- The topmost layer that gives something gives the number, or else it is the default. -/
  topmost : (layers.findSome? id).getD (some fallback) = some number

/-- The number comes from an allowed number that the layer gives, or else from below it. -/
def Covers (allowed : Int → Prop) (layer : Layer) (lower number : Int) : Prop :=
  match layer with
  | none => lower = number
  | some given => given = some number ∧ allowed number

variable {allowed : Int → Prop} {fallback lower number : Int} {layer : Layer}

theorem Covers.sound (covers : Covers allowed layer lower number) : Sound allowed layer := by
  cases layer with
  | none =>
      intro given absent
      cases absent
  | some given =>
      rintro _ ⟨⟩
      exact ⟨number, covers⟩

/-- A sound layer covers a number that is allowed itself. -/
theorem Sound.exists_covers (sound : Sound allowed layer) (isAllowed : allowed lower) :
    ∃ number, Covers allowed layer lower number ∧ allowed number := by
  cases layer with
  | none => exact ⟨lower, rfl, isAllowed⟩
  | some given =>
      obtain ⟨number, same, isAllowed⟩ := sound given rfl
      exact ⟨number, ⟨same, isAllowed⟩, isAllowed⟩

theorem Layered.default (allowed : Int → Prop) (fallback : Int) :
    Layered allowed fallback [] fallback :=
  ⟨by simp, rfl⟩

/-- One more layer on top. -/
theorem Layered.over {layers : List Layer} (below : Layered allowed fallback layers lower)
    (covers : Covers allowed layer lower number) :
    Layered allowed fallback (layer :: layers) number where
  sound := List.forall_mem_cons.2 ⟨covers.sound, below.sound⟩
  topmost := by
    cases layer with
    | none =>
        obtain rfl : lower = number := covers
        simpa using below.topmost
    | some given =>
        simpa using covers.1

/-! ## Checks -/

namespace Setting

namespace Checked

variable {α β : Type}

theorem within_eq_ok_iff {field : Text} {check : Checked α} {value : α} :
    check.within field = .ok value ↔ check = .ok value :=
  mapError_eq_ok_iff

theorem both_eq_ok_iff {first : Checked α} {second : Checked β} {value : α × β} :
    both first second = .ok value ↔ first = .ok value.1 ∧ second = .ok value.2 := by
  rcases value with ⟨left, right⟩
  cases first <;> cases second <;> simp [both]

theorem map_eq_ok_iff {change : α → β} {check : Checked α} {value : β} :
    check.map change = .ok value ↔ ∃ own, check = .ok own ∧ change own = value := by
  cases check <;> simp [Except.map]

end Checked

/-- The value of a field, if the value is a record that has it. -/
def Value.field? (name : String) : Value → Option Value
  | .record fields => Table.get? name.toList fields
  | _ => none

/-- The layer that a value gives by a field. -/
def Value.layerAt (value : Value) (name : String) : Layer :=
  (value.field? name).map (·.integer.toOption)

/-- A field that is checked in the same way as its default is a layer over the default. -/
theorem layered_of_fieldOr {β : Type} {check : Int → Checked β} {result : β → Int}
    (checks : ∀ own value, check own = .ok value ↔ allowed own ∧ result value = own)
    {fields : Table Value} {name : String} {value : β}
    (found : Value.fieldOr fields name (check fallback) (fun value => value.integer.bind check) =
      .ok value) :
    Layered allowed fallback [(Value.record fields).layerAt name] (result value) := by
  rw [Value.fieldOr, Checked.within_eq_ok_iff] at found
  rw [Value.layerAt, Value.field?]
  refine (Layered.default allowed fallback).over ?_
  cases given : Table.get? name.toList fields with
  | none =>
      rw [given] at found
      exact ((checks _ _).1 found).2.symm
  | some field =>
      rw [given] at found
      rcases bind_eq_ok_iff.1 found with ⟨own, read, found⟩
      rcases (checks _ _).1 found with ⟨isAllowed, same⟩
      rw [Option.map_some, read, same]
      exact ⟨rfl, isAllowed⟩

end Setting

namespace Style

/-- The number is a width that a level can have. -/
def IsWidth (number : Int) : Prop :=
  1 ≤ number ∧ number ≤ 16

theorem isWidth_indentWidth (style : Style) : IsWidth style.indentWidth :=
  ⟨Int.ofNat_le.2 style.one_le_indentWidth, Int.ofNat_le.2 style.indentWidth_le_sixteen⟩

theorem inlineLimit_positive (style : Style) : 0 < (style.inlineLimit : Int) :=
  Int.natCast_pos.2 style.inlineLimit_pos

theorem checkWidth_eq_ok_iff {width : { width : Nat // 1 ≤ width ∧ width ≤ 16 }} :
    checkWidth number = .ok width ↔ IsWidth number ∧ (width.1 : Int) = number := by
  rcases width with ⟨width, valid⟩
  unfold checkWidth IsWidth
  split
  · simp only [Except.ok.injEq, Subtype.mk.injEq]
    omega
  · simp only [Checked.fail, reduceCtorEq, false_iff]
    omega

theorem checkLimit_eq_ok_iff {limit : { limit : Nat // 0 < limit }} :
    checkLimit number = .ok limit ↔ 0 < number ∧ (limit.1 : Int) = number := by
  rcases limit with ⟨limit, valid⟩
  unfold checkLimit
  split
  · simp only [Except.ok.injEq, Subtype.mk.injEq]
    omega
  · simp only [Checked.fail, reduceCtorEq, false_iff]
    omega

theorem ofChecked_eq_ok_iff {width : Checked { width : Nat // 1 ≤ width ∧ width ≤ 16 }}
    {limit : Checked { limit : Nat // 0 < limit }} {style : Style} :
    ofChecked width limit = .ok style ↔
      width = .ok ⟨style.indentWidth, style.one_le_indentWidth, style.indentWidth_le_sixteen⟩ ∧
        limit = .ok ⟨style.inlineLimit, style.inlineLimit_pos⟩ := by
  rcases style with ⟨indentWidth, inlineLimit, least, most, positive⟩
  cases width <;> cases limit <;> simp [ofChecked, Checked.both, Except.map, Subtype.ext_iff]

theorem ofNumbers_eq_ok_iff {width limit : Int} {style : Style} :
    ofNumbers width limit = .ok style ↔ style.indentWidth = width ∧ style.inlineLimit = limit := by
  rw [ofNumbers, ofChecked_eq_ok_iff, Checked.within_eq_ok_iff, Checked.within_eq_ok_iff,
    checkWidth_eq_ok_iff, checkLimit_eq_ok_iff]
  constructor
  · rintro ⟨⟨-, width⟩, -, limit⟩
    exact ⟨width, limit⟩
  · rintro ⟨rfl, rfl⟩
    exact ⟨⟨style.isWidth_indentWidth, rfl⟩, style.inlineLimit_positive, rfl⟩

theorem exists_of_numbers {width limit : Int} (isWidth : IsWidth width) (positive : 0 < limit) :
    ∃ style : Style, (style.indentWidth : Int) = width ∧ (style.inlineLimit : Int) = limit := by
  rcases isWidth with ⟨least, most⟩
  refine ⟨⟨width.toNat, limit.toNat, by omega, by omega, by omega⟩, ?_, ?_⟩
  · exact Int.toNat_of_nonneg (by omega)
  · exact Int.toNat_of_nonneg (by omega)

/-- The numbers of the style are those of a source, by the names of its fields, or the defaults. -/
def GivenBy (source : String → Layer) (style : Style) : Prop :=
  Layered IsWidth 4 [source "indent_width"] style.indentWidth ∧
    Layered (0 < ·) 60 [source "attribute_inline_limit"] style.inlineLimit

theorem givenBy_nothing : GivenBy (fun _ => none) {} :=
  ⟨(Layered.default IsWidth 4).over rfl, (Layered.default (0 < ·) 60).over rfl⟩

theorem givenBy_of_ofValue {value : Value} {style : Style} (found : ofValue value = .ok style) :
    GivenBy value.layerAt style := by
  cases value with
  | record fields =>
      rcases ofChecked_eq_ok_iff.1 found with ⟨width, limit⟩
      exact ⟨layered_of_fieldOr (fun _ _ => checkWidth_eq_ok_iff) width,
        layered_of_fieldOr (fun _ _ => checkLimit_eq_ok_iff) limit⟩
  | _ => cases found

end Style

/-! ## The selected file -/

namespace Config

open Style (IsWidth)

variable {config loaded after : Config} {environment : Environment} {tree : FileTree} {path : Path}

/-- The layers that a value gives by the fields of its style. -/
def valueLayer (value : Value) (name : String) : Layer :=
  (value.field? "style").bind (·.layerAt name)

theorem givenBy_of_ofFields {fields : Table Value} (found : ofFields fields = .ok loaded) :
    loaded.style.GivenBy (valueLayer (.record fields)) := by
  rcases Checked.map_eq_ok_iff.1 found with ⟨⟨style, filter, log⟩, parts, rfl⟩
  have own := (Checked.both_eq_ok_iff.1 parts).1
  rw [Value.fieldOr, Checked.within_eq_ok_iff] at own
  unfold valueLayer
  rw [Value.field?]
  cases given : Table.get? "style".toList fields with
  | none =>
      rw [given] at own
      obtain rfl := Except.ok.inj own
      exact Style.givenBy_nothing
  | some value =>
      rw [given] at own
      exact Style.givenBy_of_ofValue own

theorem givenBy_of_ofDocument {document : Yaml.Node}
    (found : ofDocument path document = .ok loaded) :
    loaded.style.GivenBy (valueLayer document.value) := by
  unfold ofDocument at found
  split at found
  · next empty =>
      obtain rfl := Except.ok.inj found
      rw [empty]
      exact Style.givenBy_nothing
  · next fields mapping =>
      rw [mapping]
      split at found
      · exact givenBy_of_ofFields (mapError_eq_ok_iff.1 found)
      · cases found
  · cases found

/-- The path of the configuration file: the one that was asked for, or else that of the project. -/
def selectedPath (tree : FileTree) : Option Text → Path
  | some text => Path.ofText text
  | none => (⟨.root, tree.current⟩ : Path).child fileName

/-- The configuration before anything overrides it. -/
def loadSelected (tree : FileTree) : Option Text → Except Fault Config
  | some text => load tree (Path.ofText text)
  | none => loadProject tree ⟨.root, tree.current⟩

/-- The document in the file at a path. -/
def readDocument (tree : FileTree) (path : Path) : Except Fault Yaml.Node := do
  let bytes ← (tree.read path).mapError .unreadable
  let text ← (Utf8.decodeStream bytes).mapError .undecodable
  (Yaml.load text.normalizeBreaks).mapError .unloadable

/-- The layer that the selected file gives, if there is a document in it. -/
def fileLayer (tree : FileTree) (file : Option Text) (name : String) : Layer :=
  (readDocument tree (selectedPath tree file)).toOption.bind (valueLayer ·.value name)

theorem load_eq (tree : FileTree) (path : Path) :
    load tree path =
      match tree.hasEntry path with
      | .error obstacle => .error (.unreadable obstacle)
      | .ok false => .error (.notFound path.toText)
      | .ok true => readDocument tree path >>= ofDocument path := by
  unfold load
  cases tree.hasEntry path with
  | error obstacle => rfl
  | ok there =>
      cases there with
      | false => rfl
      | true =>
          rw [readDocument]
          simp only [bind_assoc]
          rfl

theorem hasEntry_of_read {bytes : Bytes} (opened : tree.read path = .ok bytes) :
    tree.hasEntry path = .ok true := by
  rcases bind_eq_ok_iff.1 opened with ⟨place, leads, opened⟩
  rcases bind_eq_ok_iff.1 opened with ⟨file, opened, -⟩
  rcases bind_eq_ok_iff.1 opened with ⟨entry, there, -⟩
  simp [FileTree.hasEntry, leads, Except.bind, there]

theorem hasEntry_of_readDocument {document : Yaml.Node}
    (present : readDocument tree path = .ok document) : tree.hasEntry path = .ok true := by
  rcases bind_eq_ok_iff.1 present with ⟨bytes, opened, -⟩
  exact hasEntry_of_read (mapError_eq_ok_iff.1 opened)

theorem load_eq_ok_iff : load tree path = .ok loaded ↔
    ∃ document, readDocument tree path = .ok document ∧ ofDocument path document = .ok loaded := by
  rw [load_eq, ← bind_eq_ok_iff]
  constructor
  · intro found
    split at found
    · cases found
    · cases found
    · exact found
  · intro found
    rcases bind_eq_ok_iff.1 found with ⟨document, read, -⟩
    rw [hasEntry_of_readDocument read]
    exact found

/-- A configuration is that of the document in the selected file, or the default if a project has no
such file. -/
theorem loadSelected_cases {file : Option Text} (found : loadSelected tree file = .ok loaded) :
    (∃ document, readDocument tree (selectedPath tree file) = .ok document ∧
      ofDocument (selectedPath tree file) document = .ok loaded) ∨
    tree.hasEntry (selectedPath tree file) = .ok false ∧ loaded = standard := by
  cases file with
  | some text => exact .inl (load_eq_ok_iff.1 found)
  | none =>
      rcases bind_eq_ok_iff.1 found with ⟨there, looked, found⟩
      cases there with
      | true => exact .inl (load_eq_ok_iff.1 found)
      | false => exact .inr ⟨mapError_eq_ok_iff.1 looked, (Except.ok.inj found).symm⟩

theorem givenBy_of_loadSelected {file : Option Text} (found : loadSelected tree file = .ok loaded) :
    loaded.style.GivenBy (fileLayer tree file) := by
  unfold fileLayer
  rcases loadSelected_cases found with ⟨document, present, described⟩ | ⟨missing, rfl⟩
  · rw [present]
    exact givenBy_of_ofDocument described
  · cases present : readDocument tree (selectedPath tree file) with
    | error fault => exact Style.givenBy_nothing
    | ok document =>
        rw [hasEntry_of_readDocument present] at missing
        cases missing

/-! ## The environment -/

/-- The layer of a number that a variable gives. -/
def variableLayer (environment : Environment) (name : String) : Layer :=
  (valueOf? environment name).map fun text => (Numeral.parse text).toOption

/-- A style is made of two numbers just if it can be, so the checks of both are in the style. -/
theorem restyle_eq_ok_iff {width limit : Except Numeral.Fault Int} :
    config.restyle width limit = .ok after ↔ ∃ style, after = { config with style } ∧
      width = .ok style.indentWidth ∧ limit = .ok style.inlineLimit := by
  rw [restyle]
  simp only [bind_eq_ok_iff, mapError_eq_ok_iff, Style.ofNumbers_eq_ok_iff]
  constructor
  · rintro ⟨width, rfl, limit, rfl, style, ⟨rfl, rfl⟩, same⟩
    exact ⟨style, (Except.ok.inj same).symm, rfl, rfl⟩
  · rintro ⟨style, rfl, rfl, rfl⟩
    exact ⟨_, rfl, _, rfl, style, ⟨rfl, rfl⟩, rfl⟩

theorem restyle_own (config : Config) :
    config.restyle (.ok config.style.indentWidth) (.ok config.style.inlineLimit) = .ok config :=
  restyle_eq_ok_iff.2 ⟨config.style, rfl, rfl, rfl⟩

theorem overrideWidth_eq_ok_iff : overrideWidth environment config = .ok after ↔
    ∃ style, after = { config with style } ∧
      Covers IsWidth (variableLayer environment "MIDLFMT_INDENT_WIDTH") config.style.indentWidth
        style.indentWidth ∧
      config.style.inlineLimit = style.inlineLimit := by
  rw [overrideWidth, variableLayer]
  split
  · next text given =>
      rw [restyle_eq_ok_iff, given]
      simp only [Option.map_some, Covers, toOption_eq_some_iff, Style.isWidth_indentWidth, and_true,
        Except.ok.injEq, Int.ofNat_inj]
  · next absent =>
      -- an unset variable changes as much as one that gives the number there is
      rw [← restyle_own config, restyle_eq_ok_iff, absent]
      simp only [Option.map_none, Covers, Except.ok.injEq, Int.ofNat_inj]

theorem overrideLimit_eq_ok_iff : overrideLimit environment config = .ok after ↔
    ∃ style, after = { config with style } ∧
      config.style.indentWidth = style.indentWidth ∧
      Covers (0 < ·) (variableLayer environment "MIDLFMT_ATTRIBUTE_INLINE_LIMIT")
        config.style.inlineLimit style.inlineLimit := by
  rw [overrideLimit, variableLayer]
  split
  · next text given =>
      rw [restyle_eq_ok_iff, given]
      simp only [Option.map_some, Covers, toOption_eq_some_iff, Style.inlineLimit_positive,
        and_true, Except.ok.injEq, Int.ofNat_inj]
  · next absent =>
      rw [← restyle_own config, restyle_eq_ok_iff, absent]
      simp only [Option.map_none, Covers, Except.ok.injEq, Int.ofNat_inj]

theorem exists_overrideWidth_iff :
    (∃ after, overrideWidth environment config = .ok after) ↔
      Sound IsWidth (variableLayer environment "MIDLFMT_INDENT_WIDTH") := by
  simp only [overrideWidth_eq_ok_iff]
  constructor
  · rintro ⟨after, style, -, covers, -⟩
    exact covers.sound
  · intro sound
    obtain ⟨width, covers, isWidth⟩ := sound.exists_covers config.style.isWidth_indentWidth
    obtain ⟨style, rfl, limit⟩ :=
      Style.exists_of_numbers isWidth config.style.inlineLimit_positive
    exact ⟨_, style, rfl, covers, Int.ofNat_inj.1 limit.symm⟩

theorem exists_overrideLimit_iff :
    (∃ after, overrideLimit environment config = .ok after) ↔
      Sound (0 < ·) (variableLayer environment "MIDLFMT_ATTRIBUTE_INLINE_LIMIT") := by
  simp only [overrideLimit_eq_ok_iff]
  constructor
  · rintro ⟨after, style, -, -, covers⟩
    exact covers.sound
  · intro sound
    obtain ⟨limit, covers, positive⟩ := sound.exists_covers config.style.inlineLimit_positive
    obtain ⟨style, width, rfl⟩ :=
      Style.exists_of_numbers config.style.isWidth_indentWidth positive
    exact ⟨_, style, rfl, Int.ofNat_inj.1 width.symm, covers⟩

/-- Overrides do not touch the filter, and the log only if none of them fails. -/
theorem override_frame (environment : Environment) (config : Config) :
    (config.override environment).1.filter = config.filter ∧
      ((config.override environment).2.isSome →
        (config.override environment).1.log = config.log) := by
  rw [override]
  split
  · exact ⟨rfl, fun _ => rfl⟩
  · next between widened =>
      rcases overrideWidth_eq_ok_iff.1 widened with ⟨style, rfl, -⟩
      split
      · exact ⟨rfl, fun _ => rfl⟩
      · next styled limited =>
          rcases overrideLimit_eq_ok_iff.1 limited with ⟨style, rfl, -⟩
          exact ⟨rfl, fun failed => by cases failed⟩

theorem override_eq_none_iff : config.override environment = (after, none) ↔
    ∃ between styled, overrideWidth environment config = .ok between ∧
      overrideLimit environment between = .ok styled ∧ overrideLog environment styled = after := by
  rw [override]
  split
  · next fault refused => simp [refused]
  · next between widened =>
      split
      · next fault refused => simp [widened, refused]
      · next styled limited => simp [widened, limited]

/-! ## All layers -/

/-- The configuration of a command, if none of its layers is faulty. -/
def loadOverridden (environment : Environment) (tree : FileTree) (file : Option Text) :
    Except Fault Config := do
  let loaded ← loadSelected tree file
  match loaded.override environment with
  | (_, some fault) => throw fault
  | (config, none) => return config

variable {file : Option Text}

theorem loadOverridden_eq_ok_iff : loadOverridden environment tree file = .ok after ↔
    ∃ loaded, loadSelected tree file = .ok loaded ∧
      loaded.override environment = (after, none) := by
  rw [loadOverridden, bind_eq_ok_iff]
  refine exists_congr fun loaded => and_congr_right fun _ => ?_
  split
  · next fault refused => simp [refused, throw, throwThe, MonadExceptOf.throw]
  · next own taken => simp [taken, pure, Except.pure]

theorem exists_loadOverridden_iff :
    (∃ config, loadOverridden environment tree file = .ok config) ↔
      (∃ loaded, loadSelected tree file = .ok loaded) ∧
        Sound IsWidth (variableLayer environment "MIDLFMT_INDENT_WIDTH") ∧
        Sound (0 < ·) (variableLayer environment "MIDLFMT_ATTRIBUTE_INLINE_LIMIT") := by
  simp only [loadOverridden_eq_ok_iff, override_eq_none_iff]
  constructor
  · rintro ⟨config, loaded, found, between, styled, widened, limited, -⟩
    exact ⟨⟨loaded, found⟩, exists_overrideWidth_iff.1 ⟨between, widened⟩,
      exists_overrideLimit_iff.1 ⟨styled, limited⟩⟩
  · rintro ⟨⟨loaded, found⟩, width, limit⟩
    obtain ⟨between, widened⟩ := exists_overrideWidth_iff.2 width
    obtain ⟨styled, limited⟩ := exists_overrideLimit_iff.2 limit
    exact ⟨_, loaded, found, between, styled, widened, limited, rfl⟩

theorem layered_of_loadOverridden (found : loadOverridden environment tree file = .ok config) :
    Layered IsWidth 4
        [variableLayer environment "MIDLFMT_INDENT_WIDTH", fileLayer tree file "indent_width"]
        config.style.indentWidth ∧
      Layered (0 < ·) 60
        [variableLayer environment "MIDLFMT_ATTRIBUTE_INLINE_LIMIT",
          fileLayer tree file "attribute_inline_limit"]
        config.style.inlineLimit := by
  obtain ⟨loaded, selected, overridden⟩ := loadOverridden_eq_ok_iff.1 found
  obtain ⟨between, styled, widened, limited, rfl⟩ := override_eq_none_iff.1 overridden
  obtain ⟨style, rfl, width, keptLimit⟩ := overrideWidth_eq_ok_iff.1 widened
  obtain ⟨last, rfl, keptWidth, limit⟩ := overrideLimit_eq_ok_iff.1 limited
  obtain ⟨fileWidth, fileLimit⟩ := givenBy_of_loadSelected selected
  exact ⟨fileWidth.over (keptWidth ▸ width), fileLimit.over (keptLimit ▸ limit)⟩

end Config

namespace Command

open Config Style

variable {surroundings : Surroundings} {workspace after : Workspace} {config : Config}

theorem result_loadConfig (surroundings : Surroundings) (file : Option Text)
    (workspace : Workspace) :
    (loadConfig surroundings file).result workspace =
      match loadOverridden surroundings.environment workspace.tree file with
      | .error fault => (rejectConfig surroundings fault : Session Config).result workspace
      | .ok config => (.ok config, workspace) := by
  have selected : loadConfig surroundings file = (do
      match loadSelected (← Session.tree) file with
      | .error fault => rejectConfig surroundings fault
      | .ok loaded =>
          match loaded.override surroundings.environment with
          | (_, some fault) => rejectConfig surroundings fault
          | (config, none) => return config) := by
    cases file <;> rfl
  have shown : Session.tree.result workspace = (.ok workspace.tree, workspace) := rfl
  rw [selected, Session.result_bind, shown, loadOverridden]
  simp only []
  cases loadSelected workspace.tree file with
  | error fault => rfl
  | ok loaded =>
      rcases taken : loaded.override surroundings.environment with ⟨config, fault?⟩
      simp only [bind, Except.bind, taken]
      cases fault? <;> rfl

theorem returns_loadConfig_iff {file : Option Text} :
    (loadConfig surroundings file).Returns workspace config after ↔
      loadOverridden surroundings.environment workspace.tree file = .ok config ∧
        workspace = after := by
  rw [Session.Returns, result_loadConfig]
  split
  · next fault failed =>
      simp only [failed, reduceCtorEq, false_and, iff_false]
      exact Session.not_returns_rejectConfig
  · next own found => simp [found]

/-- The layer that the option of a call gives. -/
def optionLayer (call : FormatCall) : Layer :=
  call.width.map fun width => some (width.1 : Int)

theorem covers_style (call : FormatCall) (config : Config) :
    Covers IsWidth (optionLayer call) config.style.indentWidth (call.style config).indentWidth ∧
      (call.style config).inlineLimit = config.style.inlineLimit := by
  unfold optionLayer FormatCall.style
  cases call.width with
  | none => exact ⟨rfl, rfl⟩
  | some width =>
      refine ⟨⟨rfl, ?_⟩, rfl⟩
      exact Style.isWidth_indentWidth _

/-- A project whose file asks for levels of two spaces. -/
def narrowProject : Workspace where
  tree := { files :=
    [([".midlfmt.yml".toList], ⟨Utf8.encode "style: \x7bindent_width: 2\x7d".toList, 0.0⟩)] }

/-- Six spaces are asked for around a command. -/
def wider : Surroundings where
  now := 0.0
  environment := [("MIDLFMT_INDENT_WIDTH".toList, " 6 ".toList)]

/-- A call that asks for eight spaces. -/
def widestCall : FormatCall where
  paths := []
  config := none
  inPlace := false
  check := false
  diff := false
  width := some ⟨8, by decide⟩

end Command

end IdlFormat
