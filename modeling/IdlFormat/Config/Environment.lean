import IdlFormat.Config.Basic

/-!
# Configuration by the environment

Variables override a configuration one after the other. A variable that cannot be used stops this;
the overrides before it stay.
-/

namespace IdlFormat

/-- The variables of the environment. -/
abbrev Environment := Table Text

namespace Config

/-- The value of a variable, if it is set and not empty. -/
def valueOf? (environment : Environment) (name : String) : Option Text :=
  (Table.get? name.toList environment).filter (!·.isEmpty)

/-- The style with a width and a limit, one of which an override gives. -/
def restyle (config : Config) (width limit : Except Numeral.Fault Int) : Except Fault Config := do
  let width ← width.mapError .badNumber
  let limit ← limit.mapError .badNumber
  let style ← (Style.ofNumbers width limit).mapError (.invalid "StyleConfig")
  return { config with style }

/-- Overrides the width of a level. -/
def overrideWidth (environment : Environment) (config : Config) : Except Fault Config :=
  match valueOf? environment "MIDLFMT_INDENT_WIDTH" with
  | some text => config.restyle (Numeral.parse text) (.ok config.style.inlineLimit)
  | none => .ok config

/-- Overrides the limit for attributes on one line. -/
def overrideLimit (environment : Environment) (config : Config) : Except Fault Config :=
  match valueOf? environment "MIDLFMT_ATTRIBUTE_INLINE_LIMIT" with
  | some text => config.restyle (.ok config.style.indentWidth) (Numeral.parse text)
  | none => .ok config

/-- Overrides the settings of the log, which never fails. -/
def overrideLog (environment : Environment) (config : Config) : Config :=
  let path := (valueOf? environment "MIDLFMT_TELEMETRY_PATH").getD config.log.path
  let enabled :=
    match valueOf? environment "MIDLFMT_TELEMETRY" with
    | some ['1'] => true
    | some ['0'] => false
    | _ => config.log.enabled
  { config with log := { config.log with path, enabled } }

/-- Applies all overrides: the configuration that results, and the fault that stopped them, if there
is one. -/
def override (environment : Environment) (config : Config) : Config × Option Fault :=
  match overrideWidth environment config with
  | .error fault => (config, some fault)
  | .ok config =>
      match overrideLimit environment config with
      | .error fault => (config, some fault)
      | .ok config => (overrideLog environment config, none)

end Config

end IdlFormat
