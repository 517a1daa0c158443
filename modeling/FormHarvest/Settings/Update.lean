import FormHarvest.Files.FileSystem
import FormHarvest.Settings.Group

namespace FormHarvest

/-- What actions on settings work with: the settings, the files, and the log. -/
structure SettingsState where
  settings : Settings := .initial
  system : FileSystem
  log : List LogRecord := []
deriving Inhabited

/-- What changes settings and may fail on the way; what was done before stays done. -/
abbrev SettingsAction := ExceptT SettingsFault (StateM SettingsState)

namespace Settings

/-- Checks the settings that name one of a few things: first the format, then the convention for
choices. -/
def check (settings : Settings) : Except SettingsFault Unit :=
  if ((settings.value .format).text?.bind OutputFormat.ofName?).isNone then
    .error (.unsupportedFormat (settings.value .format))
  else if ((settings.value .convention).text?.bind ChoiceConvention.ofName?).isNone then
    .error (.unsupportedConvention (settings.value .convention))
  else .ok ()

end Settings

namespace SettingsAction

/-- Writes records to the log. -/
def record (records : List LogRecord) : SettingsAction Unit :=
  modify fun state => { state with log := state.log ++ records }

/-- Writes one line about settings to the log. -/
def note (level : LogLevel) (text : String) : SettingsAction Unit := record [⟨level, .settings, text⟩]

/-- Changes the settings. -/
def change (edit : Settings → Settings) : SettingsAction Unit :=
  modify fun state => { state with settings := edit state.settings }

/-- Checks the settings. -/
def validate : SettingsAction Unit := do (← get).settings.check

/-- Takes over what is given for one group, if anything is. -/
def updateGroup (given : Json) (group : SettingGroup) : SettingsAction Unit := do
  match group.givenIn? given with
  | .error fault => throw (.group fault)
  | .ok none => return
  | .ok (some value) =>
    let (fields, log) := group.read value
    record log
    match fields with
    | .ok fields => change (·.setGroup group fields)
    | .error fault => throw (.group fault)

/-- Takes over what is given for the groups, one after the other, and checks the settings. -/
def update (given : Json) : SettingsAction Unit := do
  SettingGroup.all.forM (updateGroup given)
  validate

/-- Changes one setting by its full name. -/
def set (key : String) (value : Json) : SettingsAction Unit :=
  match Setting.ofKey? key with
  | some setting => change (·.set setting value)
  | none => throw (.unknown key)

/-- Takes all settings back to what they are when nothing is said about them. -/
def reset : SettingsAction Unit := do
  change fun _ => .initial
  note .info "Configuration reset to defaults"

end SettingsAction

end FormHarvest
