import FormHarvest.Encoding.Utf8
import FormHarvest.Json.Reader
import FormHarvest.Json.Writer
import FormHarvest.Settings.Update

namespace FormHarvest

/-- A text with every line end as a line feed: a carriage return, alone or before a line feed, is
one. -/
def plainLineEnds : List Char → List Char
  | '\r' :: '\n' :: rest => '\n' :: plainLineEnds rest
  | '\r' :: rest => '\n' :: plainLineEnds rest
  | c :: rest => c :: plainLineEnds rest
  | [] => []

namespace Settings

/-- The values in the bytes of a settings file. -/
def readFile (path : Path) (content : ByteArray) (limit : Nat := Json.maxDepth) :
    Except SettingsFault (List (String × Json)) :=
  match decodeUtf8 content.toList with
  | .error _ => .error .notUtf8
  | .ok text =>
    let text := plainLineEnds text
    match Json.read text limit with
    | .ok (.object fields) => .ok fields
    | .ok _ => .error (.notObject path)
    | .error (.malformed cause left) => .error (.unreadable path (cause.describe text left))
    | .error .tooManyDigits => .error .tooManyDigits
    | .error .tooDeep => .error .tooDeep

/-- The text of a settings file. -/
def written (settings : Settings) : String := settings.toJson.write (.lines 4)

end Settings

namespace SettingsAction

/-- Does something with files. -/
def onFiles {α : Type} (action : FileAction α) : SettingsAction (Except FileFault α) := do
  let state ← get
  let (outcome, system) := action.run state.system
  MonadState.set { state with system }
  return outcome

/-- Does something with files. A refusal goes to the log. -/
def unlessRefused {α : Type} (level : LogLevel) (complaint : String) (action : FileAction α) :
    SettingsAction (Option α) := do
  match ← onFiles action with
  | .ok value => return some value
  | .error fault =>
    if fault.isRefusal then
      note level s!"{complaint}: {fault.message}"
      return none
    else throw (.file fault)

/-- Reads the settings from their file, with at most `limit` levels of nesting in it. False when there
is no file: then they stay what they are. -/
def load (file : Option Path) (limit : Nat := Json.maxDepth) : SettingsAction Bool := do
  let found ←
    match file with
    | none => pure none
    | some path =>
      match ← onFiles (FileAction.kind? path) with
      | .ok kind => pure (kind.map fun _ => path)
      | .error fault => throw (.file fault)
  match found with
  | none =>
    note .info "Config file doesn't exist, using defaults"
    return false
  | some path =>
    match ← onFiles (FileAction.inspect (·.read path)) with
    | .error fault => throw (.unreadable path fault.message)
    | .ok content =>
      update (.object (← Settings.readFile path content limit))
      note .info "Configuration loaded successfully"
      return true

/-- What is said when the settings cannot be saved. -/
def notSaved : String := "Error saving configuration"

/-- Writes the settings to a path; a file that is there already is kept under another name. -/
def saveTo (path : Path) : SettingsAction Bool := do
  let prepare : FileAction (Option FileKind) := do
    FileAction.ensureFolders path.parent
    FileAction.kind? path
  let some known ← unlessRefused .error notSaved prepare | return false
  if known.isSome then
    match path.withEnding? ".json.bak" with
    | none => throw .nameless
    | some backup =>
      let some old ← unlessRefused .error notSaved (FileAction.kind? backup) | return false
      if old.isSome then
        discard <| unlessRefused .warning "Could not remove existing backup" (FileAction.remove backup)
      discard <| unlessRefused .warning "Could not create backup" (FileAction.move path backup)
  let text := (← get).settings.written
  let some _ ← unlessRefused .error notSaved (FileAction.write path text.toUTF8) | return false
  note .info "Configuration saved successfully"
  return true

/-- Writes the settings to their file. False when they have none or it cannot be written. -/
def save (file : Option Path) : SettingsAction Bool := do
  match file with
  | none => return false
  | some path => saveTo path

end SettingsAction

end FormHarvest
