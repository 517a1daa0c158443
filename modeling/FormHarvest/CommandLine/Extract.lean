import FormHarvest.CommandLine.Help
import FormHarvest.CommandLine.Reading
import FormHarvest.Run.Basic
import FormHarvest.Settings.Store

namespace FormHarvest

/-- What the command that extracts messages is asked for. -/
structure ExtractRequest where
  locales : List String := []
  folders : List String := []
  excludedFolders : List String := []
  excludedNames : List String := []
  domains : List String := []
  ignoredDomains : List String := []
  outputFolder : Option String := none
  format : Option String := none
  config : Option String := none
  customFields : List String := []
  legacyChoices : Bool := false
  strict : Bool := false
  dryRun : Bool := false
  report : Option String := none
  withPlaces : Option Bool := none
  verbose : Bool := false

namespace ExtractRequest

/-- The options of the command in the order of its help. -/
def options : List (CommandOption ExtractRequest) :=
  [⟨["-h", "--help"], .answer (linesText (extractUsage ++ extractHelp))⟩,
    ⟨["--dir", "-d"], .take [] fun value asked => { asked with folders := asked.folders ++ [value] }⟩,
    ⟨["--exclude-dir"], .take [] fun value asked =>
      { asked with excludedFolders := asked.excludedFolders ++ [value] }⟩,
    ⟨["--exclude-name"], .take [] fun value asked =>
      { asked with excludedNames := asked.excludedNames ++ [value] }⟩,
    ⟨["--domain"], .take [] fun value asked => { asked with domains := asked.domains ++ [value] }⟩,
    ⟨["--ignore-domain"], .take [] fun value asked =>
      { asked with ignoredDomains := asked.ignoredDomains ++ [value] }⟩,
    ⟨["--output-dir", "-o"], .take [] fun value asked => { asked with outputFolder := some value }⟩,
    ⟨["--output-format"], .take (OutputFormat.all.map OutputFormat.name) fun value asked =>
      { asked with format := some value }⟩,
    ⟨["--config", "-c"], .take [] fun value asked => { asked with config := some value }⟩,
    ⟨["--custom-field"], .take [] fun value asked =>
      { asked with customFields := asked.customFields ++ [value] }⟩,
    ⟨["--legacy-choices"], .change fun _ asked => { asked with legacyChoices := true }⟩,
    ⟨["--strict"], .change fun _ asked => { asked with strict := true }⟩,
    ⟨["--dry-run"], .change fun _ asked => { asked with dryRun := true }⟩,
    ⟨["--report"], .take [] fun value asked => { asked with report := some value }⟩,
    ⟨["--add-filerefs", "--no-add-filerefs"], .change fun name asked =>
      { asked with withPlaces := some (name == "--add-filerefs") }⟩,
    ⟨["--verbose", "-v"], .change fun _ asked => { asked with verbose := true }⟩]

/-- How the command is read. Words that are no options are languages. -/
def grammar : CommandGrammar ExtractRequest where
  options := options
  rule := .together
  takeOperands words asked := { asked with locales := words }

/-- A name that is given and not empty. -/
def given? (name : Option String) : Option String := name.filter (· != "")

/-- Puts texts in place of a setting, if there are any. -/
def replaced (setting : Setting) (texts : List String) (settings : Settings) : Settings :=
  if texts.isEmpty then settings else settings.set setting (Json.ofTexts texts)

/-- Adds texts to a setting, if there are any. -/
def extended (setting : Setting) (texts : List String) (settings : Settings) :
    Except SettingsFault Settings :=
  if texts.isEmpty then .ok settings
  else
    match settings.value setting with
    | .list items => .ok (settings.set setting (.list (items ++ texts.map .string)))
    | _ => .error (.notExtended setting)

/-- Puts a value in place of a setting, if there is one. -/
def changed (setting : Setting) (value : Option Json) (settings : Settings) : Settings :=
  match value with
  | some value => settings.set setting value
  | none => settings

/-- The settings with what the command line says in place of what they were, or besides it. -/
def apply (asked : ExtractRequest) (settings : Settings) : Except SettingsFault Settings := do
  let settings := replaced .scanned asked.folders (replaced .locales asked.locales settings)
  let settings ← extended .excludedFolders asked.excludedFolders settings
  let settings ← extended .excludedNames asked.excludedNames settings
  let settings := replaced .domains asked.domains settings
  let settings ← extended .ignoredDomains asked.ignoredDomains settings
  let settings ← extended .customFields asked.customFields settings
  let convention := if asked.legacyChoices then some ChoiceConvention.legacy.name else none
  return settings
    |> changed .convention (convention.map .string)
    |> changed .strict (if asked.strict then some (.bool true) else none)
    |> changed .outputFolder ((given? asked.outputFolder).map .string)
    |> changed .format ((given? asked.format).map .string)
    |> changed .withPlaces (asked.withPlaces.map .bool)

/-- The settings of the run that the command asks for; none when the settings file it names is not
there. -/
def prepare (asked : ExtractRequest) : SettingsAction (Option RunSettings) := do
  if let some name := given? asked.config then
    if !(← SettingsAction.load (some (Path.ofText name))) then return none
  let settings ← asked.apply (← get).settings
  SettingsAction.change fun _ => settings
  SettingsAction.validate
  return some (← settings.forRun)

end ExtractRequest

/-- How far the whole has come in percent, with the fraction cut off. Both the share and its product
with a hundred are rounded to binary fractions on the way. -/
def percent (current total : Nat) : Nat :=
  let share := Double.ofRatio false current total
  let product := Double.ofRatio false (100 * share.units) Double.unitsInOne
  product.units / Double.unitsInOne

/-- The line that shows how far a run has got. It goes over the one before. -/
def Progress.text (progress : Progress) : String :=
  let path := progress.path.text.toList
  let shown := path.drop (path.length - 50)
  let filled := String.ofList (shown ++ List.replicate (50 - shown.length) ' ')
  let share := percent progress.current progress.total
  s!"\rProgress: [{progress.current}/{progress.total}] {share}% - {filled}"

/-- A line of one character. -/
def rule (c : Char) (length : Nat) : String := String.ofList (List.replicate length c)

namespace RunOutcome

/-- The lines that tell what a run has counted. -/
def statLines (run : Run) : List String :=
  let report := run.report
  let counts := ["", "Statistics:", s!"  Files:       {report.totalFiles}",
    s!"  Messages:    {run.catalogue.size}", s!"  Skipped:     {report.totalSkipped}",
    s!"  Diagnostics: {report.totalDiagnostics}"]
  let domains := String.intercalate ", " run.outputDomains
  if run.outputDomains.isEmpty then counts else counts ++ [s!"  Domains:     {domains}"]

/-- The lines that tell how a run ended. -/
def lines (outcome : RunOutcome) (run : Run) : List String :=
  let told :=
    if outcome.isSuccess then
      ["SUCCESS", outcome.message] ++ statLines run
        ++ (outcome.paths?.getD []).map fun path => "  -> " ++ path.text
    else
      ["FAILED", outcome.message]
        ++ ((outcome.error?.filter (· != outcome.message)).map ("Details: " ++ ·)).toList
  ["", rule '=' 60] ++ told ++ [rule '=' 60]

end RunOutcome

end FormHarvest
