import FormHarvest.Extraction.Extractor
import FormHarvest.Files.Discovery
import FormHarvest.Php.Parser
import FormHarvest.Settings.Fault

namespace FormHarvest

/-- The settings of a run. What is needed late may be of a wrong kind: the run then goes as far as
it comes without it. Without listed domains all are wanted. How deep sources and their trees may be
nested depends on where the program runs. -/
structure RunSettings where
  locales : List Json
  search : Search
  domains : Except ValueFault (Option (List String))
  ignoredDomains : Except ValueFault (List String)
  customFields : List String
  convention : ChoiceConvention
  strict : Bool
  outputFolder : Json
  format : Json
  sourceLanguage : Json
  withDate : Bool
  withPlaces : Bool
  maxNesting : Nat := FormHarvest.maxNesting
  maxDepth : Nat := Extractor.usualDepth

/-- The extractor of a run. A strict one gives up at the first value that cannot be read; otherwise
such values go to the log of the run. -/
def RunSettings.extractor (settings : RunSettings) : Extractor :=
  let extractor : Extractor :=
    { convention := settings.convention
      policy := if settings.strict then some .abort else none
      logger := if settings.strict then none else some .pipeline
      maxDepth := settings.maxDepth }
  extractor.addFields settings.customFields

namespace Settings

/-- Which files a run looks for. -/
def search (settings : Settings) : Search where
  scanned := .readJoined (settings.value .scanned)
  excludedFolders := .read .namesNoPlace (settings.value .excludedFolders)
  excludedNames := .read .namesNoPlace (settings.value .excludedNames)
  endings := .read .noLetters (settings.value .endings)

/-- The settings of a run. Before it starts, the convention must be known, and what lists further
options and languages must be lists. -/
def forRun (settings : Settings) : Except SettingsFault RunSettings := do
  match (settings.value .convention).text?.bind ChoiceConvention.ofName? with
  | none => throw (.unsupportedConvention (settings.value .convention))
  | some convention =>
    let customFields ← (settings.value .customFields).listed.mapError .value
    let locales ← (settings.value .locales).listed.mapError .value
    return {
      locales
      search := settings.search
      domains := (settings.value .domains).listedKeys.map fun keys =>
        if keys.isEmpty then none else some (keys.filterMap Json.text?)
      ignoredDomains := (settings.value .ignoredDomains).listedKeys.map (·.filterMap Json.text?)
      customFields := customFields.filterMap Json.text?
      convention
      strict := (settings.value .strict).isTrue
      outputFolder := settings.value .outputFolder
      format := settings.value .format
      sourceLanguage := settings.value .sourceLanguage
      withDate := (settings.value .withDate).isTrue
      withPlaces := (settings.value .withPlaces).isTrue }

end Settings

end FormHarvest
