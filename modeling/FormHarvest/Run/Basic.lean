import FormHarvest.Encoding.Source
import FormHarvest.Php.Parser
import FormHarvest.Report.Basic
import FormHarvest.Run.Outcome
import FormHarvest.Run.Settings

namespace FormHarvest

/-- A request to stop: when a file is about to be extracted, or later, after so many of its nodes
were visited, or when so many files are done with. Files count from one. -/
inductive StopRequest where
  | before (file : Nat)
  | within (file visits : Nat)
  | behind (files : Nat)
deriving DecidableEq

/-- What a run is asked to do, with the moment that goes into dated files and with what recognises
the encodings of sources. -/
structure RunRequest where
  settings : RunSettings
  moment : String
  dryRun : Bool := false
  stop : Option StopRequest := none
  detector : EncodingDetector := .byMark

/-- How far a run has got: the file it is at, counted from one. -/
structure Progress where
  current : Nat
  total : Nat
  path : Path
deriving DecidableEq

/-- Where a run stands. -/
structure Run where
  system : FileSystem
  report : Report
  stage : RunStage := .idle
  catalogue : Catalogue := .empty
  progress : List Progress := []
  stopRequested : Bool := false
  log : List LogRecord := []

namespace Run

def logged (run : Run) (records : List LogRecord) : Run := { run with log := run.log ++ records }

/-- What a run needs from here on; it fails when that is of a wrong kind. -/
def needing {α : Type} (run : Run) (value : Except ValueFault α) : Except (RunOutcome × Run) α :=
  value.mapError fun fault => (.failed (.value fault), run)

/-- Takes the run to another stage. -/
def enter (run : Run) (stage : RunStage) (about : String) : Run :=
  { run with stage }.logged [⟨.info, .pipeline, s!"[{stage.name.toUpper}] {about}"⟩]

/-- Notes a file that is left out. -/
def skip (run : Run) (path : Path) (said reason : String) (details : List (String × Json)) : Run :=
  { run with report := run.report.addSkipped path.text reason details }.logged
    [⟨.warning, .pipeline, said⟩]

/-- The domains of the messages found so far, in order. -/
def outputDomains (run : Run) : List String :=
  (run.catalogue.messages.map Message.outputDomain).eraseDups.mergeSort (· ≤ ·)

/-- What the run has counted: the totals of the report, the messages and their domains. -/
def stats (run : Run) : List (String × Json) :=
  run.report.totals
    ++ [("messages", .int run.catalogue.size), ("domains", Json.ofTexts run.outputDomains)]

/-- What is logged when the run is asked to stop. -/
def stopRecord : LogRecord := ⟨.warning, .pipeline, "Stop requested"⟩

variable (request : RunRequest)

/-- The files that the run reads. -/
def scan (run : Run) : Except (RunOutcome × Run) (List Path × Run) :=
  match request.settings.search.run run.system with
  | .error (fault, found) => .error (.failed (.search fault), run.logged found.log)
  | .ok found =>
    if found.paths.isEmpty then .error (.noFiles, run.logged found.log)
    else .ok (found.paths, run.logged found.log)

/-- A place at which a stop may be requested. -/
def heed (run : Run) (place : StopRequest) : Run :=
  if request.stop = some place then { run with stopRequested := true }.logged [stopRecord] else run

/-- Tells which file comes next. -/
def announce (run : Run) (progress : Progress) : Run :=
  { run with progress := run.progress ++ [progress] }.heed request (.before progress.current)

/-- How many nodes of a file may be visited before the run is asked to stop; none when all. -/
def visits? (run : Run) (file : Nat) : Option Nat :=
  if run.stopRequested then some 0
  else
    match request.stop with
    | some (.within stopped visits) => if stopped = file then some visits else none
    | _ => none

/-- Takes over what an extraction found in a file. An extraction that was not complete was asked to
stop before it said so. -/
def takeResult (run : Run) (path : Path) (extraction : Extraction) : Run :=
  let result := extraction.result
  let stopsNow := !result.complete && !run.stopRequested
  let counted : LogRecord :=
    ⟨.debug, .pipeline,
      s!"{path.text}: {result.messages} messages, {result.diagnostics.length} diagnostics"⟩
  let log :=
    if stopsNow then extraction.log.dropLast ++ stopRecord :: extraction.log.getLast?.toList
    else extraction.log
  { run with
    catalogue := extraction.catalogue
    report := run.report.addResult result
    stopRequested := run.stopRequested || stopsNow }.logged (log ++ [counted])

/-- Extracts the messages of a source. One that is nested too deeply is left out. -/
def extractSource (run : Run) (progress : Progress) (source : String) :
    Except (RunOutcome × Run) Run :=
  let path := progress.path
  match parseSource path.text source request.settings.maxNesting with
  | .error (.escape fault) => .error (.failed (.escape fault), run)
  | .error (.nesting file line) =>
    let said := nestingMessage file line
    .ok (run.skip path s!"Skipping {path.text}: {said}" "parse error"
      [("error", .string said), ("line", .int line)])
  | .ok (unit, parseLog) =>
    let (interruption, extraction) :=
      request.settings.extractor.run path.text unit.nodes run.catalogue
        (run.visits? request progress.current)
    let run := run.logged parseLog
    let reached := { run with catalogue := extraction.catalogue }.logged extraction.log
    match interruption with
    | none => .ok (run.takeResult path extraction)
    | some (.unreadable diagnostic) =>
      .error (.unreadable diagnostic,
        { reached with report := reached.report.addDiagnostic diagnostic })
    | some interruption => .error (.failed (.interrupted interruption), reached)

/-- Reads one file and extracts its messages. A file that cannot be read is left out. -/
def extractFile (run : Run) (progress : Progress) : Except (RunOutcome × Run) Run :=
  if run.stopRequested then .error (.stopped, run)
  else
    let run := run.announce request progress
    match run.system.read progress.path with
    | .ok content => run.extractSource request progress (decodeSource content.toList request.detector)
    | .error fault =>
      if fault.isRefusal then
        .ok (run.skip progress.path s!"Could not read {progress.path.text}" "unreadable" [])
      else .error (.failed (.file fault), run)

/-- Extracts the messages of the file that comes next. -/
def takeFile (run : Run) (progress : Progress) : Except (RunOutcome × Run) Run := do
  let run ← run.extractFile request progress
  return run.heed request (.behind progress.current)

/-- Extracts the messages of all files, unless the run is asked to stop. -/
def extractAll (run : Run) (paths : List Path) : Except (RunOutcome × Run) Run := do
  let places := paths.zipIdx.map fun (path, index) =>
    ({ current := index + 1, total := paths.length, path } : Progress)
  let run ← places.foldlM (takeFile request) (run.heed request (.behind 0))
  if run.stopRequested then throw (.stopped, run) else return run

/-- Writes a translation file. If it cannot be written, the files of the languages that are done are
told. -/
def saveFile (done : List Path) (run : Run) (file : Path × String) : Except (RunOutcome × Run) Run :=
  let (path, text) := file
  let (outcome, system) := (FileAction.writeWithFolders path text.toUTF8).run run.system
  let run := { run with system }
  match outcome with
  | .ok () => .ok (run.logged [⟨.info, .output, s!"Saved translation file: {path.text}"⟩])
  | .error fault =>
    if fault.isRefusal then .error (.unsaved path fault done, run)
    else .error (.failed (.file fault), run)

/-- The translation files of a language with their texts. -/
def translationFiles (writer : TranslationWriter) (catalogue : Catalogue) (locale : Json) :
    Except ValueFault (List (Path × String)) := do
  let folder ← request.settings.outputFolder.placeName
  writer.format.checkLanguages catalogue request.settings.sourceLanguage locale
  return (writer.files catalogue locale.shown).map fun (name, text) =>
    ((Path.ofText folder).join (Path.ofText name), text)

/-- Writes the translation files of a language and adds their paths to those that are done. -/
def saveLocale (writer : TranslationWriter) (catalogue : Catalogue) (state : List Path × Run)
    (locale : Json) : Except (RunOutcome × Run) (List Path × Run) := do
  let (done, run) := state
  let files ← run.needing (translationFiles request writer catalogue locale)
  let run ← files.foldlM (saveFile done) run
  return (done ++ files.map (·.1), run)

/-- How the messages are written, if there is such a format. -/
def writer : Except RunFault TranslationWriter :=
  let settings := request.settings
  match settings.format.text?.bind OutputFormat.ofName? with
  | some format =>
    .ok {
      format
      style :=
        { sourceLanguage := settings.sourceLanguage.shown
          date := if settings.withDate then some request.moment else none
          withPlaces := settings.withPlaces } }
  | none =>
    if settings.format.isNested then .error (.value (.notLookedUp settings.format.kindName))
    else .error (.unsupportedFormat settings.format.shown)

/-- Writes the translation files of all languages. -/
def saveAll (run : Run) (catalogue : Catalogue) : Except (RunOutcome × Run) (List Path × Run) :=
  match writer request with
  | .error fault => .error (.failed fault, run)
  | .ok writer => request.settings.locales.foldlM (saveLocale request writer catalogue) ([], run)

/-- The whole run from its start: files are found, their messages extracted, the wanted ones kept
and, unless the run is dry, written. -/
def proceed (run : Run) : Except (RunOutcome × Run) (RunOutcome × Run) := do
  let settings := request.settings
  let scanned ← run.needing settings.search.scanned.whole
  let run := run.enter .scanning (String.intercalate ", " scanned)
  let (paths, run) ← run.scan request
  let run := run.enter .extracting s!"{paths.length} files"
  let run ← run.extractAll request paths
  let listed ← run.needing settings.domains
  let excluded ← run.needing settings.ignoredDomains
  let wanted := run.catalogue.restrict listed excluded
  let run := run.logged [Catalogue.restrictLog run.catalogue wanted]
  if request.dryRun then
    return (.previewed wanted.size, run.enter .completed "dry run, nothing written")
  let run := run.enter .saving settings.outputFolder.shown
  let (saved, run) ← run.saveAll request wanted
  return (.saved wanted.size saved, run.enter .completed s!"{saved.length} files written")

end Run

namespace RunRequest

/-- Does what a run is asked to do: its outcome, and what it leaves. -/
def run (request : RunRequest) (system : FileSystem) : RunOutcome × Run :=
  let start : Run := { system, report := { locales := request.settings.locales } }
  let (outcome, run) :=
    match start.proceed request with
    | .ok ended | .error ended => ended
  match outcome with
  | .failed _ => (outcome, run.logged [⟨.error, .pipeline, "Pipeline error"⟩])
  | _ => (outcome, run)

end RunRequest

end FormHarvest
