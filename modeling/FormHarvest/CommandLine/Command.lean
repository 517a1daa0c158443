import FormHarvest.CommandLine.Extract
import FormHarvest.Report.Saving

namespace FormHarvest

/-- What the program answers: its exit code, what it prints and complains of, its log from a level
on, and the files as it leaves them. -/
structure CommandAnswer where
  exit : Nat
  out : String := ""
  complaint : String := ""
  level : LogLevel := .info
  log : List LogRecord := []
  system : FileSystem

/-- What the program does not handle. -/
inductive CommandFault where
  | settings (fault : SettingsFault)
  | report (fault : FileFault)

/-- The settings and the files with which a command works. -/
abbrev CommandResult := Except CommandFault CommandAnswer

/-- What is said to be shown of the log: debug records only on demand. -/
def LogLevel.shows (level : LogLevel) (record : LogRecord) : Bool :=
  level == .debug || record.level != .debug

/-- A log record as it is shown, without its time. -/
def LogRecord.line (record : LogRecord) : String :=
  s!"{record.source.name} - {record.level.name} - {record.text}"

namespace CommandAnswer

/-- The records of the log that are shown. -/
def shownLog (answer : CommandAnswer) : List LogRecord := answer.log.filter answer.level.shows

end CommandAnswer

namespace ExtractRequest

/-- Extracts messages as the command is asked to: the settings are read, the run is made, the report
is written if that is wanted, and the outcome is told. -/
def run (asked : ExtractRequest) (moment : String) (system : FileSystem) : CommandResult := do
  let level : LogLevel := if asked.verbose then .debug else .info
  let (outcome, state) := asked.prepare.run { system }
  let failed (why : String) : CommandAnswer :=
    { exit := 1, out := linesText ["Error: " ++ why], level, log := state.log, system := state.system }
  match outcome with
  | .error fault =>
    match fault.message? with
    | some why => return failed why
    | none => throw (.settings fault)
  | .ok none => return failed ("Config file not found: " ++ asked.config.getD "")
  | .ok (some settings) =>
    let told (texts : Texts) : Except CommandFault String :=
      (texts.whole.map (String.intercalate ", ")).mapError fun fault => .settings (.value fault)
    let scanned ← told settings.search.scanned
    let locales ← told (.ofItems .itemNotJoined 0 settings.locales)
    let header := [s!"FormLocalizer CLI v{programVersion}", s!"Scan: {scanned}",
      s!"Locales: {locales}", rule '-' 40]
    let (outcome, run) :=
      ({ settings, moment, dryRun := asked.dryRun } : RunRequest).run state.system
    let (system, reportLog) ←
      match given? asked.report with
      | none => pure (run.system, [])
      | some name =>
        let path := Path.ofText name
        let (saved, system) := ({ run.report with project := scanned }.save path).run run.system
        match saved with
        | .ok () => pure (system, [])
        | .error fault =>
          if fault.isRefusal then pure (system, [Report.saveFailed path fault])
          else throw (.report fault)
    let progress := if asked.verbose then String.join (run.progress.map Progress.text) else ""
    return {
      exit := if outcome.isSuccess then 0 else 1
      out := linesText header ++ progress ++ linesText (outcome.lines run)
      level
      log := state.log ++ run.log ++ reportLog
      system }

end ExtractRequest

/-- The name of the command that extracts messages. -/
def extractCommand : String := "extract"

/-- How the program itself is read: the first word that is no option is a command. -/
def mainGrammar : CommandGrammar (List String) where
  options :=
    [⟨["-h", "--help"], .answer (linesText (mainUsage ++ mainHelp))⟩,
      ⟨["--version"], .answer (linesText [s!"{programName} {programVersion}"])⟩]
  rule := .commandAndRest
  takeOperands words _ := words

/-- What ends the reading of the words for a program or one of its commands. -/
def answerEnd (program : String) (usage : List String) (system : FileSystem) :
    ReadingEnd → CommandAnswer
  | .answer text => { exit := 0, out := text, system }
  | .misuse fault =>
    { exit := 2
      complaint := linesText (usage ++ [s!"{program}: error: {fault.message}"])
      system }

/-- The program: what it answers to the words of its command line at a moment, given the files. -/
def runProgram (words : List String) (moment : String) (system : FileSystem) : CommandResult :=
  let misuse (fault : UsageFault) : CommandResult :=
    .ok (answerEnd programName mainUsage system (.misuse fault))
  match mainGrammar.read [] words with
  | .error ending => .ok (answerEnd programName mainUsage system ending)
  | .ok ([], []) => .ok { exit := 1, out := linesText (mainUsage ++ mainHelp), system }
  | .ok ([], unknown) => misuse (.unrecognized unknown)
  | .ok (command :: rest, unknown) =>
    if command != extractCommand then misuse (.invalidChoice ["command"] command [extractCommand])
    else
      match ExtractRequest.grammar.read {} rest with
      | .error ending => .ok (answerEnd s!"{programName} {extractCommand}" extractUsage system ending)
      | .ok (asked, others) =>
        match unknown ++ others with
        | [] => asked.run moment system
        | unknown => misuse (.unrecognized unknown)

end FormHarvest
